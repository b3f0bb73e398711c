import Mathlib.Data.Fintype.Card
import Speecher.Setup.KeywatchHolds

/-!
# What the key watcher admits

The client count is the number of slots taken (`Counted`), no user holds more watches than the limit, and no user with
a bucket is admitted more than the window's limit in it (`Admits`). With what a connection is sent (`Waits`,
`Watches`, `Gone`) these are the limits of the daemon, in every state of every run (`limitsRight`).
-/

namespace Speecher.Keywatch

/-! ## Slots -/

/-- The slots that are taken. -/
def occupied (s : Server) : Finset Slot := Finset.univ.filter fun slot => (s.clients slot).isSome

/-- The slots of a user's watching clients. -/
def watchers (s : Server) (uid : ℕ) : Finset Slot := Finset.univ.filter fun slot => s.watches uid slot

/-- The clients are counted, and no user watches more than may be. -/
structure Counted (s : Server) : Prop where
  clients : s.clientCount = (occupied s).card
  watchers : ∀ uid, (watchers s uid).card ≤ maxWatchesPerUser

theorem length_filter_finRange {n : ℕ} (p : Fin n → Bool) :
    ((List.finRange n).filter p).length = (Finset.univ.filter fun i => p i).card := by
  rw [← List.toFinset_card_of_nodup ((List.nodup_finRange n).filter p)]
  congr 1
  ext i
  simp

section Counted

variable {s s' : Server}

theorem Counted.of_watchers_subset (h : Counted s) (hclients : s'.clientCount = (occupied s').card)
    (hwatches : ∀ uid slot, s'.watches uid slot → s.watches uid slot) : Counted s' where
  clients := hclients
  watchers uid := by
    refine le_trans (Finset.card_le_card fun slot hslot => ?_) (h.watchers uid)
    simp only [Keywatch.watchers, Finset.mem_filter, Finset.mem_univ, true_and] at hslot ⊢
    exact hwatches uid slot hslot

theorem occupied_putClient (s : Server) (slot : Slot) (client : Client) :
    occupied (s.putClient slot client) = insert slot (occupied s) := by
  ext other
  by_cases h : other = slot <;> simp [occupied, Server.putClient, Function.update_apply, h]

theorem occupied_dropClient (s : Server) (slot : Slot) (client : Client) :
    occupied (s.dropClient slot client) = (occupied s).erase slot := by
  ext other
  by_cases h : other = slot <;> simp [occupied, Server.dropClient, Function.update_apply, h]

theorem watches_putClient (s : Server) (slot other : Slot) (client : Client) (uid : ℕ) :
    (s.putClient slot client).watches uid other =
      if other = slot then client.uid = uid && client.evdev ≠ 0 else s.watches uid other := by
  by_cases h : other = slot <;> simp [Server.watches, Server.putClient, h]

theorem watches_dropClient {s : Server} {slot other : Slot} {client : Client} {uid : ℕ}
    (h : (s.dropClient slot client).watches uid other) : s.watches uid other := by
  by_cases hother : other = slot
  · simp [Server.watches, Server.dropClient, hother] at h
  · simpa [Server.watches, Server.dropClient, hother] using h

/-- A client in a slot that was taken, of the same user and watching only if the one before was. -/
theorem Counted.putClient (h : Counted s) {slot : Slot} {before client : Client}
    (hbefore : s.clients slot = some before) (huid : client.uid = before.uid) (hevdev : client.evdev = before.evdev) :
    Counted (s.putClient slot client) := by
  have hmem : slot ∈ occupied s := by simp [occupied, hbefore]
  refine h.of_watchers_subset ?_ fun uid other hwatches => ?_
  · rw [occupied_putClient, Finset.insert_eq_of_mem hmem]
    exact h.clients
  · rw [watches_putClient] at hwatches
    split_ifs at hwatches with hother
    · rw [hother, Server.watches, hbefore]
      dsimp only
      rwa [← huid, ← hevdev]
    · exact hwatches

theorem Counted.dropClient (h : Counted s) {slot : Slot} {before : Client} (hbefore : s.clients slot = some before)
    (client : Client) : Counted (s.dropClient slot client) := by
  have hmem : slot ∈ occupied s := by simp [occupied, hbefore]
  refine h.of_watchers_subset ?_ fun uid other hwatches => watches_dropClient hwatches
  rw [occupied_dropClient, Finset.card_erase_of_mem hmem, ← h.clients]
  rfl

theorem Counted.visitClients (h : Counted s) {visit : Slot → Client → Client × Bool}
    (hvisit : ∀ slot client, (visit slot client).1.uid = client.uid ∧ (visit slot client).1.evdev = client.evdev) :
    Counted (s.visitClients visit) := by
  refine Server.visitClients_induction h fun s slot h => ?_
  unfold Server.visitClient
  split
  · exact h
  · rename_i client hclient
    split_ifs
    · exact h.putClient hclient (hvisit slot client).1 (hvisit slot client).2
    · exact h.dropClient hclient _

theorem uid_hold (client : Client) (keyboardFd now : ℕ) (down written : Bool) :
    (client.hold keyboardFd now down written).1.uid = client.uid ∧
      (client.hold keyboardFd now down written).1.evdev = client.evdev := by
  unfold Client.hold Client.takeHold Client.releaseHold
  dsimp only
  split_ifs <;> exact ⟨rfl, rfl⟩

theorem Counted.readKeyboard (h : Counted s) (keyboardFd : ℕ) (events : List (InputEvent × (Slot → Bool)))
    (gone : Option (Slot → Bool)) : Counted (s.readKeyboard keyboardFd events gone) := by
  have hsame : ∀ {s s' : Server}, Counted s → s'.clients = s.clients → s'.clientCount = s.clientCount →
      Counted s' := by
    intro s s' h hclients hcount
    refine h.of_watchers_subset ?_ fun uid slot hwatches => ?_
    · rw [hcount, h.clients, occupied, occupied, hclients]
    · rwa [Server.watches, hclients] at hwatches
  have hrelease : ∀ {s : Server} (written : Slot → Bool), Counted s → Counted (s.releaseHeldKeys keyboardFd written) :=
    fun written h => h.visitClients fun slot client => uid_hold client keyboardFd _ false (written slot)
  have hevent : ∀ {s : Server} (event : InputEvent) (written : Slot → Bool), Counted s →
      Counted (s.readEvent keyboardFd event written) := by
    intro s event written h
    have hhappened : Counted (s.happened (.read keyboardFd event)) := hsame h rfl rfl
    cases event with
    | synDropped => exact hsame hhappened rfl rfl
    | other => exact hhappened
    | synReport keyBits =>
      rw [readEvent_synReport]
      split_ifs
      · have hset : Counted ((s.happened (.read keyboardFd (.synReport keyBits))).setResyncing keyboardFd false) :=
          hsame hhappened rfl rfl
        cases keyBits with
        | none => exact hrelease written hset
        | some bits =>
          refine hset.visitClients fun slot client => ?_
          split_ifs
          · exact ⟨rfl, rfl⟩
          · exact uid_hold _ _ _ _ _
      · exact hhappened
    | key code value =>
      rw [readEvent_key]
      split_ifs
      · exact hhappened
      · refine hhappened.visitClients fun slot client => ?_
        split_ifs
        · exact ⟨rfl, rfl⟩
        · exact uid_hold _ _ _ _ _
  have hevents : Counted (events.foldl (fun s event => s.readEvent keyboardFd event.1 event.2) s) := by
    induction events generalizing s with
    | nil => exact h
    | cons event events ih => exact ih (hevent event.1 event.2 h)
  unfold Server.readKeyboard
  cases gone with
  | none => exact hevents
  | some written =>
    have hclosed : Counted ((events.foldl (fun s event => s.readEvent keyboardFd event.1 event.2) s).happened
        (.closed keyboardFd)) := hsame hevents rfl rfl
    exact hsame (hrelease written hclosed) rfl rfl

/-- **A request is answered within the limits**: a watch is accepted only below the user's limit. -/
theorem Counted.answer (h : Counted s) {slot : Slot} {before client : Client} (hbefore : s.clients slot = some before)
    (version keyId : UInt8) : Counted (s.answer slot client version keyId) := by
  have hmem : slot ∈ occupied s := by simp [occupied, hbefore]
  unfold Server.answer
  dsimp only
  split
  · rename_i key hnone _
    obtain ⟨hlimit, -⟩ := refusal_eq_none.mp hnone
    refine ⟨?_, fun uid => ?_⟩
    · rw [occupied_putClient, Finset.insert_eq_of_mem hmem]
      exact h.clients
    · rw [Server.uidAtWatchLimit, decide_eq_false_iff_not, length_filter_finRange, Nat.not_le] at hlimit
      by_cases huid : client.uid = uid
      · subst huid
        refine le_trans (Finset.card_le_card fun other hother => ?_) (le_trans (Finset.card_insert_le slot _) hlimit)
        simp only [Keywatch.watchers, Finset.mem_filter, Finset.mem_univ, true_and] at hother
        rw [watches_putClient] at hother
        by_cases heq : other = slot
        · rw [heq]
          exact Finset.mem_insert_self slot _
        · rw [if_neg heq] at hother
          exact Finset.mem_insert_of_mem (by simp [heq, hother])
      · refine le_trans (Finset.card_le_card fun other hother => ?_) (h.watchers uid)
        simp only [Keywatch.watchers, Finset.mem_filter, Finset.mem_univ, true_and] at hother ⊢
        rw [watches_putClient] at hother
        by_cases heq : other = slot
        · simp [heq, huid] at hother
        · rwa [if_neg heq] at hother
  · exact h.dropClient hbefore _

theorem Counted.readClient (h : Counted s) {slot : Slot} {client : Client} (hclient : s.clients slot = some client)
    (got : ReadResult) : Counted (s.readClient slot client got) := by
  cases got with
  | ended => exact h.dropClient hclient _
  | again => exact h
  | bytes bytes =>
    unfold Server.readClient
    dsimp only
    split_ifs
    · exact h.putClient hclient rfl rfl
    · split
      · exact h.answer hclient _ _
      · exact h.putClient hclient rfl rfl

end Counted

/-! ## Rate windows -/

abbrev Buckets := Fin rateBuckets → RateBucket

/-- A bucket in use, whose window is not over. -/
def Live (now : ℕ) (bucket : RateBucket) : Prop :=
  0 < bucket.count ∧ now - bucket.windowStartUsec < rateLimitWindowUsec

/-- The admissions of a bucket's user in its window. -/
def admitted (bucket : RateBucket) (admissions : List (ℕ × ℕ)) : List (ℕ × ℕ) :=
  admissions.filter fun admission => admission.1 = bucket.uid && bucket.windowStartUsec ≤ admission.2

/-- What the buckets record of the admissions. -/
structure Admits (now : ℕ) (rate : Buckets) (admissions : List (ℕ × ℕ)) : Prop where
  past : ∀ admission ∈ admissions, admission.2 ≤ now
  starts : ∀ i, (rate i).windowStartUsec ≤ now
  uids : ∀ i j, 0 < (rate i).count → 0 < (rate j).count → (rate i).uid = (rate j).uid → i = j
  bounded : ∀ i, (rate i).count ≤ rateLimitConnects
  counts : ∀ i, 0 < (rate i).count → (admitted (rate i) admissions).length ≤ (rate i).count
  /-- A user admitted at this very time has a bucket, or there was none to have. -/
  current : ∀ admission ∈ admissions, admission.2 = now →
    (∃ i, Live now (rate i) ∧ (rate i).uid = admission.1) ∨ ∀ i, Live now (rate i)

/-- The buckets, those whose window is over free again. -/
def refreshed (now : ℕ) (rate : Buckets) : Buckets := fun i =>
  if 0 < (rate i).count ∧ rateLimitWindowUsec ≤ now - (rate i).windowStartUsec then {} else rate i

section Rate

variable {now : ℕ} {rate : Buckets} {admissions : List (ℕ × ℕ)}

theorem refreshed_of_live {i : Fin rateBuckets} (h : Live now (rate i)) : refreshed now rate i = rate i :=
  if_neg fun hover => absurd h.2 (Nat.not_lt.mpr hover.2)

/-- A bucket in use after the reset is one from before, and live. -/
theorem live_refreshed {i : Fin rateBuckets} (h : 0 < (refreshed now rate i).count) :
    refreshed now rate i = rate i ∧ Live now (rate i) := by
  unfold refreshed at h ⊢
  split_ifs at h ⊢ with hover
  · exact absurd h (Nat.lt_irrefl 0)
  · exact ⟨rfl, h, Nat.lt_of_not_le fun hle => hover ⟨h, hle⟩⟩

theorem Admits.refresh (h : Admits now rate admissions) : Admits now (refreshed now rate) admissions where
  past := h.past
  starts i := by
    unfold Keywatch.refreshed
    split_ifs
    · exact Nat.zero_le now
    · exact h.starts i
  uids i j hi hj huid := by
    obtain ⟨hsi, hli⟩ := live_refreshed hi
    obtain ⟨hsj, hlj⟩ := live_refreshed hj
    rw [hsi, hsj] at huid
    exact h.uids i j hli.1 hlj.1 huid
  bounded i := by
    unfold Keywatch.refreshed
    split_ifs
    · exact Nat.zero_le _
    · exact h.bounded i
  counts i hi := by
    obtain ⟨hsame, hlive⟩ := live_refreshed hi
    rw [hsame]
    exact h.counts i hlive.1
  current admission hmem hnow := by
    rcases h.current admission hmem hnow with ⟨i, hlive, huid⟩ | hall
    · exact .inl ⟨i, by rwa [refreshed_of_live hlive], by rwa [refreshed_of_live hlive]⟩
    · exact .inr fun i => by rw [refreshed_of_live (hall i)]; exact hall i

/-- Time going by changes nothing of what was admitted. -/
theorem Admits.tick (h : Admits now rate admissions) (usec : ℕ) : Admits (now + usec) rate admissions where
  past admission hmem := Nat.le_add_right_of_le (h.past admission hmem)
  starts i := Nat.le_add_right_of_le (h.starts i)
  uids := h.uids
  bounded := h.bounded
  counts := h.counts
  current admission hmem hnow := by
    have hpast := h.past admission hmem
    obtain rfl : usec = 0 := by omega
    exact h.current admission hmem hnow

theorem length_admitted_append (bucket : RateBucket) (uid : ℕ) (admissions : List (ℕ × ℕ)) :
    (admitted bucket (admissions ++ [(uid, now)])).length =
      (admitted bucket admissions).length + if uid = bucket.uid ∧ bucket.windowStartUsec ≤ now then 1 else 0 := by
  rw [admitted, List.filter_append, List.length_append, admitted]
  split_ifs with h <;> simp [h]

theorem length_admitted_of_ne {bucket : RateBucket} {uid : ℕ} (h : bucket.uid ≠ uid) (admissions : List (ℕ × ℕ)) :
    (admitted bucket (admissions ++ [(uid, now)])).length = (admitted bucket admissions).length := by
  rw [length_admitted_append, if_neg fun heq => h heq.1.symm, Nat.add_zero]

theorem Admits.past_append (h : Admits now rate admissions) (uid : ℕ) :
    ∀ admission ∈ admissions ++ [(uid, now)], admission.2 ≤ now := by
  intro admission hmem
  rcases List.mem_append.mp hmem with hmem | hmem
  · exact h.past admission hmem
  · rw [List.mem_singleton.mp hmem]

/-- An admission counted in a bucket in use. -/
theorem Admits.admit_existing (h : Admits now rate admissions) {i : Fin rateBuckets} (hlive : Live now (rate i))
    (hroom : (rate i).count < rateLimitConnects) :
    Admits now (Function.update rate i { rate i with count := (rate i).count + 1 })
      (admissions ++ [((rate i).uid, now)]) := by
  set rate' := Function.update rate i { rate i with count := (rate i).count + 1 } with hrate'
  have hi : rate' i = { rate i with count := (rate i).count + 1 } := Function.update_self ..
  have hj : ∀ j, j ≠ i → rate' j = rate j := fun j hne => Function.update_of_ne hne ..
  have hsame : ∀ j, (rate' j).uid = (rate j).uid ∧ (0 < (rate' j).count → 0 < (rate j).count) ∧
      (Live now (rate j) → Live now (rate' j)) := by
    intro j
    by_cases hne : j = i
    · rw [hne, hi]
      exact ⟨rfl, fun _ => hlive.1, fun h => ⟨Nat.succ_pos _, h.2⟩⟩
    · rw [hj j hne]
      exact ⟨rfl, id, id⟩
  refine ⟨h.past_append _, fun j => ?_, fun j l hcount hcount' huid => ?_, fun j => ?_, fun j hcount => ?_,
    fun admission hmem hnow => ?_⟩
  · by_cases hne : j = i
    · rw [hne, hi]
      exact h.starts i
    · rw [hj j hne]
      exact h.starts j
  · rw [(hsame j).1, (hsame l).1] at huid
    exact h.uids j l ((hsame j).2.1 hcount) ((hsame l).2.1 hcount') huid
  · by_cases hne : j = i
    · rw [hne, hi]
      exact hroom
    · rw [hj j hne]
      exact h.bounded j
  · by_cases hne : j = i
    · rw [hne, hi]
      have := h.counts i hlive.1
      rw [length_admitted_append]
      split_ifs
      · exact Nat.succ_le_succ this
      · exact Nat.le_succ_of_le this
    · rw [hj j hne] at hcount ⊢
      rw [length_admitted_of_ne fun huid => hne (h.uids j i hcount hlive.1 huid)]
      exact h.counts j hcount
  · rcases List.mem_append.mp hmem with hmem | hmem
    · refine (h.current admission hmem hnow).imp (fun ⟨j, hj, huid⟩ => ?_) fun hall j => (hsame j).2.2 (hall j)
      exact ⟨j, (hsame j).2.2 hj, (hsame j).1.trans huid⟩
    · rw [List.mem_singleton.mp hmem]
      exact .inl ⟨i, (hsame i).2.2 hlive, (hsame i).1⟩

/-- An admission that takes a free bucket. -/
theorem Admits.admit_free (h : Admits now rate admissions) {i : Fin rateBuckets} {uid : ℕ} (hfree : (rate i).count = 0)
    (hnone : ∀ j, 0 < (rate j).count → (rate j).uid ≠ uid) :
    Admits now (Function.update rate i ⟨uid, 1, now⟩) (admissions ++ [(uid, now)]) := by
  set rate' := Function.update rate i ⟨uid, 1, now⟩ with hrate'
  have hi : rate' i = ⟨uid, 1, now⟩ := Function.update_self ..
  have hj : ∀ j, j ≠ i → rate' j = rate j := fun j hne => Function.update_of_ne hne ..
  have hdead : ¬Live now (rate i) := fun hlive => by
    rw [Live, hfree] at hlive
    exact absurd hlive.1 (Nat.lt_irrefl 0)
  refine ⟨h.past_append _, fun j => ?_, fun j l hcount hcount' huid => ?_, fun j => ?_, fun j hcount => ?_,
    fun admission hmem hnow => ?_⟩
  · by_cases hne : j = i
    · rw [hne, hi]
    · rw [hj j hne]
      exact h.starts j
  · by_cases hne : j = i <;> by_cases hne' : l = i
    · rw [hne, hne']
    · rw [hne, hi, hj l hne'] at huid
      rw [hj l hne'] at hcount'
      exact absurd huid.symm (hnone l hcount')
    · rw [hne', hi, hj j hne] at huid
      rw [hj j hne] at hcount
      exact absurd huid (hnone j hcount)
    · rw [hj j hne, hj l hne'] at huid
      rw [hj j hne] at hcount
      rw [hj l hne'] at hcount'
      exact h.uids j l hcount hcount' huid
  · by_cases hne : j = i
    · rw [hne, hi]
      exact Nat.succ_le_of_lt (by decide)
    · rw [hj j hne]
      exact h.bounded j
  · by_cases hne : j = i
    · -- None of the user's admissions is in the window that starts now.
      have hnew : admitted ⟨uid, 1, now⟩ admissions = [] := by
        refine List.filter_eq_nil_iff.mpr fun admission hmem hwithin => ?_
        simp only [Bool.and_eq_true, decide_eq_true_eq] at hwithin
        have hnow : admission.2 = now := Nat.le_antisymm (h.past admission hmem) hwithin.2
        rcases h.current admission hmem hnow with ⟨l, hlive, huid⟩ | hall
        · exact hnone l hlive.1 (huid.trans hwithin.1)
        · exact hdead (hall i)
      rw [hne, hi, length_admitted_append, hnew]
      split_ifs <;> simp
    · rw [hj j hne] at hcount ⊢
      rw [length_admitted_of_ne (hnone j hcount)]
      exact h.counts j hcount
  · rcases List.mem_append.mp hmem with hmem | hmem
    · rcases h.current admission hmem hnow with ⟨j, hlive, huid⟩ | hall
      · have hne : j ≠ i := fun heq => hdead (heq ▸ hlive)
        exact .inl ⟨j, by rwa [hj j hne], by rwa [hj j hne]⟩
      · exact absurd (hall i) hdead
    · rw [List.mem_singleton.mp hmem]
      exact .inl ⟨i, by rw [hi]; exact ⟨Nat.one_pos, by simp [rateLimitWindowUsec]⟩, by rw [hi]⟩

/-- An admission that is not counted, when no bucket is free. -/
theorem Admits.admit_full (h : Admits now rate admissions) {uid : ℕ} (hall : ∀ i, Live now (rate i))
    (hnone : ∀ j, 0 < (rate j).count → (rate j).uid ≠ uid) : Admits now rate (admissions ++ [(uid, now)]) where
  past := h.past_append uid
  starts := h.starts
  uids := h.uids
  bounded := h.bounded
  counts j hcount := by
    rw [length_admitted_of_ne (hnone j hcount)]
    exact h.counts j hcount
  current _ _ _ := .inr hall

/-- Fewer admissions. -/
theorem Admits.sublist (h : Admits now rate admissions) {fewer : List (ℕ × ℕ)} (hsublist : fewer.Sublist admissions) :
    Admits now rate fewer where
  past admission hmem := h.past admission (hsublist.subset hmem)
  starts := h.starts
  uids := h.uids
  bounded := h.bounded
  counts i hcount := le_trans (hsublist.filter _).length_le (h.counts i hcount)
  current admission hmem := h.current admission (hsublist.subset hmem)

theorem rateLimited_eq (s : Server) (uid : ℕ) :
    s.rateLimited uid =
      match (List.finRange rateBuckets).reverse.find? fun i =>
        0 < (refreshed s.now s.rate i).count ∧ (refreshed s.now s.rate i).uid = uid with
      | some i =>
        if rateLimitConnects ≤ (refreshed s.now s.rate i).count then (true, refreshed s.now s.rate)
        else (false, Function.update (refreshed s.now s.rate) i
          { refreshed s.now s.rate i with count := (refreshed s.now s.rate i).count + 1 })
      | none =>
        match (List.finRange rateBuckets).find? fun i => (refreshed s.now s.rate i).count = 0 with
        | some i => (false, Function.update (refreshed s.now s.rate) i ⟨uid, 1, s.now⟩)
        | none => (false, refreshed s.now s.rate) := rfl

/-- **The rate limit** keeps what the buckets record, whether a user is turned away or admitted. -/
theorem Admits.rateLimited {s : Server} (h : Admits s.now s.rate s.admissions) (uid : ℕ) :
    Admits s.now (s.rateLimited uid).2 s.admissions ∧
      ((s.rateLimited uid).1 = false → Admits s.now (s.rateLimited uid).2 (s.admissions ++ [(uid, s.now)])) := by
  have hrefreshed := h.refresh
  have hstart : s.admissions.Sublist (s.admissions ++ [(uid, s.now)]) := List.sublist_append_left ..
  rw [rateLimited_eq]
  split
  · rename_i i hfound
    have hi := List.find?_some hfound
    simp only [decide_eq_true_eq] at hi
    obtain ⟨hsame, hlive⟩ := live_refreshed hi.1
    split_ifs with hfull
    · exact ⟨hrefreshed, nofun⟩
    · have hadmits := hrefreshed.admit_existing (hsame.symm ▸ hlive) (Nat.lt_of_not_le hfull)
      rw [hi.2] at hadmits
      exact ⟨hadmits.sublist hstart, fun _ => hadmits⟩
  · rename_i hnotFound
    have hnone : ∀ j, 0 < (refreshed s.now s.rate j).count → (refreshed s.now s.rate j).uid ≠ uid := by
      intro j hcount huid
      have := List.find?_eq_none.mp hnotFound j (List.mem_reverse.mpr (List.mem_finRange j))
      exact this (by simp [hcount, huid])
    split
    · rename_i i hfound
      have hfree := List.find?_some hfound
      have hadmits := hrefreshed.admit_free (by simpa using hfree) hnone
      exact ⟨hadmits.sublist hstart, fun _ => hadmits⟩
    · rename_i hnoneFree
      have hall : ∀ j, Live s.now (refreshed s.now s.rate j) := by
        intro j
        have hcount := List.find?_eq_none.mp hnoneFree j (List.mem_finRange j)
        obtain ⟨hsame, hlive⟩ := live_refreshed (Nat.pos_of_ne_zero (by simpa using hcount))
        rwa [hsame]
      have hadmits := hrefreshed.admit_full hall hnone
      exact ⟨hadmits.sublist hstart, fun _ => hadmits⟩

end Rate

/-! ## Runs -/

/-- What the daemon admits. -/
structure Limited (s : Server) : Prop extends Counted s where
  admits : Admits s.now s.rate s.admissions

theorem Counted.refuse {s : Server} (h : Counted s) (uid pid : ℕ) : Counted (s.refuse uid pid) := ⟨h.clients, h.watchers⟩

theorem Counted.acceptClient {s : Server} (h : Counted s) (uid pid : ℕ) : Counted (s.acceptClient uid pid) := by
  have hrate : ∀ rate, Counted { s with rate := rate } := fun rate => ⟨h.clients, h.watchers⟩
  unfold Server.acceptClient
  split_ifs
  · exact h.refuse uid pid
  · dsimp only
    split_ifs
    · exact (hrate _).refuse uid pid
    · split
      · rename_i slot hfree
        have hnone : s.clients slot = none := by simpa using List.find?_some hfree
        have hmem : slot ∉ occupied s := by simp [occupied, hnone]
        refine h.of_watchers_subset ?_ fun user other hwatches => ?_
        · change s.clientCount + 1 = (occupied (s.putClient slot { uid, pid })).card
          rw [occupied_putClient, Finset.card_insert_of_notMem hmem, h.clients]
        · change (s.putClient slot { uid, pid }).watches user other = true at hwatches
          rw [watches_putClient] at hwatches
          by_cases heq : other = slot
          · simp [heq] at hwatches
          · rwa [if_neg heq] at hwatches
      · exact hrate _

theorem Admits.acceptClient {s : Server} (h : Admits s.now s.rate s.admissions) (uid pid : ℕ) :
    Admits (s.acceptClient uid pid).now (s.acceptClient uid pid).rate (s.acceptClient uid pid).admissions := by
  obtain ⟨hrate, hadmits⟩ := h.rateLimited uid
  unfold Server.acceptClient
  split_ifs
  · exact h
  · dsimp only
    split_ifs with hlimited
    · exact hrate
    · split
      · exact hadmits (by simpa using hlimited)
      · exact hrate

/-- The clock, the buckets and the admissions, which only a connection and time change. -/
def SameAdmissions (s s' : Server) : Prop := s'.now = s.now ∧ s'.rate = s.rate ∧ s'.admissions = s.admissions

theorem SameAdmissions.admits {s s' : Server} (h : SameAdmissions s s') (hadmits : Admits s.now s.rate s.admissions) :
    Admits s'.now s'.rate s'.admissions := by
  obtain ⟨hnow, hrate, hadmissions⟩ := h
  rwa [hnow, hrate, hadmissions]

theorem SameAdmissions.trans {s s' s'' : Server} (h : SameAdmissions s s') (h' : SameAdmissions s' s'') :
    SameAdmissions s s'' :=
  ⟨h'.1.trans h.1, h'.2.1.trans h.2.1, h'.2.2.trans h.2.2⟩

theorem sameAdmissions_visitClients (s : Server) (visit : Slot → Client → Client × Bool) :
    SameAdmissions s (s.visitClients visit) := by
  rw [Server.visitClients_eq]
  exact ⟨rfl, rfl, rfl⟩

theorem sameAdmissions_releaseHeldKeys (s : Server) (keyboardFd : ℕ) (written : Slot → Bool) :
    SameAdmissions s (s.releaseHeldKeys keyboardFd written) := sameAdmissions_visitClients _ _

theorem sameAdmissions_readEvent (s : Server) (keyboardFd : ℕ) (event : InputEvent) (written : Slot → Bool) :
    SameAdmissions s (s.readEvent keyboardFd event written) := by
  cases event with
  | synDropped => exact ⟨rfl, rfl, rfl⟩
  | other => exact ⟨rfl, rfl, rfl⟩
  | synReport keyBits =>
    rw [readEvent_synReport]
    split_ifs
    · have hset : SameAdmissions s
          ((s.happened (.read keyboardFd (.synReport keyBits))).setResyncing keyboardFd false) := ⟨rfl, rfl, rfl⟩
      cases keyBits with
      | none =>
        rw [Server.reconcileHolds, Server.releaseHeldKeys]
        exact hset.trans (sameAdmissions_visitClients _ _)
      | some bits =>
        rw [Server.reconcileHolds]
        exact hset.trans (sameAdmissions_visitClients _ _)
    · exact ⟨rfl, rfl, rfl⟩
  | key code value =>
    have hread : SameAdmissions s (s.happened (.read keyboardFd (.key code value))) := ⟨rfl, rfl, rfl⟩
    rw [readEvent_key]
    split_ifs
    · exact hread
    · rw [Server.report]
      exact hread.trans (sameAdmissions_visitClients _ _)

theorem sameAdmissions_readKeyboard (s : Server) (keyboardFd : ℕ) (events : List (InputEvent × (Slot → Bool)))
    (gone : Option (Slot → Bool)) : SameAdmissions s (s.readKeyboard keyboardFd events gone) := by
  have hevents : SameAdmissions s (events.foldl (fun s event => s.readEvent keyboardFd event.1 event.2) s) := by
    induction events generalizing s with
    | nil => exact ⟨rfl, rfl, rfl⟩
    | cons event events ih =>
      exact (sameAdmissions_readEvent s keyboardFd event.1 event.2).trans (ih _)
  cases gone with
  | none => exact hevents
  | some written =>
    have hclosed : SameAdmissions s ((events.foldl (fun s event => s.readEvent keyboardFd event.1 event.2) s).happened
        (.closed keyboardFd)) := hevents
    exact hclosed.trans (sameAdmissions_releaseHeldKeys _ keyboardFd written)

theorem sameAdmissions_readClient (s : Server) (slot : Slot) (client : Client) (got : ReadResult) :
    SameAdmissions s (s.readClient slot client got) := by
  have hanswer : ∀ (client : Client) (version keyId : UInt8), SameAdmissions s (s.answer slot client version keyId) := by
    intro client version keyId
    unfold Server.answer
    dsimp only
    split <;> exact ⟨rfl, rfl, rfl⟩
  cases got with
  | ended => exact ⟨rfl, rfl, rfl⟩
  | again => exact ⟨rfl, rfl, rfl⟩
  | bytes bytes =>
    unfold Server.readClient
    dsimp only
    split_ifs
    · exact ⟨rfl, rfl, rfl⟩
    · split
      · exact hanswer _ _ _
      · exact ⟨rfl, rfl, rfl⟩

theorem Limited.readClient {s : Server} (h : Limited s) {slot : Slot} {client : Client}
    (hclient : s.clients slot = some client) (got : ReadResult) : Limited (s.readClient slot client got) :=
  ⟨h.toCounted.readClient hclient got, (sameAdmissions_readClient s slot client got).admits h.admits⟩

/-- **Every step stays within the limits.** -/
theorem Limited.step {s s' : Server} {event : Server.Event} (h : Limited s) (hstep : s.step event = some s') :
    Limited s' := by
  cases event with
  | tick usec =>
    obtain rfl := Option.some.inj hstep
    exact ⟨⟨h.clients, h.watchers⟩, h.admits.tick usec⟩
  | connect uid pid =>
    obtain rfl := Option.some.inj hstep
    exact ⟨h.toCounted.acceptClient uid pid, h.admits.acceptClient uid pid⟩
  | client slot got =>
    obtain ⟨client, hclient, hread⟩ := Option.bind_eq_some_iff.mp hstep
    cases got with
    | bytes bytes =>
      dsimp only at hread
      split_ifs at hread
      exact Option.some.inj hread ▸ h.readClient hclient _
    | again => exact Option.some.inj hread ▸ h.readClient hclient .again
    | ended => exact Option.some.inj hread ▸ h.readClient hclient .ended
  | keyboard keyboardFd events gone =>
    simp only [Server.step] at hstep
    split_ifs at hstep
    obtain rfl := Option.some.inj hstep
    exact ⟨h.toCounted.readKeyboard keyboardFd events gone,
      (sameAdmissions_readKeyboard s keyboardFd events gone).admits h.admits⟩
  | plugged name fd =>
    simp only [Server.step] at hstep
    split_ifs at hstep
    · exact Option.some.inj hstep ▸ h
    · obtain rfl := Option.some.inj hstep
      exact ⟨⟨h.clients, h.watchers⟩, h.admits⟩

/-- **The limits hold in every run.** -/
theorem limited {s : Server} (h : Running s) : Limited s := by
  refine h.invariant ?_ fun s event s' _ hs hstep => hs.step hstep
  refine ⟨⟨by decide, fun uid => ?_⟩, ?_⟩
  · simp [watchers, Server.watches]
  · exact ⟨by simp, fun _ => le_rfl, nofun, fun _ => Nat.zero_le _, nofun, by simp⟩

/-- **The key watcher admits no more than its limits and shows each client only its key.** -/
theorem limitsRight (s : Server) (h : Running s) :
    s.clientCount = (occupied s).card ∧ s.clientCount ≤ maxClients ∧
      (∀ uid, (watchers s uid).card ≤ maxWatchesPerUser) ∧
      (∀ i, 0 < (s.rate i).count → (admitted (s.rate i) s.admissions).length ≤ rateLimitConnects) ∧
      (∀ slot client, s.clients slot = some client → Waits client ∨ Watches s.history client) ∧
      (∀ client ∈ s.closed, Gone s.history client) ∧
      ∀ (key : ℕ) history keyboardFd (code : KeyCode) value, code.1 ≠ key →
        shows key history (.read keyboardFd (.key code value)) = none := by
  have hkept := kept h
  have hlimited := limited h
  have hslots : s.clientCount ≤ maxClients := by
    rw [hlimited.clients]
    exact (Finset.card_le_univ _).trans_eq (Fintype.card_fin maxClients)
  refine ⟨hlimited.clients, hslots, hlimited.watchers, fun i hcount => ?_, hkept.clients, hkept.closed,
    fun key history keyboardFd code value hcode => ?_⟩
  · exact le_trans (hlimited.admits.counts i hcount) (hlimited.admits.bounded i)
  · exact if_pos (.inr (.inr hcode))

/-- One client connected, and watches. -/
theorem limitsRight_capsLock : ∃ s, Running s ∧ (occupied s).card = 1 ∧
    ∃ slot client, s.clients slot = some client ∧ Watches s.history client := by
  have hrun : (Reaches.runs Server.step (fun _ _ => True) {} capsLockRun).any (fun s =>
      s.clientCount = 1 && (s.clients ⟨0, by decide⟩).any fun client => client.evdev ≠ 0) := by decide
  obtain ⟨s, hs, hstate⟩ := (Option.any_eq_true _ _).mp hrun
  simp only [Bool.and_eq_true, decide_eq_true_eq] at hstate
  obtain ⟨client, hclient, hevdev⟩ := (Option.any_eq_true _ _).mp hstate.2
  have hrunning : Running s := .of_runs .start hs
  obtain ⟨hcount, -, -, -, hopen, -⟩ := limitsRight s hrunning
  refine ⟨s, hrunning, hcount ▸ hstate.1, _, client, hclient, ?_⟩
  exact (hopen _ client hclient).resolve_left fun hwait => of_decide_eq_true hevdev hwait.evdev

end Speecher.Keywatch
