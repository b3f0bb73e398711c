import Speecher.Secrets.Removals

/-!
# The secret store answers the newest request

`NewestAnswered` collects what those who ask the store rely on: one keyring write or deletion of a secret at a
time, reads that return what was asked for last, reports in the order of the requests, one report of each
request but those a newer one replaced, one answer to each removal's caller, and the callback given last to
`afterWrites`, called once the writes settled.

The store keeps it in every run that settles no request out of its turn (`newest_answered`). A refused save is
reported from the event loop, while a removal reports what it drops at once: one that starts in between tells
of the newer request first (`reported_out_of_turn`).
-/

namespace Speecher.SecretStore

variable {s s' : SecretStore} {secret : Secret} {i : Instr} {code code' : List Instr}

/-! ## Looking after the writes -/

/-- Looks whether the writes settled, at once or next. -/
def Instr.looks : Instr → Bool
  | .writeWaiting _ | .notifyIfWritesSettled => true
  | _ => false

/-- What waits for the writes, in a store with code still to run. -/
structure Settling (s : SecretStore) (code : List Instr) : Prop where
  /-- A request that waits while nothing is written is about to be. -/
  turn : ∀ x, (s.cache x).phase = .idle → (s.cache x).waiting.isSome → .writeWaiting x ∈ code
  notified : s.afterWrites.isSome → s.writesSettled = true → ∃ j ∈ code, j.looks = true

theorem writesSettled_iff (s : SecretStore) :
    s.writesSettled = true ↔ s.removals = [] ∧ ∀ x, (s.cache x).newest = none := by
  simp only [writesSettled, Bool.and_eq_true, List.isEmpty_iff, List.all_eq_true, Option.isNone_iff_eq_none]
  exact and_congr_right fun _ => ⟨fun h x => h x (mem_secretEntries x), fun h x _ => h x⟩

theorem Settling.keep (h : Settling s (i :: code)) (hi : i.looks = false)
    (hphase : ∀ x, (s'.cache x).phase = (s.cache x).phase) (hwaiting : ∀ x, (s'.cache x).waiting = (s.cache x).waiting)
    (hnewest : ∀ x, (s'.cache x).newest = (s.cache x).newest) (hremovals : s'.removals = [] → s.removals = [])
    (hafter : s'.afterWrites = s.afterWrites) : Settling s' (code' ++ code) := by
  refine ⟨fun x hx hwaits => ?_, fun hsome hsettled => ?_⟩
  · rw [hphase] at hx
    rw [hwaiting] at hwaits
    refine List.mem_append_right _ ((List.mem_cons.mp (h.turn x hx hwaits)).resolve_left ?_)
    rintro rfl
    cases hi
  · obtain ⟨hnil, hnone⟩ := (writesSettled_iff s').mp hsettled
    have hsettled : s.writesSettled = true :=
      (writesSettled_iff s).mpr ⟨hremovals hnil, fun x => hnewest x ▸ hnone x⟩
    obtain ⟨j, hj, hlooks⟩ := h.notified (hafter ▸ hsome) hsettled
    refine ⟨j, List.mem_append_right _ ((List.mem_cons.mp hj).resolve_left ?_), hlooks⟩
    rintro rfl
    rw [hi] at hlooks
    cases hlooks

theorem SameLines.waiting (h : SameLines s s') (x : Secret) : (s'.cache x).waiting = (s.cache x).waiting :=
  congrArg RequestLine.waiting (h.line x)

theorem SameLines.newest (h : SameLines s s') (x : Secret) : (s'.cache x).newest = (s.cache x).newest :=
  congrArg RequestLine.newest (h.line x)

theorem Settling.of_sameLines (h : Settling s (i :: code)) (hi : i.looks = false) (hsame : SameLines s s') :
    Settling s' (code' ++ code) :=
  h.keep hi hsame.phase hsame.waiting hsame.newest (fun hnil => hsame.books.removals ▸ hnil) hsame.books.afterWrites

/-- Whatever leaves a look to be taken keeps what waits for the writes, if other secrets wait as before. -/
theorem Settling.look (secret : Secret) (h : Settling s (i :: code)) (hi : ∀ x, i = .writeWaiting x → x = secret)
    (hlook : ∃ j ∈ code', j.looks = true)
    (hother : ∀ x, x ≠ secret → (s'.cache x).phase = (s.cache x).phase ∧ (s'.cache x).waiting = (s.cache x).waiting)
    (hself : (s'.cache secret).phase = .idle → (s'.cache secret).waiting.isSome → .writeWaiting secret ∈ code' ++ code) :
    Settling s' (code' ++ code) := by
  refine ⟨fun x hx hwaits => ?_, fun _ _ => ?_⟩
  · by_cases hne : x = secret
    · subst hne
      exact hself hx hwaits
    · rw [(hother x hne).1] at hx
      rw [(hother x hne).2] at hwaits
      exact List.mem_append_right _ ((List.mem_cons.mp (h.turn x hx hwaits)).resolve_left
        fun heq => hne (hi x heq.symm))
  · obtain ⟨j, hj, hlooks⟩ := hlook
    exact ⟨j, List.mem_append_left _ hj, hlooks⟩

theorem Settling.finishWrite (h : Settling s (i :: code)) (hi : i.looks = false) (store : SecretStore)
    (hcache : store.cache = s.cache) (answer : Option KeyringAnswer) (reply : Reply) :
    Settling (store.finishWrite secret answer reply).1 ((store.finishWrite secret answer reply).2 ++ code) := by
  have hwriteWaiting : .writeWaiting secret ∈ (store.finishWrite secret answer reply).2 := by
    unfold SecretStore.finishWrite
    dsimp only
    split
    · simp
    · split_ifs <;> simp
  refine h.look secret ?_ ⟨_, hwriteWaiting, rfl⟩ (fun x hx => ?_) fun _ _ => List.mem_append_left _ hwriteWaiting
  · rintro x rfl
    cases hi
  · rw [← hcache]
    have hidle : (store.setState secret { store.cache secret with phase := .idle, writing := none }).cache x =
        store.cache x := setState_cache_of_ne hx _
    unfold SecretStore.finishWrite
    dsimp only
    split
    · rw [hidle]
      exact ⟨rfl, rfl⟩
    · have hstored := fun request => sameLines_storeRequest
        (store.setState secret { store.cache secret with phase := .idle, writing := none }) secret request answer reply
      split_ifs
      · exact ⟨((hstored _).phase x).trans (by rw [hidle]), ((hstored _).waiting x).trans (by rw [hidle])⟩
      · rw [settle_cache]
        exact ⟨((hstored _).phase x).trans (by rw [hidle]), ((hstored _).waiting x).trans (by rw [hidle])⟩

theorem writeNext_cache_of_ne {x : Secret} (hx : x ≠ secret) (store : SecretStore) :
    (store.writeNext secret).cache x = store.cache x := by
  unfold writeNext
  dsimp only
  split
  · exact setState_cache_of_ne hx _
  · split_ifs <;> exact setState_cache_of_ne hx _

/-- The request waiting its turn is then written. -/
theorem writeNext_cache_self {request : Request} {store : SecretStore}
    (hwaiting : (store.cache secret).waiting = some request) :
    (store.writeNext secret).cache secret =
      { store.cache secret with writing := some request, waiting := none, phase := .writing } := by
  unfold writeNext
  simp only [hwaiting]
  split_ifs <;> exact setState_cache_self _

theorem await_cache_of_ne {x : Secret} (hx : x ≠ secret) (store : SecretStore) (request : Request) :
    (store.await secret request).cache x = store.cache x := by
  unfold await
  dsimp only
  split_ifs
  · rw [writeNext_cache_of_ne hx, setState_cache_of_ne hx]
  · exact setState_cache_of_ne hx _

/-- A request that was asked for is written, or waits while another is. -/
theorem await_cache_self (store : SecretStore) (secret : Secret) (request : Request) :
    (store.await secret request).cache secret =
      if (store.cache secret).phase = .idle then
        { store.cache secret with writing := some request, waiting := none, phase := .writing }
      else { store.cache secret with waiting := some request } := by
  unfold await
  dsimp only
  simp only [setState_cache_self]
  split_ifs
  · rw [writeNext_cache_self (by rw [setState_cache_self]), setState_cache_self]
  · exact setState_cache_self _

theorem Settling.save {value : Text} {fallBack : Bool} (h : Settling s (.save secret value fallBack :: code))
    (request : Request) : Settling (s.save secret request).1 ((s.save secret request).2 ++ code) := by
  have hturn : ∀ x, x ≠ secret → (s.cache x).phase = .idle → (s.cache x).waiting.isSome → .writeWaiting x ∈ code :=
    fun x _ hx hwaits => (List.mem_cons.mp (h.turn x hx hwaits)).resolve_left (by simp)
  have hnote : SameLines (s.note secret request) (s.note secret request) := .refl _
  unfold SecretStore.save
  dsimp only
  split
  · refine h.look secret (by simp) ⟨_, List.mem_singleton_self _, rfl⟩ (fun x hx => ?_) fun _ hwaits => ?_
    · rw [post, setState_cache_of_ne hx]
      exact ⟨rfl, rfl⟩
    · rw [post, setState_cache_self] at hwaits
      cases hwaits
  · have hhidden : SameLines (s.note secret request) (if (s.note secret request).hides secret request = true then
        (s.note secret request).hide secret else s.note secret request) := by
      split_ifs
      · exact sameLines_say _ _ _
      · exact hnote
    set hidden := if (s.note secret request).hides secret request = true then (s.note secret request).hide secret
      else s.note secret request
    refine ⟨fun x hx hwaits => ?_, fun _ hsettled => ?_⟩
    · by_cases hne : x = secret
      · subst hne
        rw [await_cache_self] at hx hwaits
        by_cases hidle : (hidden.cache x).phase = .idle
        · rw [if_pos hidle] at hx
          cases hx
        · rw [if_neg hidle] at hx
          exact (hidle hx).elim
      · rw [await_cache_of_ne hne] at hx hwaits
        exact hturn x hne ((hhidden.phase x).symm.trans hx) ((congrArg Option.isSome (hhidden.waiting x)).symm.trans hwaits)
    · have hnone := ((writesSettled_iff _).mp hsettled).2 secret
      rw [await_cache_self] at hnone
      split_ifs at hnone <;> cases hnone

theorem Settling.dropRows {rows : List Secret} (h : Settling s (.dropRows rows :: code)) (hremovals : s.removals ≠ [])
    (reply : Reply) : Settling (exec reply (.dropRows rows) s).1 ((exec reply (.dropRows rows) s).2 ++ code) := by
  cases rows with
  | nil => exact h.of_sameLines rfl (.refl s)
  | cons secret rows =>
    simp only [exec]
    have hother : ∀ x, x ≠ secret → (s.dropRow secret).1.cache x = s.cache x := by
      intro x hx
      unfold dropRow
      dsimp only
      split
      · exact setState_cache_of_ne hx _
      · rw [settle_cache, setState_cache_of_ne hx]
    refine ⟨fun x hx hwaits => ?_, fun _ hsettled => ?_⟩
    · by_cases hne : x = secret
      · subst hne
        obtain ⟨hnone, -⟩ := Option.or_eq_none_iff.mp (newest_dropRow s x)
        rw [hnone] at hwaits
        cases hwaits
      · rw [hother x hne] at hx hwaits
        exact List.mem_append_right _ ((List.mem_cons.mp (h.turn x hx hwaits)).resolve_left (by simp))
    · have hnil := ((writesSettled_iff _).mp hsettled).1
      rw [(sameBooks_dropRow s secret).removals] at hnil
      exact (hremovals hnil).elim

theorem Settling.writeWaiting (h : Settling s (.writeWaiting secret :: code)) (reply : Reply) :
    Settling (exec reply (.writeWaiting secret) s).1 ((exec reply (.writeWaiting secret) s).2 ++ code) := by
  simp only [exec]
  refine h.look secret (by simp [eq_comm]) ⟨_, List.mem_singleton_self _, rfl⟩ (fun x hx => ?_)
    fun hidle hwaits => ?_
  · split_ifs
    · rw [writeNext_cache_of_ne hx]
      exact ⟨rfl, rfl⟩
    · exact ⟨rfl, rfl⟩
  · split_ifs at hidle hwaits with hnext
    · simp only [Bool.and_eq_true] at hnext
      obtain ⟨request, hwaiting⟩ := Option.isSome_iff_exists.mp hnext.2
      rw [writeNext_cache_self hwaiting] at hidle
      cases hidle
    · exact (hnext (by simp [hidle, hwaits])).elim

/-- The callback is called, or the writes have not settled. -/
theorem Settling.notify (h : Settling s (.notifyIfWritesSettled :: code)) (reply : Reply) :
    Settling (exec reply .notifyIfWritesSettled s).1 ((exec reply .notifyIfWritesSettled s).2 ++ code) := by
  have hturn : ∀ x, (s.cache x).phase = .idle → (s.cache x).waiting.isSome → .writeWaiting x ∈ code :=
    fun x hx hwaits => (List.mem_cons.mp (h.turn x hx hwaits)).resolve_left (by simp)
  simp only [exec]
  split
  · split_ifs with hsettled
    · exact ⟨fun x hx hwaits => List.mem_append_right _ (hturn x hx hwaits), by rintro ⟨⟩⟩
    · exact ⟨fun x hx hwaits => List.mem_append_right _ (hturn x hx hwaits), fun _ h' => (hsettled h').elim⟩
  · rename_i hnone
    exact ⟨fun x hx hwaits => List.mem_append_right _ (hturn x hx hwaits), fun hsome => by rw [hnone] at hsome; cases hsome⟩

theorem Settling.answered {job : Job} {answer : KeyringAnswer} (h : Settling s (.answered job answer :: code))
    (reply : Reply) : Settling (s.answered job answer reply).1 ((s.answered job answer reply).2 ++ code) := by
  have hkeep : ∀ {s' : SecretStore} {code' : List Instr}, SameLines { s with jobs := s.jobs.erase job } s' →
      Settling s' (code' ++ code) := fun hsame =>
    h.keep rfl hsame.phase hsame.waiting hsame.newest (fun hnil => hsame.books.removals ▸ hnil) hsame.books.afterWrites
  unfold SecretStore.answered
  dsimp only
  split
  · exact h.finishWrite rfl { s with jobs := s.jobs.erase job } rfl _ _
  · exact hkeep (sameLines_finishRead _ _ _)
  · unfold removalAnswered
    split_ifs
    · exact hkeep (sameLines_forgetEntry _ _)
    · exact h.keep rfl (fun _ => rfl) (fun _ => rfl) (fun _ => rfl) id rfl
    · exact h.keep rfl (fun _ => rfl) (fun _ => rfl) (fun _ => rfl) id rfl
  · unfold removalRead
    split_ifs
    · exact hkeep (sameLines_markDeleted _ _)
    · exact hkeep (.refl _)

/-- **What waits for the writes** is looked after whatever the store does. -/
theorem Settling.exec (h : Settling s (i :: code)) (hremoving : Removing s (i :: code)) (reply : Reply) :
    Settling (exec reply i s).1 ((SecretStore.exec reply i s).2 ++ code) := by
  have hsame : i.looks = false → SameLines s (SecretStore.exec reply i s).1 → Settling (SecretStore.exec reply i s).1
      ((SecretStore.exec reply i s).2 ++ code) := fun hi hs => h.of_sameLines hi hs
  cases i with
  | save secret value fallBack => exact h.save _
  | saveSecrets values => exact hsame rfl (.refl s)
  | saveRows rows values =>
    cases rows with
    | nil => exact hsame rfl (.refl s)
    | cons secret rows => exact hsame rfl (sameLines_saveRow s secret values reply)
  | saveValues values => cases values <;> exact hsame rfl (.refl s)
  | deleteKeyringSecrets =>
    simp only [SecretStore.exec]
    split_ifs
    · exact h.keep rfl (fun _ => rfl) (fun _ => rfl) (fun _ => rfl) (by simp) rfl
    · exact h.keep rfl (fun _ => rfl) (fun _ => rfl) (fun _ => rfl) (by simp) rfl
  | dropRows rows =>
    exact h.dropRows (hremoving.removals_ne_nil (by rw [List.countP_cons_of_pos rfl]; omega)) reply
  | removeNext rows =>
    cases rows with
    | nil =>
      refine ⟨fun x hx hwaits => ?_, fun _ _ => ⟨.notifyIfWritesSettled, by simp [SecretStore.exec, finishRemoval], rfl⟩⟩
      exact List.mem_append_right _ ((List.mem_cons.mp (h.turn x hx hwaits)).resolve_left (by simp))
    | cons secret rows => exact h.keep rfl (fun _ => rfl) (fun _ => rfl) (fun _ => rfl) id rfl
  | afterWritesAsked =>
    refine ⟨fun x hx hwaits => ?_, fun _ _ => ⟨.notifyIfWritesSettled, by simp [SecretStore.exec], rfl⟩⟩
    exact List.mem_append_right _ ((List.mem_cons.mp (h.turn x hx hwaits)).resolve_left (by simp))
  | readSecret secret start =>
    refine hsame rfl ?_
    simp only [SecretStore.exec]
    split_ifs
    · exact sameLines_startRead s secret
    · exact sameLines_cacheFallback s secret
  | writeWaiting secret => exact h.writeWaiting reply
  | notifyIfWritesSettled => exact h.notify reply
  | posted =>
    simp only [SecretStore.exec]
    split
    · exact h.of_sameLines rfl (.refl s)
    · rename_i secret request refusal posted _
      have hbooks := sameBooks_settle { s with posted } secret request false refusal
      exact h.keep rfl (fun x => by rw [settle_cache]) (fun x => by rw [settle_cache]) (fun x => by rw [settle_cache])
        (fun hnil => hbooks.removals ▸ hnil) hbooks.afterWrites
    · rename_i secret answer posted _
      exact h.finishWrite rfl { s with posted } rfl _ _
  | answered job answer =>
    simp only [SecretStore.exec]
    split_ifs
    · exact h.answered reply
    · exact h.of_sameLines rfl (.refl s)
  | settingsSaved =>
    refine hsame rfl ?_
    simp only [SecretStore.exec]
    split_ifs
    · exact sameLines_saveFile s
    · exact .refl s
  | settingsDeleted | perform | removalDone => exact h.keep rfl (fun _ => rfl) (fun _ => rfl) (fun _ => rfl) id rfl
  | saveFinished | callAfterWrites => exact hsame rfl (.refl s)

/-! ## The callbacks of `afterWrites` -/

/-- The callbacks given to `afterWrites`, of which only the last is kept. -/
structure Callbacks (s : SecretStore) : Prop where
  latest : ∀ callback, s.afterWrites = some callback → callback + 1 = s.callbacks ∧ callback ∉ s.callbacksRun
  ran : ∀ callback ∈ s.callbacksRun, callback < s.callbacks
  once : s.callbacksRun.Nodup
  last : ∀ callback, s.callbacks = callback + 1 → s.afterWrites = some callback ∨ callback ∈ s.callbacksRun

theorem Callbacks.congr (h : Callbacks s) (hafter : s'.afterWrites = s.afterWrites) (hcallbacks : s'.callbacks = s.callbacks)
    (hrun : s'.callbacksRun = s.callbacksRun) : Callbacks s' := by
  obtain ⟨latest, ran, once, last⟩ := h
  constructor
  · rwa [hafter, hcallbacks, hrun]
  · rwa [hcallbacks, hrun]
  · rwa [hrun]
  · rwa [hafter, hcallbacks, hrun]

/-- The keyring's answers are no callback's business. -/
theorem answered_callbacks (store : SecretStore) (job : Job) (answer : KeyringAnswer) (reply : Reply) :
    (store.answered job answer reply).1.afterWrites = store.afterWrites ∧
      (store.answered job answer reply).1.callbacks = store.callbacks ∧
      (store.answered job answer reply).1.callbacksRun = store.callbacksRun := by
  have hbooks : ∀ s', SameBooks { store with jobs := store.jobs.erase job } s' → s'.afterWrites = store.afterWrites ∧
      s'.callbacks = store.callbacks ∧ s'.callbacksRun = store.callbacksRun :=
    fun s' h => ⟨h.afterWrites, h.callbacks, h.callbacksRun⟩
  unfold SecretStore.answered
  dsimp only
  split
  · exact hbooks _ (sameBooks_finishWrite _ _ _ _)
  · exact hbooks _ (sameLines_finishRead _ _ _).books
  · unfold removalAnswered
    split_ifs
    · exact hbooks _ (sameLines_forgetEntry _ _).books
    · exact ⟨rfl, rfl, rfl⟩
    · exact ⟨rfl, rfl, rfl⟩
  · unfold removalRead
    split_ifs
    · exact hbooks _ (sameLines_markDeleted _ _).books
    · exact ⟨rfl, rfl, rfl⟩

theorem Callbacks.exec (h : Callbacks s) (reply : Reply) (i : Instr) : Callbacks (exec reply i s).1 := by
  have hbooks : i.keepsBooks = true → Callbacks (SecretStore.exec reply i s).1 := fun hi =>
    have hsame : SameBooks s (SecretStore.exec reply i s).1 := sameBooks_exec reply hi
    h.congr hsame.afterWrites hsame.callbacks hsame.callbacksRun
  cases i with
  | deleteKeyringSecrets =>
    simp only [SecretStore.exec]
    split_ifs <;> exact h.congr rfl rfl rfl
  | removeNext rows => cases rows <;> exact h.congr rfl rfl rfl
  | removalDone caller => exact h.congr rfl rfl rfl
  | afterWritesAsked =>
    simp only [SecretStore.exec]
    refine ⟨?_, fun callback hrun => Nat.lt_succ_of_lt (h.ran callback hrun), h.once, ?_⟩
    · rintro callback ⟨⟩
      exact ⟨rfl, fun hrun => Nat.lt_irrefl _ (h.ran _ hrun)⟩
    · intro callback hcallback
      exact .inl (congrArg some (Nat.succ.inj hcallback))
  | notifyIfWritesSettled =>
    simp only [SecretStore.exec]
    split
    · rename_i callback hsome
      split_ifs
      · obtain ⟨hlatest, hnot⟩ := h.latest callback hsome
        refine ⟨by rintro _ ⟨⟩, fun other hother => ?_, ?_, fun other hother => ?_⟩
        · rcases List.mem_append.mp hother with hother | hother
          · exact h.ran other hother
          · rw [List.mem_singleton.mp hother]
            exact Nat.lt_of_succ_le (Nat.le_of_eq hlatest)
        · refine List.nodup_append.mpr ⟨h.once, List.nodup_singleton _, ?_⟩
          rintro a ha b hb rfl
          exact hnot (List.mem_singleton.mp hb ▸ ha)
        · have hsame : other = callback := Nat.succ.inj (hother.symm.trans hlatest.symm)
          exact .inr (List.mem_append_right _ (List.mem_singleton.mpr hsame))
      · exact h
    · exact h
  | answered job answer =>
    simp only [SecretStore.exec]
    split_ifs
    · obtain ⟨hafter, hcallbacks, hrun⟩ := answered_callbacks s job answer reply
      exact h.congr hafter hcallbacks hrun
    · exact h
  | save | saveSecrets | saveRows | saveValues | dropRows | readSecret | writeWaiting | posted | settingsSaved
  | settingsDeleted | perform | saveFinished | callAfterWrites => exact hbooks rfl

/-- Only a settled store calls the callback. -/
theorem callbacksRun_exec (reply : Reply) (h : (exec reply i s).1.callbacksRun ≠ s.callbacksRun) :
    s.writesSettled = true := by
  cases i with
  | notifyIfWritesSettled =>
    simp only [exec] at h
    split at h
    · split_ifs at h with hsettled
      · exact hsettled
      · exact (h rfl).elim
    · exact (h rfl).elim
  | deleteKeyringSecrets =>
    simp only [exec] at h
    split_ifs at h <;> exact (h rfl).elim
  | removeNext rows => cases rows <;> exact (h rfl).elim
  | removalDone | afterWritesAsked => exact (h rfl).elim
  | answered job answer =>
    refine (h ?_).elim
    simp only [exec]
    split_ifs
    · exact (answered_callbacks s job answer reply).2.2
    · rfl
  | save | saveSecrets | saveRows | saveValues | dropRows | readSecret | writeWaiting | posted | settingsSaved
  | settingsDeleted | perform | saveFinished | callAfterWrites => exact (h (sameBooks_exec reply rfl).callbacksRun).elim

/-! ## Every run -/

/-- The keyring's answer to a request, a write or a deletion the store has not dropped, is awaited. -/
def hears (store : SecretStore) (secret : Secret) (job : Job) : Bool :=
  decide (job.secret = secret) &&
    match job.purpose with
    | .write => (store.cache secret).writing.isSome
    | .removal _ => true
    | .read | .removalRead _ => false

/-- Nothing is left to do, posted or to be answered. -/
structure Quiet (c : Config SecretStore Instr) : Prop where
  code : c.code = []
  posted : c.state.posted = []
  jobs : c.state.jobs = []

/-- **What those who ask the store rely on.** -/
structure NewestAnswered (c : Config SecretStore Instr) : Prop where
  /-- One keyring write or deletion of a secret at a time. -/
  alone : ∀ secret, c.state.jobs.countP (c.state.hears secret) ≤ 1
  /-- Reads return what was asked for last, while it is under way. -/
  reads : ∀ secret request, (c.state.cache secret).newest = some request →
    (c.state.asked secret).getLast? = some request ∧ ∀ found, c.state.read secret found = request.value
  inOrder : ∀ secret, (c.state.told secret).Pairwise (· < ·)
  /-- One report of each request, none of a request that a newer one replaced. -/
  once : Quiet c → ∀ secret, ∀ request ∈ c.state.asked secret,
    (c.state.told secret).count request.number = if request.number ∈ c.state.replaced secret then 0 else 1
  untold : ∀ secret, ∀ number ∈ c.state.replaced secret, number ∉ c.state.told secret
  /-- One answer to each caller of a removal. -/
  callers : c.state.removalsAnswered.Nodup ∧ (Quiet c → ∀ caller < c.state.removalCallers, caller ∈ c.state.removalsAnswered)
  /-- One call of the callback given last. -/
  callbacks : c.state.callbacksRun.Nodup ∧ (Quiet c → ∀ callback, c.state.callbacks = callback + 1 →
    callback ∈ c.state.callbacksRun)
  /-- It is called once the writes settled. -/
  settled : ∀ reply c', machine.next? c (.run reply) = some c' → c'.state.callbacksRun ≠ c.state.callbacksRun →
    c.state.removals = [] ∧ ∀ secret, (c.state.cache secret).writing = none ∧ (c.state.cache secret).waiting = none

variable {c : Config SecretStore Instr} {ok : Config SecretStore Instr → Move Instr Reply → Prop}

theorem Removing.enter (h : Removing s code) (hi : i.apart = true) : Removing s (i :: code) := by
  refine ⟨?_, fun x hx => ?_, ?_⟩
  · rw [List.countP_cons_of_neg (by rw [Instr.removes_of_apart hi]; exact Bool.false_ne_true)]
    exact h.one
  · rcases h.dropped x hx with hnil | ⟨rows, hrows, hmem⟩
    · exact .inl hnil
    · exact .inr ⟨rows, List.mem_cons_of_mem _ hrows, hmem⟩
  · rw [List.filterMap_cons_none (Instr.caller_of_apart hi)]
    exact h.callers

theorem Settling.enter (h : Settling s code) : Settling s (i :: code) := by
  refine ⟨fun x hx hwaits => List.mem_cons_of_mem _ (h.turn x hx hwaits), fun hsome hsettled => ?_⟩
  obtain ⟨j, hj, hlooks⟩ := h.notified hsome hsettled
  exact ⟨j, List.mem_cons_of_mem _ hj, hlooks⟩

theorem apart_of_enters (h : enters i = true) : i.apart = true := by cases i <;> first | rfl | cases h

theorem apart_of_wakes (h : wakes s i = true) : i.apart = true := by cases i <;> first | rfl | cases h

/-- The books of the store, in every configuration reached. -/
theorem books_hold (hc : machine.Reachable ok Starts c) :
    Removing c.state c.code ∧ Settling c.state c.code ∧ Callbacks c.state := by
  refine (hc.assume fun c hc => lines_sound hc).invariant
    (P := fun c => Removing c.state c.code ∧ Settling c.state c.code ∧ Callbacks c.state) ?_ ?_ ?_ ?_
  · rintro s ⟨file, ring, fileName, rfl⟩
    refine ⟨⟨rfl, fun _ h => (nomatch h), .nil⟩, ⟨fun _ _ h => (nomatch h), fun h => (nomatch h)⟩, ?_⟩
    exact ⟨fun _ h => (nomatch h), fun _ h => (nomatch h), .nil, fun _ h => (nomatch h)⟩
  · rintro reply i k s ⟨-, hnumbered, hsound⟩ ⟨hremoving, hsettling, hcallbacks⟩
    exact ⟨hremoving.exec hsound hnumbered reply, hsettling.exec hremoving reply, hcallbacks.exec reply i⟩
  · rintro i k s - ⟨hremoving, hsettling, hcallbacks⟩ - hi
    exact ⟨hremoving.enter (apart_of_enters hi), hsettling.enter, hcallbacks⟩
  · rintro i s - ⟨hremoving, hsettling, hcallbacks⟩ hi
    exact ⟨hremoving.enter (apart_of_wakes hi), hsettling.enter, hcallbacks⟩

/-- One keyring write or deletion of a secret at a time: none of its requests is under way in a removal that
asks the keyring. -/
theorem hears_le_one (hsound : (s.line secret).Sound Request.number) (hremoving : Removing s code) :
    s.jobs.countP (s.hears secret) ≤ 1 := by
  have howed : s.jobs.countP (Job.writes secret) ≤ 1 := (Nat.le_add_right _ _).trans (owed_le_one hsound)
  have hremoves : s.jobs.countP Job.removes ≤ 1 := by
    have := hremoving.one
    split_ifs at this <;> omega
  cases hwriting : (s.cache secret).writing with
  | none =>
    refine (List.countP_mono_left fun job _ hjob => ?_).trans hremoves
    simp only [hears, hwriting, Option.isSome_none, Bool.and_eq_true] at hjob
    cases hpurpose : job.purpose <;> simp_all [Job.removes]
  | some request =>
    have hnone : s.jobs.countP Job.removes = 0 := by
      have hnewest : (s.cache secret).newest.isSome := by simp [SecretState.newest, hwriting]
      have hone := hremoving.one
      rcases hremoving.dropped secret hnewest with hnil | ⟨rows, hrows, -⟩
      · rw [hnil] at hone
        simp only [List.isEmpty_nil, if_true] at hone
        omega
      · have hpos : 0 < code.countP Instr.removes := List.countP_pos_iff.mpr ⟨_, hrows, rfl⟩
        split_ifs at hone <;> omega
    refine (List.countP_mono_left fun job hjob hhears => ?_).trans howed
    have hnot := List.countP_eq_zero.mp hnone job hjob
    simp only [hears, Bool.and_eq_true, decide_eq_true_eq] at hhears
    cases hpurpose : job.purpose <;> simp_all [Job.removes, Job.writes]

/-- Nothing is under way in a quiet store. -/
theorem Quiet.newest_eq_none (hquiet : Quiet c) (hsound : (c.state.line secret).Sound Request.number)
    (hsettling : Settling c.state c.code) : (c.state.cache secret).newest = none := by
  have hfree : (c.state.line secret).free = true := by
    have := hsound.owed_eq
    simp only [line, hquiet.jobs, hquiet.posted, List.countP_nil, Nat.add_zero] at this
    simpa [line] using this
  have hwaiting : (c.state.cache secret).waiting = none := by
    by_contra hsome
    have hmem := hsettling.turn secret (of_decide_eq_true hfree) (Option.isSome_iff_ne_none.mpr hsome)
    rw [hquiet.code] at hmem
    cases hmem
  have hwriting : (c.state.cache secret).writing = none := hsound.working_free hfree
  rw [SecretState.newest, hwaiting, hwriting]
  rfl

/-- **The store answers the newest request**, in every run that settles no request out of its turn. -/
theorem newest_answered (hc : machine.Reachable InTurn Starts c) : NewestAnswered c := by
  obtain ⟨hnumbered, hsound⟩ := lines_sound hc
  obtain ⟨hremoving, hsettling, hcallbacks⟩ := books_hold hc
  have hnone : Quiet c → ∀ secret, (c.state.cache secret).newest = none :=
    fun hquiet secret => hquiet.newest_eq_none (hsound secret) hsettling
  have hnil : Quiet c → c.state.removals = [] := by
    intro hquiet
    have hone := hremoving.one
    rw [hquiet.code, hquiet.jobs] at hone
    by_contra hne
    rw [if_neg fun h => hne (List.isEmpty_iff.mp h)] at hone
    cases hone
  refine ⟨fun secret => hears_le_one (hsound secret) hremoving, fun secret request hnewest => ?_,
    fun secret => (lines_inOrder hc secret).told, fun hquiet secret request hrequest => ?_,
    fun secret number hreplaced htold => ?_, ⟨?_, fun hquiet caller hcaller => ?_⟩,
    ⟨hcallbacks.once, fun hquiet callback hcallback => ?_⟩, ?_⟩
  · refine ⟨(hsound secret).newest_last request hnewest, fun found => ?_⟩
    simp [read, readWithoutKeyring, hnewest]
  · refine (hsound secret).count_told (hnone hquiet secret) ?_ hrequest
    simp [line, refused, hquiet.posted]
  · exact (List.nodup_append.mp (hsound secret).nodup).2.2 number hreplaced number
      (List.mem_append_left _ (List.mem_append_left _ htold)) rfl
  · have hnodup := hremoving.callers.nodup_iff.mp List.nodup_range
    exact (List.nodup_append.mp (List.nodup_append.mp hnodup).1).1
  · have hmem := hremoving.callers.mem_iff.mp (List.mem_range.mpr hcaller)
    rwa [hquiet.code, hnil hquiet, List.append_nil, List.filterMap_nil, List.append_nil] at hmem
  · refine (hcallbacks.last callback hcallback).resolve_left fun hsome => ?_
    obtain ⟨j, hj, -⟩ := hsettling.notified (Option.isSome_of_eq_some hsome)
      ((writesSettled_iff _).mpr ⟨hnil hquiet, hnone hquiet⟩)
    rw [hquiet.code] at hj
    cases hj
  · intro reply c' hnext hran
    obtain ⟨r, i, k, -, -, rfl⟩ | ⟨_, hmv, -⟩ | ⟨_, hmv, -⟩ := Machine.next?_cases hnext
    · obtain ⟨hremovals, hnewest⟩ := (writesSettled_iff _).mp (callbacksRun_exec r hran)
      refine ⟨hremovals, fun secret => ?_⟩
      obtain ⟨hwaiting, hwriting⟩ := Option.or_eq_none_iff.mp (hnewest secret)
      exact ⟨hwriting, hwaiting⟩
    · cases hmv
    · cases hmv

/-- No key is known anywhere. -/
def nothingSaved : SecretStore := start (fun _ => ⟨[], false, false⟩) (fun _ => []) []

theorem starts_nothingSaved : Starts nothingSaved := ⟨_, _, _, rfl⟩

/-- A save replaced while the keyring takes it. -/
def savedTwice : List (Move Instr Reply) :=
  [.enter (.save .openAiApiKey "a".toList true), .run ⟨true, none⟩,
    .enter (.save .openAiApiKey "b".toList true), .run ⟨true, none⟩,
    .enter (.perform .openAiApiKey true), .run ⟨true, none⟩,
    .wake (.answered ⟨0, .openAiApiKey, .write "a".toList, .write⟩ ⟨true, [], []⟩), .run ⟨true, none⟩,
    .run ⟨true, none⟩, .run ⟨true, none⟩, .enter (.perform .openAiApiKey true), .run ⟨true, none⟩,
    .wake (.answered ⟨1, .openAiApiKey, .write "b".toList, .write⟩ ⟨true, [], []⟩), .run ⟨true, none⟩,
    .run ⟨true, none⟩, .run ⟨true, none⟩, .run ⟨true, none⟩]

theorem newest_answered_savedTwice :
    ∃ c, c.state.told .openAiApiKey = [2] ∧ c.state.replaced .openAiApiKey = [1] ∧ c.code = [] ∧ NewestAnswered c := by
  have hrun : ((machine.play ⟨nothingSaved, []⟩ savedTwice).map fun c =>
      (c.state.told .openAiApiKey, c.state.replaced .openAiApiKey, c.code)) = some ([2], [1], []) := by decide
  obtain ⟨c, hc, hseen⟩ := Option.map_eq_some_iff.mp hrun
  simp only [Prod.mk.injEq] at hseen
  have hok : Machine.PlaysOk machine InTurn ⟨nothingSaved, []⟩ savedTwice := by decide
  have hreach : machine.Reachable InTurn Starts c := (Machine.Reachable.start starts_nothingSaved).play hok hc
  exact ⟨c, hseen.1, hseen.2.1, hseen.2.2, newest_answered hreach⟩

/-- The keyring deletes an entry for a removal. -/
def deleted (id : ℕ) (secret : Secret) (rest : List Secret) : List (Move Instr Reply) :=
  [.enter (.perform secret true), .run ⟨true, none⟩,
    .wake (.answered ⟨id, secret, .delete, .removal rest⟩ ⟨true, [], []⟩), .run ⟨true, none⟩, .run ⟨true, none⟩]

/-- A save is refused during a removal, whose caller saves again and starts another. -/
def savedFromRemoval : List (Move Instr Reply) :=
  .enter .deleteKeyringSecrets :: List.replicate 7 (.run ⟨true, none⟩) ++
    deleted 0 .openAiApiKey [.cliproxyApiKey, .speechEndpointKey, .refinementEndpointKey] ++
    deleted 1 .cliproxyApiKey [.speechEndpointKey, .refinementEndpointKey] ++
    deleted 2 .speechEndpointKey [.refinementEndpointKey] ++
    [.enter (.save .openAiApiKey "a".toList true), .run ⟨true, none⟩, .run ⟨true, none⟩] ++
    deleted 3 .refinementEndpointKey [] ++
    [.enter (.save .openAiApiKey "b".toList true), .run ⟨true, none⟩, .enter .deleteKeyringSecrets] ++
    List.replicate 10 (.run ⟨true, none⟩) ++ [.wake .posted, .run ⟨true, none⟩]

/-- **The later request is reported first.** -/
theorem reported_out_of_turn :
    ∃ c, machine.Reachable (fun _ _ => True) Starts c ∧ c.state.told .openAiApiKey = [2, 1] ∧ ¬NewestAnswered c := by
  have hrun : ((machine.play ⟨nothingSaved, []⟩ savedFromRemoval).map fun c => c.state.told .openAiApiKey)
      = some [2, 1] := by decide
  obtain ⟨c, hc, htold⟩ := Option.map_eq_some_iff.mp hrun
  refine ⟨c, Machine.reachable_of_play starts_nothingSaved hc, htold, fun h => ?_⟩
  have horder := h.inOrder .openAiApiKey
  rw [htold] at horder
  exact absurd horder (by decide)

end Speecher.SecretStore
