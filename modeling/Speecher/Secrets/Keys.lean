import Speecher.Secrets.SecretStore

/-!
# Where a key may be found

A key can be read from the store's memory, from the copy the settings file keeps, unless a deletion marker
hides it, and from the keyring, as a write that was refused may still take effect there. `Keys` are these places
of one secret. `Kept` is what keeps a cleared key from coming back: whatever a reader may find was asked for after
every clear, in memory for the clears asked for so far and on disk for those the file was saved after.

A clear whose value storage already holds is not written. That is safe where the keyring holds no value and is
about to take none (`Kept.begin`).
-/

namespace Speecher.SecretStore

/-! ## Values asked for after the clears -/

/-- The value is empty, or was asked for after each of the clears among the first `n` requests. -/
def AfterClears (asked : List Text) (n : ℕ) (value : Text) : Prop :=
  value = [] ∨ ∀ i < n, asked[i]? = some [] → ∃ j, i < j ∧ asked[j]? = some value

/-- One of the first `n` requests was a clear. -/
def Cleared (asked : List Text) (n : ℕ) : Prop := ∃ i < n, asked[i]? = some []

section AfterClears

variable {asked : List Text} {n m : ℕ} {value : Text}

theorem AfterClears.of_not_cleared (h : ¬Cleared asked n) (value : Text) : AfterClears asked n value :=
  .inr fun i hi hclear => (h ⟨i, hi, hclear⟩).elim

theorem AfterClears.mono (h : AfterClears asked n value) (hle : m ≤ n) : AfterClears asked m value :=
  h.imp_right fun h i hi => h i (Nat.lt_of_lt_of_le hi hle)

theorem AfterClears.append (h : AfterClears asked n value) (hle : n ≤ asked.length) (last : Text) :
    AfterClears (asked ++ [last]) n value := by
  refine h.imp_right fun h i hi hclear => ?_
  rw [List.getElem?_append_left (Nat.lt_of_lt_of_le hi hle)] at hclear
  obtain ⟨j, hij, hj⟩ := h i hi hclear
  exact ⟨j, hij, by rw [List.getElem?_append_left (List.getElem?_eq_some_iff.mp hj).1]; exact hj⟩

/-- A save is no clear. -/
theorem AfterClears.save (h : AfterClears asked asked.length value) {last : Text} (hlast : last ≠ []) :
    AfterClears (asked ++ [last]) (asked ++ [last]).length value := by
  refine (h.append (Nat.le_refl _) last).imp_right fun h i hi hclear => ?_
  rw [List.length_append, List.length_singleton] at hi
  rcases Nat.lt_succ_iff_lt_or_eq.mp hi with hlt | rfl
  · exact h i hlt hclear
  · rw [List.getElem?_concat_length] at hclear
    exact (hlast (Option.some.inj hclear)).elim

/-- The value asked for last was asked for after every clear. -/
theorem AfterClears.last (h : asked.getLast? = some value) : AfterClears asked asked.length value := by
  by_cases hnil : value = []
  · exact .inl hnil
  · refine .inr fun i hi hclear => ⟨asked.length - 1, ?_, by rw [← List.getLast?_eq_getElem?]; exact h⟩
    rcases Nat.lt_or_ge i (asked.length - 1) with hlt | hge
    · exact hlt
    · have hlast : i = asked.length - 1 := by omega
      rw [hlast, ← List.getLast?_eq_getElem?, h] at hclear
      exact (hnil (Option.some.inj hclear)).elim

theorem not_cleared_save (h : ¬Cleared asked asked.length) {last : Text} (hlast : last ≠ []) :
    ¬Cleared (asked ++ [last]) (asked ++ [last]).length := by
  rintro ⟨i, hi, hclear⟩
  rw [List.length_append, List.length_singleton] at hi
  rcases Nat.lt_succ_iff_lt_or_eq.mp hi with hlt | rfl
  · rw [List.getElem?_append_left hlt] at hclear
    exact h ⟨i, hlt, hclear⟩
  · rw [List.getElem?_concat_length] at hclear
    exact hlast (Option.some.inj hclear)

end AfterClears

/-! ## The keyring -/

/-- The value a request leaves in the keyring. -/
def KeyringRequest.value : KeyringRequest → Text
  | .write value => value
  | .read | .delete => []

/-- The entry holds the value, or a write of it is still to be performed. -/
def Ring.MayHold (ring : Ring) (value : Text) : Prop := value = ring.value ∨ ∃ id, (id, .write value) ∈ ring.pending

/-- The entry after a deletion may hold nothing. -/
theorem Ring.mayHold_perform {ring : Ring} {effective : Bool} {value : Text}
    (h : (ring.perform effective).MayHold value) : ring.MayHold value ∨ value = [] := by
  have hpending : ∀ {p : ℕ × KeyringRequest} {pending : List (ℕ × KeyringRequest)}, ring.pending = p :: pending →
      (∃ id, (id, .write value) ∈ pending) → ring.MayHold value := by
    rintro p pending hring ⟨id, hid⟩
    exact .inr ⟨id, hring ▸ List.mem_cons_of_mem _ hid⟩
  unfold Ring.perform at h
  split at h
  · exact .inl h
  · rename_i hring
    exact .inl (h.elim .inl (hpending hring))
  · rename_i hring
    split_ifs at h
    · rcases h with rfl | h
      · exact .inl (.inr ⟨_, hring ▸ List.mem_cons_self⟩)
      · exact .inl (hpending hring h)
    · exact .inl (h.elim .inl (hpending hring))
  · rename_i hring
    split_ifs at h
    · rcases h with rfl | h
      · exact .inr rfl
      · exact .inl (hpending hring h)
    · exact .inl (h.elim .inl (hpending hring))

theorem Ring.pending_perform (ring : Ring) {effective : Bool} {p : ℕ × KeyringRequest}
    (h : p ∈ (ring.perform effective).pending) : p ∈ ring.pending := by
  unfold Ring.perform at h
  split at h
  · exact h
  all_goals
    rename_i hring
    rw [hring]
    first
    | exact List.mem_cons_of_mem _ h
    | split_ifs at h <;> exact List.mem_cons_of_mem _ h

/-- Only what was started takes effect. -/
theorem Ring.took_perform (ring : Ring) {effective : Bool} {id : ℕ} (h : id ∈ (ring.perform effective).took) :
    id ∈ ring.took ∨ ∃ request, (id, request) ∈ ring.pending := by
  unfold Ring.perform at h
  split at h
  · exact .inl h
  · exact .inl h
  all_goals
    rename_i hring
    rw [hring]
    split_ifs at h
    · rcases List.mem_cons.mp h with rfl | h
      · exact .inr ⟨_, List.mem_cons_self⟩
      · exact .inl h
    · exact .inl h

/-- Request `id` is the last that may change the entry: it is still to be performed, or was, and then the entry
is as it left it if it took effect. -/
def Ring.Follows (ring : Ring) (id : ℕ) (request : KeyringRequest) : Prop :=
  (∃ earlier later, ring.pending = earlier ++ (id, request) :: later ∧ (∀ p ∈ later, p.2 = .read) ∧
    (∀ p ∈ earlier, p.1 ≠ id) ∧ id ∉ ring.took) ∨
  (∀ p ∈ ring.pending, p.2 = .read) ∧ (id ∈ ring.took → ring.value = request.value)

/-- A request just started is the last. -/
theorem Ring.follows_append {ring : Ring} {id : ℕ} (hpending : ∀ p ∈ ring.pending, p.1 ≠ id) (htook : id ∉ ring.took)
    (request : KeyringRequest) : Ring.Follows { ring with pending := ring.pending ++ [(id, request)] } id request :=
  .inl ⟨ring.pending, [], rfl, fun _ h => (nomatch h), hpending, htook⟩

/-- It stays the last while only reads are started. -/
theorem Ring.Follows.read {ring : Ring} {id other : ℕ} {request : KeyringRequest} (h : ring.Follows id request) :
    Ring.Follows { ring with pending := ring.pending ++ [(other, .read)] } id request := by
  rcases h with ⟨earlier, later, hpending, hlater, hearlier, htook⟩ | ⟨hreads, hvalue⟩
  · refine .inl ⟨earlier, later ++ [(other, .read)], by simp [hpending], fun p hp => ?_, hearlier, htook⟩
    rcases List.mem_append.mp hp with hp | hp
    · exact hlater p hp
    · rw [List.mem_singleton.mp hp]
  · refine .inr ⟨fun p hp => ?_, hvalue⟩
    rcases List.mem_append.mp hp with hp | hp
    · exact hreads p hp
    · rw [List.mem_singleton.mp hp]

theorem Ring.Follows.perform {ring : Ring} {id : ℕ} {request : KeyringRequest} (h : ring.Follows id request)
    (hrequest : request ≠ .read) (effective : Bool) : (ring.perform effective).Follows id request := by
  rcases h with ⟨earlier, later, hpending, hlater, hearlier, htook⟩ | ⟨hreads, hvalue⟩
  · cases earlier with
    | nil =>
      right
      unfold Ring.perform
      rw [List.nil_append] at hpending
      cases request with
      | read => exact (hrequest rfl).elim
      | write value =>
        simp only [hpending]
        split_ifs
        · exact ⟨hlater, fun _ => rfl⟩
        · exact ⟨hlater, fun hid => (htook hid).elim⟩
      | delete =>
        simp only [hpending]
        split_ifs
        · exact ⟨hlater, fun _ => rfl⟩
        · exact ⟨hlater, fun hid => (htook hid).elim⟩
    | cons first earlier =>
      left
      obtain ⟨other, performed⟩ := first
      have hother : other ≠ id := hearlier _ List.mem_cons_self
      have hrest : ∀ p ∈ earlier, p.1 ≠ id := fun p hp => hearlier p (List.mem_cons_of_mem _ hp)
      have htook' : id ∉ other :: ring.took := by simp [hother.symm, htook]
      rw [List.cons_append] at hpending
      unfold Ring.perform
      cases performed with
      | read =>
        simp only [hpending]
        exact ⟨earlier, later, rfl, hlater, hrest, htook⟩
      | write value =>
        simp only [hpending]
        split_ifs
        · exact ⟨earlier, later, rfl, hlater, hrest, htook'⟩
        · exact ⟨earlier, later, rfl, hlater, hrest, htook⟩
      | delete =>
        simp only [hpending]
        split_ifs
        · exact ⟨earlier, later, rfl, hlater, hrest, htook'⟩
        · exact ⟨earlier, later, rfl, hlater, hrest, htook⟩
  · right
    cases hpending : ring.pending with
    | nil =>
      unfold Ring.perform
      simp only [hpending]
      exact ⟨fun p hp => (nomatch hp), hvalue⟩
    | cons first pending =>
      obtain ⟨other, performed⟩ := first
      have hread : performed = .read := hreads (other, performed) (hpending ▸ List.mem_cons_self)
      subst hread
      unfold Ring.perform
      simp only [hpending]
      exact ⟨fun p hp => hreads p (hpending ▸ List.mem_cons_of_mem _ hp), hvalue⟩

/-- Once it is told to have taken effect, the entry can hold nothing but its value. -/
theorem Ring.Follows.mayHold {ring : Ring} {id : ℕ} {request : KeyringRequest} (h : ring.Follows id request)
    (hid : id ∈ ring.took) {value : Text} (hvalue : ring.MayHold value) : value = request.value := by
  rcases h with ⟨_, _, _, _, _, htook⟩ | ⟨hreads, heq⟩
  · exact (htook hid).elim
  · rcases hvalue with rfl | ⟨other, hother⟩
    · exact heq hid
    · cases hreads _ hother

/-! ## The places of one secret -/

/-- Where a secret's key may be found, and what is under way that moves it. -/
structure Keys where
  stored : Option Text
  phase : Phase
  writing : Option Request
  waiting : Option Request
  /-- What the settings file tells readers, in memory and as it was last saved. -/
  file : FileSays
  disk : FileSays
  ring : Ring
  /-- The values asked for, and how many were when the file was last saved. -/
  asked : List Text
  askedAtSave : ℕ
  /-- The keyring requests not answered, and the answers posted to a write. -/
  jobs : List Job
  posted : List (Option KeyringAnswer)
  /-- How many keyring requests were started, of any secret. -/
  started : ℕ
  /-- No save may be written. -/
  refused : Bool

/-- The keyring request that writes a request. -/
def Request.job (request : Request) : KeyringRequest :=
  if request.value.isEmpty then .delete else .write request.value

/-- A reader of the settings file finds only values that satisfy `allowed`. -/
def Safe (allowed : Text → Prop) (file : FileSays) (ring : Ring) : Prop :=
  file.hidden = false → (file.copy ≠ [] → allowed file.copy) ∧
    (file.copy = [] → file.inKeyring = true → ∀ value, ring.MayHold value → allowed value)

theorem Safe.imp {allowed allowed' : Text → Prop} {file : FileSays} {ring : Ring} (h : Safe allowed file ring)
    (himp : ∀ value, allowed value → allowed' value) : Safe allowed' file ring :=
  fun hidden => ⟨fun hcopy => himp _ ((h hidden).1 hcopy),
    fun hcopy hring value hvalue => himp _ ((h hidden).2 hcopy hring value hvalue)⟩

theorem Safe.ring {allowed : Text → Prop} {file : FileSays} {ring ring' : Ring} (h : Safe allowed file ring)
    (hring : ∀ value, ring'.MayHold value → ring.MayHold value ∨ allowed value) : Safe allowed file ring' :=
  fun hidden => ⟨(h hidden).1, fun hcopy hkeyring value hvalue =>
    (hring value hvalue).elim ((h hidden).2 hcopy hkeyring value) id⟩

theorem Safe.of_hidden {allowed : Text → Prop} {file : FileSays} {ring : Ring} (h : file.hidden = true) :
    Safe allowed file ring := fun hnot => by rw [h] at hnot; cases hnot

namespace Keys

variable (k : Keys)

/-- The request asked for last, if it is under way. -/
def newest : Option Request := k.waiting.or k.writing

/-- The value was asked for after every clear. -/
def Allowed (value : Text) : Prop := AfterClears k.asked k.asked.length value

/-- **What keeps a cleared key from coming back.** -/
structure Kept (k : Keys) : Prop where
  saved : k.askedAtSave ≤ k.asked.length
  newest : ∀ request, k.newest = some request → k.asked.getLast? = some request.value
  idle : k.phase = .idle → k.writing = none
  busy : k.phase ≠ .dropped
  accepted : k.refused = false
  /-- Requests to the keyring are told apart. -/
  ids : (∀ p ∈ k.ring.pending, p.1 < k.started) ∧ ∀ id ∈ k.ring.took, id < k.started
  /-- An older request writes an old key only behind a hidden one. -/
  written : ∀ request, k.writing = some request → k.file.hidden = true ∨ k.Allowed request.value
  /-- A clear is known of. -/
  known : Cleared k.asked k.asked.length →
    k.file.hidden = true ∨ k.stored.isSome ∨ ∃ request, k.writing = some request ∧ request.value = []
  memory : ∀ value, k.stored = some value → k.file.hidden = true ∨ k.Allowed value
  /-- A reader is told where to find a key that is known. -/
  findable : ∀ value, k.stored = some value →
    value = [] ∨ k.file.hidden = true ∨ k.file.copy ≠ [] ∨ k.file.inKeyring = true
  file : Safe k.Allowed k.file k.ring
  disk : Safe (AfterClears k.asked k.askedAtSave) k.disk k.ring
  reads : ∀ job ∈ k.jobs, job.purpose = .read → k.stored.isSome ∨ k.file.inKeyring = true
  writes : ∀ job ∈ k.jobs, job.purpose = .write →
    ∃ request, k.writing = some request ∧ job.request = request.job ∧ k.ring.Follows job.id job.request
  posted : ∀ answer ∈ k.posted, ∃ request, k.writing = some request ∧ (answer = none → k.stored.isSome) ∧
    ∀ given, answer = some given → given.ok = true ∧ request.value = [] ∧ k.file.inKeyring = false

variable {k} {request : Request}

/-- What is asked for and not saved stays readable from the disk. -/
theorem Kept.disk_append (h : k.Kept) (value : Text) :
    Safe (AfterClears (k.asked ++ [value]) k.askedAtSave) k.disk k.ring :=
  h.disk.imp fun _ hallowed => hallowed.append h.saved value

theorem Kept.saved_append (h : k.Kept) (value : Text) : k.askedAtSave ≤ (k.asked ++ [value]).length :=
  h.saved.trans (by simp)

/-- **A request waits its turn** behind one being written; a clear hides the key. -/
theorem Kept.wait (h : k.Kept) (request : Request) {file : FileSays}
    (hfile : file = if request.value = [] then k.file.withKeyHidden else k.file) :
    Kept { k with asked := k.asked ++ [request.value], file, waiting := some request } := by
  have hlast : (k.asked ++ [request.value]).getLast? = some request.value := by simp
  have hkeyring : file.inKeyring = k.file.inKeyring := by
    rw [hfile]
    split_ifs <;> rfl
  by_cases hclear : request.value = []
  · rw [if_pos hclear] at hfile
    have hhidden : file.hidden = true := by rw [hfile]; rfl
    exact
      { saved := h.saved_append _
        newest := by
          rintro other ⟨⟩
          exact hlast
        idle := h.idle
        busy := h.busy
        accepted := h.accepted
        ids := h.ids
        written := fun _ _ => .inl hhidden
        known := fun _ => .inl hhidden
        memory := fun _ _ => .inl hhidden
        findable := fun _ _ => .inr (.inl hhidden)
        file := .of_hidden hhidden
        disk := h.disk_append _
        reads := fun job hjob hpurpose => hkeyring ▸ h.reads job hjob hpurpose
        writes := h.writes
        posted := fun answer hanswer => hkeyring ▸ h.posted answer hanswer }
  · rw [if_neg hclear] at hfile
    subst hfile
    have hallowed : ∀ value, k.Allowed value → AfterClears (k.asked ++ [request.value])
        (k.asked ++ [request.value]).length value := fun _ hvalue => hvalue.save hclear
    exact
      { saved := h.saved_append _
        newest := by
          rintro other ⟨⟩
          exact hlast
        idle := h.idle
        busy := h.busy
        accepted := h.accepted
        ids := h.ids
        written := fun other hother => (h.written other hother).imp_right (hallowed _)
        known := fun hcleared => h.known (by_contra fun hnot => not_cleared_save hnot hclear hcleared)
        memory := fun value hvalue => (h.memory value hvalue).imp_right (hallowed _)
        findable := h.findable
        file := h.file.imp hallowed
        disk := h.disk_append _
        reads := h.reads
        writes := h.writes
        posted := h.posted }

/-- Nothing is answered to an idle secret. -/
theorem Kept.none_of_idle (h : k.Kept) (hphase : k.phase = .idle) :
    (∀ job ∈ k.jobs, job.purpose ≠ .write) ∧ k.posted = [] := by
  have hnone := h.idle hphase
  refine ⟨fun job hjob hpurpose => ?_, List.eq_nil_iff_forall_not_mem.mpr fun answer hanswer => ?_⟩
  · obtain ⟨request, hwriting, -⟩ := h.writes job hjob hpurpose
    rw [hnone] at hwriting
    cases hwriting
  · obtain ⟨request, hwriting, -⟩ := h.posted answer hanswer
    rw [hnone] at hwriting
    cases hwriting

/-- **A request is written at once.** A clear hides a key a reader could find, or there is none: not in memory,
not in the settings file, and not in the keyring where the file sends readers there. -/
theorem Kept.begin (h : k.Kept) (hphase : k.phase = .idle) (request : Request) {file : FileSays}
    (hsave : request.value ≠ [] → file = k.file)
    (hclear : request.value = [] → file = k.file.withKeyHidden ∨
      file = k.file ∧ (k.file.hidden = true ∨ k.file.copy = [] ∧ (k.stored = none ∨ k.stored = some []) ∧
        (k.file.inKeyring = true → ∀ value, k.ring.MayHold value → value = []))) :
    Kept { k with
      asked := k.asked ++ [request.value], file, phase := .writing, writing := some request, waiting := none } := by
  obtain ⟨hjobs, hposted⟩ := h.none_of_idle hphase
  have hlast : (k.asked ++ [request.value]).getLast? = some request.value := by simp
  have hkeyring : file.inKeyring = k.file.inKeyring := by
    by_cases hvalue : request.value = []
    · rcases hclear hvalue with rfl | ⟨rfl, -⟩ <;> rfl
    · rw [hsave hvalue]
  have hnothing : file.hidden = true ∨ request.value ≠ [] ∨ file = k.file ∧ file.copy = [] ∧
      (k.stored = none ∨ k.stored = some []) ∧
      (file.inKeyring = true → ∀ value, k.ring.MayHold value → value = []) := by
    by_cases hvalue : request.value = []
    · rcases hclear hvalue with rfl | ⟨rfl, hhidden | hnone⟩
      · exact .inl rfl
      · exact .inl hhidden
      · exact .inr (.inr ⟨rfl, hnone⟩)
    · exact .inr (.inl hvalue)
  have hallowed : request.value ≠ [] → ∀ value, k.Allowed value → AfterClears (k.asked ++ [request.value])
      (k.asked ++ [request.value]).length value := fun hvalue _ hold => hold.save hvalue
  exact
    { saved := h.saved_append _
      newest := by
        rintro other ⟨⟩
        exact hlast
      idle := nofun
      busy := nofun
      accepted := h.accepted
      ids := h.ids
      written := by
        rintro other ⟨⟩
        exact .inr (.last hlast)
      known := by
        intro hcleared
        by_cases hvalue : request.value = []
        · exact .inr (.inr ⟨request, rfl, hvalue⟩)
        · rw [hsave hvalue]
          rcases h.known (by_contra fun hnot => not_cleared_save hnot hvalue hcleared) with hhidden | hstored | hwriting
          · exact .inl hhidden
          · exact .inr (.inl hstored)
          · rw [h.idle hphase] at hwriting
            obtain ⟨_, ⟨⟩, -⟩ := hwriting
      memory := by
        intro value hstored
        rcases hnothing with hhidden | hvalue | ⟨-, -, hnone | hnone, -⟩
        · exact .inl hhidden
        · exact (hsave hvalue ▸ h.memory value hstored).imp_right (hallowed hvalue _)
        · rw [hnone] at hstored
          cases hstored
        · rw [hnone] at hstored
          cases hstored
          exact .inr (.inl rfl)
      findable := by
        intro value hstored
        rcases hnothing with hhidden | hvalue | ⟨rfl, -⟩
        · exact .inr (.inl hhidden)
        · exact hsave hvalue ▸ h.findable value hstored
        · exact h.findable value hstored
      file := by
        rcases hnothing with hhidden | hvalue | ⟨-, hcopy, -, hring⟩
        · exact .of_hidden hhidden
        · exact hsave hvalue ▸ h.file.imp (hallowed hvalue)
        · exact fun _ => ⟨fun hne => (hne hcopy).elim, fun _ hkey value hvalue => .inl (hring hkey value hvalue)⟩
      disk := h.disk_append _
      reads := fun job hjob hpurpose => hkeyring ▸ h.reads job hjob hpurpose
      writes := fun job hjob hpurpose => (hjobs job hjob hpurpose).elim
      posted := fun answer hanswer => by rw [hposted] at hanswer; cases hanswer }

/-- The request waiting its turn is written. -/
theorem Kept.next (h : k.Kept) (hphase : k.phase = .idle) (hwaiting : k.waiting = some request) :
    Kept { k with phase := .writing, writing := some request, waiting := none } := by
  obtain ⟨hjobs, hposted⟩ := h.none_of_idle hphase
  have hlast := h.newest request (by rw [Keys.newest, hwaiting]; rfl)
  exact
    { saved := h.saved
      newest := by
        rintro other ⟨⟩
        exact hlast
      idle := nofun
      busy := nofun
      accepted := h.accepted
      ids := h.ids
      written := by
        rintro other ⟨⟩
        exact .inr (.last hlast)
      known := fun hcleared => (h.known hcleared).imp_right fun hknown => hknown.imp_right fun ⟨_, hwriting, _⟩ => by
        rw [h.idle hphase] at hwriting
        cases hwriting
      memory := h.memory
      findable := h.findable
      file := h.file
      disk := h.disk
      reads := h.reads
      writes := fun job hjob hpurpose => (hjobs job hjob hpurpose).elim
      posted := fun answer hanswer => by rw [hposted] at hanswer; cases hanswer }

/-- What becomes of a request that was being written: what memory and the settings file then say of it. -/
inductive Outcome (k : Keys) (request : Request) : Option Text → FileSays → Prop
  /-- Storage held it. -/
  | held (hstored : k.stored.isSome) : Outcome k request k.stored k.file
  /-- The keyring took it, or had nothing to delete. -/
  | taken (inKeyring : Bool) (hsaved : request.value ≠ [] → inKeyring = true)
      (hring : inKeyring = true → ∀ value, k.ring.MayHold value → value = request.value) :
      Outcome k request (some request.value) ⟨[], false, inKeyring⟩
  /-- A refused deletion hides the key. -/
  | hidden (hclear : request.value = []) : Outcome k request (some []) k.file.withKeyHidden
  | refused (hsave : request.value ≠ []) : Outcome k request k.stored k.file
  /-- The settings file keeps a refused save. -/
  | fallenBack (hsave : request.value ≠ []) : Outcome k request (some request.value) ⟨request.value, false, k.file.inKeyring⟩

/-- **A request was written.** One waiting behind a hidden key keeps it hidden. -/
theorem Kept.finish (h : k.Kept) (hwriting : k.writing = some request) (hjobs : ∀ job ∈ k.jobs, job.purpose ≠ .write)
    (hposted : k.posted = []) {stored : Option Text} {said file : FileSays} (houtcome : k.Outcome request stored said)
    (hfile : file = if k.waiting.isSome && k.file.hidden then said.withKeyHidden else said) :
    Kept { k with phase := .idle, writing := none, stored, file } := by
  -- Behind a hidden key an older request leaves it hidden; otherwise its value is one to be found.
  have hvalue : file.hidden = true ∨ file = said ∧ k.Allowed request.value := by
    cases hwaits : k.waiting with
    | none =>
      rw [hwaits] at hfile
      exact .inr ⟨hfile, .last (h.newest request (by rw [Keys.newest, hwaits, hwriting]; rfl))⟩
    | some other =>
      rw [hwaits] at hfile
      rcases h.written request hwriting with hhidden | hallowed
      · rw [hhidden] at hfile
        exact .inl (by rw [hfile]; rfl)
      · cases hhidden : k.file.hidden with
        | true =>
          rw [hhidden] at hfile
          exact .inl (by rw [hfile]; rfl)
        | false =>
          rw [hhidden] at hfile
          exact .inr ⟨hfile, hallowed⟩
  have hkeyring : file.inKeyring = said.inKeyring := by
    rw [hfile]
    split_ifs <;> rfl
  have hwasHidden : k.file.hidden = true → said.hidden = true → file.hidden = true := by
    intro _ hsaid
    rw [hfile]
    split_ifs
    · rfl
    · exact hsaid
  have hknown : Cleared k.asked k.asked.length → request.value ≠ [] → k.file.hidden = true ∨ k.stored.isSome := by
    intro hcleared hsave
    rcases h.known hcleared with hhidden | hstored | ⟨other, hother, hnil⟩
    · exact .inl hhidden
    · exact .inr hstored
    · rw [hwriting] at hother
      cases hother
      exact (hsave hnil).elim
  refine
    { saved := h.saved
      newest := fun other hother => h.newest other ?_
      idle := fun _ => rfl
      busy := nofun
      accepted := h.accepted
      ids := h.ids
      written := nofun
      known := fun hcleared => ?_
      memory := fun value hstored => ?_
      findable := fun value hstored => ?_
      file := ?_
      disk := h.disk
      reads := fun job hjob hpurpose => ?_
      writes := fun job hjob hpurpose => (hjobs job hjob hpurpose).elim
      posted := fun answer hanswer => by rw [hposted] at hanswer; cases hanswer }
  · simp only [Keys.newest, Option.or_none] at hother
    rw [Keys.newest, hother]
    rfl
  · cases houtcome with
    | held hstored => exact .inr (.inl hstored)
    | taken | hidden | fallenBack => exact .inr (.inl rfl)
    | refused hsave => exact (hknown hcleared hsave).elim (fun hh => .inl (hwasHidden hh hh)) fun hs => .inr (.inl hs)
  · cases houtcome with
    | held | refused => exact (h.memory value hstored).imp_left fun hh => hwasHidden hh hh
    | taken | fallenBack =>
      cases hstored
      exact hvalue.imp_right And.right
    | hidden =>
      cases hstored
      exact .inr (.inl rfl)
  · rcases hvalue with hhidden | ⟨rfl, -⟩
    · exact .inr (.inl hhidden)
    · cases houtcome with
      | held | refused => exact h.findable value hstored
      | taken inKeyring hsaved =>
        cases hstored
        by_cases hnil : request.value = []
        · exact .inl hnil
        · exact .inr (.inr (.inr (hsaved hnil)))
      | hidden =>
        cases hstored
        exact .inl rfl
      | fallenBack hsave => exact .inr (.inr (.inl hsave))
  · rcases hvalue with hhidden | ⟨rfl, hallowed⟩
    · exact .of_hidden hhidden
    · cases houtcome with
      | held | refused => exact h.file
      | taken inKeyring hsaved hring =>
        exact fun _ => ⟨fun hne => (hne rfl).elim, fun _ hkey value hmay => hring hkey value hmay ▸ hallowed⟩
      | hidden => exact .of_hidden rfl
      | fallenBack hsave => exact fun _ => ⟨fun _ => hallowed, fun hnil => (hsave hnil).elim⟩
  · rw [hkeyring]
    cases houtcome with
    | held hstored => exact .inl hstored
    | taken | hidden | fallenBack => exact .inl rfl
    | refused => exact h.reads job hjob hpurpose

/-- The settings file is saved. -/
theorem Kept.save (h : k.Kept) : Kept { k with disk := k.file, askedAtSave := k.asked.length } :=
  { h with
    saved := Nat.le_refl _
    disk := h.file }

/-! ## What is under way -/

theorem Kept.postHeld (h : k.Kept) (hwriting : k.writing = some request) (hstored : k.stored.isSome) :
    Kept { k with posted := k.posted ++ [none] } :=
  { h with
    posted := by
      intro answer hanswer
      rcases List.mem_append.mp hanswer with hanswer | hanswer
      · exact h.posted answer hanswer
      · rw [List.mem_singleton.mp hanswer]
        exact ⟨request, hwriting, fun _ => hstored, nofun⟩ }

theorem Kept.postNothing (h : k.Kept) (hwriting : k.writing = some request) (hclear : request.value = [])
    (hkeyring : k.file.inKeyring = false) : Kept { k with posted := k.posted ++ [some ⟨true, [], []⟩] } :=
  { h with
    posted := by
      intro answer hanswer
      rcases List.mem_append.mp hanswer with hanswer | hanswer
      · exact h.posted answer hanswer
      · rw [List.mem_singleton.mp hanswer]
        refine ⟨request, hwriting, nofun, ?_⟩
        rintro given ⟨⟩
        exact ⟨rfl, hclear, hkeyring⟩ }

/-- A request to the keyring adds what it writes to what the entry may hold. -/
theorem Ring.mayHold_append {ring : Ring} {id : ℕ} {request : KeyringRequest} {value : Text}
    (h : Ring.MayHold { ring with pending := ring.pending ++ [(id, request)] } value) :
    ring.MayHold value ∨ request = .write value := by
  rcases h with hvalue | ⟨other, hother⟩
  · exact .inl (.inl hvalue)
  · rcases List.mem_append.mp hother with hother | hother
    · exact .inl (.inr ⟨other, hother⟩)
    · cases List.mem_singleton.mp hother
      exact .inr rfl

theorem Kept.ids_append (h : k.Kept) (request : KeyringRequest) :
    (∀ p ∈ k.ring.pending ++ [(k.started, request)], p.1 < k.started + 1) ∧ ∀ id ∈ k.ring.took, id < k.started + 1 := by
  refine ⟨fun p hp => ?_, fun id hid => (h.ids.2 id hid).trans_le (Nat.le_succ _)⟩
  rcases List.mem_append.mp hp with hp | hp
  · exact (h.ids.1 p hp).trans_le (Nat.le_succ _)
  · rw [List.mem_singleton.mp hp]
    exact Nat.lt_succ_self _

/-- The keyring is asked for the newest request. -/
theorem Kept.askWrite (h : k.Kept) (hwriting : k.writing = some request) (hnewest : k.waiting = none)
    (hjobs : ∀ job ∈ k.jobs, job.purpose ≠ .write) (secret : Secret) :
    Kept { k with
      jobs := k.jobs ++ [⟨k.started, secret, request.job, .write⟩]
      ring := { k.ring with pending := k.ring.pending ++ [(k.started, request.job)] }
      started := k.started + 1 } := by
  have hallowed : k.Allowed request.value := .last (h.newest request (by rw [Keys.newest, hnewest, hwriting]; rfl))
  have hring : ∀ value, Ring.MayHold { k.ring with pending := k.ring.pending ++ [(k.started, request.job)] } value →
      k.ring.MayHold value ∨ k.Allowed value := by
    intro value hvalue
    refine (Ring.mayHold_append hvalue).imp_right fun hjob => ?_
    unfold Request.job at hjob
    split_ifs at hjob
    · cases hjob
      exact hallowed
  exact
    { h with
      ids := h.ids_append _
      file := h.file.ring hring
      disk := h.disk.ring fun value hvalue => (hring value hvalue).imp_right fun hnow => hnow.mono h.saved
      reads := by
        intro job hjob hpurpose
        rcases List.mem_append.mp hjob with hjob | hjob
        · exact h.reads job hjob hpurpose
        · cases List.mem_singleton.mp hjob
          cases hpurpose
      writes := by
        intro job hjob hpurpose
        rcases List.mem_append.mp hjob with hjob | hjob
        · exact (hjobs job hjob hpurpose).elim
        · cases List.mem_singleton.mp hjob
          exact ⟨request, hwriting, rfl, Ring.follows_append (fun p hp => Nat.ne_of_lt (h.ids.1 p hp))
            (fun hid => Nat.lt_irrefl _ (h.ids.2 _ hid)) _⟩ }

/-- The keyring is asked for what it holds. -/
theorem Kept.askRead (h : k.Kept) (hkeyring : k.file.inKeyring = true) (secret : Secret) :
    Kept { k with
      jobs := k.jobs ++ [⟨k.started, secret, .read, .read⟩]
      ring := { k.ring with pending := k.ring.pending ++ [(k.started, .read)] }
      started := k.started + 1 } := by
  have hring : ∀ {allowed : Text → Prop} (value : Text),
      Ring.MayHold { k.ring with pending := k.ring.pending ++ [(k.started, .read)] } value →
      k.ring.MayHold value ∨ allowed value :=
    fun value hvalue => .inl ((Ring.mayHold_append hvalue).resolve_right nofun)
  exact
    { h with
      ids := h.ids_append _
      file := h.file.ring hring
      disk := h.disk.ring hring
      reads := by
        intro job hjob hpurpose
        rcases List.mem_append.mp hjob with hjob | hjob
        · exact h.reads job hjob hpurpose
        · exact .inr hkeyring
      writes := by
        intro job hjob hpurpose
        rcases List.mem_append.mp hjob with hjob | hjob
        · obtain ⟨request, hwriting, hrequest, hfollows⟩ := h.writes job hjob hpurpose
          exact ⟨request, hwriting, hrequest, hfollows.read⟩
        · cases List.mem_singleton.mp hjob
          cases hpurpose }

theorem Kept.ids_perform (h : k.Kept) {effective : Bool} {id : ℕ} (hid : id ∈ (k.ring.perform effective).took) :
    id < k.started := by
  rcases k.ring.took_perform hid with hid | ⟨request, hid⟩
  · exact h.ids.2 id hid
  · exact h.ids.1 _ hid

/-- Keyring requests of other secrets are started. -/
theorem Kept.started (h : k.Kept) {started : ℕ} (hle : k.started ≤ started) : Kept { k with started } :=
  { h with ids := ⟨fun p hp => (h.ids.1 p hp).trans_le hle, fun id hid => (h.ids.2 id hid).trans_le hle⟩ }

/-- The keyring performs a request. -/
theorem Kept.perform (h : k.Kept) (effective : Bool) : Kept { k with ring := k.ring.perform effective } := by
  have hring : ∀ {asked : List Text} {n : ℕ} (value : Text), (k.ring.perform effective).MayHold value →
      k.ring.MayHold value ∨ AfterClears asked n value :=
    fun value hvalue => (Ring.mayHold_perform hvalue).imp_right .inl
  exact
    { h with
      ids := ⟨fun p hp => h.ids.1 p (k.ring.pending_perform hp), fun id hid => h.ids_perform hid⟩
      file := h.file.ring hring
      disk := h.disk.ring hring
      writes := by
        intro job hjob hpurpose
        obtain ⟨request, hwriting, hrequest, hfollows⟩ := h.writes job hjob hpurpose
        refine ⟨request, hwriting, hrequest, hfollows.perform ?_ effective⟩
        rw [hrequest, Request.job]
        split_ifs <;> simp }

/-- Answers are given. -/
theorem Kept.answered (h : k.Kept) {jobs : List Job} {posted : List (Option KeyringAnswer)}
    (hjobs : ∀ job ∈ jobs, job ∈ k.jobs) (hposted : ∀ answer ∈ posted, answer ∈ k.posted) :
    Kept { k with jobs, posted } :=
  { h with
    reads := fun job hjob => h.reads job (hjobs job hjob)
    writes := fun job hjob => h.writes job (hjobs job hjob)
    posted := fun answer hanswer => h.posted answer (hposted answer hanswer) }

/-- A read puts the settings file's copy in memory. -/
theorem Kept.cacheCopy (h : k.Kept) (hhidden : k.file.hidden = false) :
    Kept { k with stored := some k.file.copy } := by
  have hallowed : k.Allowed k.file.copy := by
    by_cases hnil : k.file.copy = []
    · exact .inl hnil
    · exact (h.file hhidden).1 hnil
  exact
    { h with
      known := fun _ => .inr (.inl rfl)
      memory := by
        rintro value ⟨⟩
        exact .inr hallowed
      findable := by
        rintro value ⟨⟩
        by_cases hnil : k.file.copy = []
        · exact .inl hnil
        · exact .inr (.inr (.inl hnil))
      reads := fun _ _ _ => .inl rfl
      posted := fun answer hanswer => by
        obtain ⟨request, hwriting, -, hgiven⟩ := h.posted answer hanswer
        exact ⟨request, hwriting, fun _ => rfl, hgiven⟩ }

/-- The keyring's answer to a read is put in memory, while nothing is known. -/
theorem Kept.cacheRead (h : k.Kept) (hread : ∃ job ∈ k.jobs, job.purpose = .read) (hhidden : k.file.hidden = false)
    (hstored : k.stored = none) (hwriting : k.writing = none) (value : Text) : Kept { k with stored := some value } := by
  have hnever : ¬Cleared k.asked k.asked.length := by
    intro hcleared
    rcases h.known hcleared with hh | hs | ⟨request, hw, -⟩
    · rw [hhidden] at hh
      cases hh
    · rw [hstored] at hs
      cases hs
    · rw [hwriting] at hw
      cases hw
  obtain ⟨job, hjob, hpurpose⟩ := hread
  exact
    { h with
      known := fun _ => .inr (.inl rfl)
      memory := fun value _ => .inr (.of_not_cleared hnever value)
      findable := by
        rintro other ⟨⟩
        rcases h.reads job hjob hpurpose with hs | hkeyring
        · rw [hstored] at hs
          cases hs
        · exact .inr (.inr (.inr hkeyring))
      reads := fun _ _ _ => .inl rfl
      posted := fun answer hanswer => by
        obtain ⟨request, hw, -⟩ := h.posted answer hanswer
        rw [hwriting] at hw
        cases hw }

/-! ## What readers find -/

/-- What a read in this process answers without the keyring. -/
def readWithoutKeyring (k : Keys) : Option Text :=
  match k.newest with
  | some request => some request.value
  | none =>
    if k.file.hidden then some []
    else match k.stored with
      | some value => some value
      | none => if k.file.copy.isEmpty && k.file.inKeyring then none else some k.file.copy

/-- **Reads in this process** return what was asked for after every clear. -/
theorem Kept.read (h : k.Kept) (found : Text) : k.Allowed (k.readWithoutKeyring.getD found) := by
  unfold readWithoutKeyring
  split
  · rename_i request hnewest
    exact .last (h.newest request hnewest)
  · rename_i hnone
    obtain ⟨-, hwriting⟩ := Option.or_eq_none_iff.mp hnone
    by_cases hhidden : k.file.hidden = true
    · rw [if_pos hhidden]
      exact .inl rfl
    · rw [if_neg hhidden]
      cases hstored : k.stored with
      | some value => exact (h.memory value hstored).resolve_left hhidden
      | none =>
        refine .of_not_cleared (fun hcleared => ?_) _
        rcases h.known hcleared with hh | hs | ⟨request, hw, -⟩
        · exact hhidden hh
        · rw [hstored] at hs
          cases hs
        · rw [hwriting] at hw
          cases hw

/-- What a new process reads from a settings file and a keyring. -/
def freshRead (file : FileSays) (ring : Text) : Text :=
  if file.hidden then [] else if file.copy.isEmpty && file.inKeyring then ring else file.copy

/-- **Reads of a new process** do, where the file is safe. -/
theorem Safe.freshRead {asked : List Text} {n : ℕ} {file : FileSays} {ring : Ring}
    (h : Safe (AfterClears asked n) file ring) : AfterClears asked n (Keys.freshRead file ring.value) := by
  unfold Keys.freshRead
  split_ifs with hhidden hring
  · exact .inl rfl
  · simp only [Bool.and_eq_true, List.isEmpty_iff] at hring
    exact (h (Bool.eq_false_iff.mpr hhidden)).2 hring.1 hring.2 _ (.inl rfl)
  · by_cases hnil : file.copy = []
    · exact .inl hnil
    · exact (h (Bool.eq_false_iff.mpr hhidden)).1 hnil

end Keys

end Speecher.SecretStore
