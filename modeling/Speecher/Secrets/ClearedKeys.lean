import Speecher.Secrets.Keys
import Speecher.Secrets.NewestRequest

/-!
# A cleared key never comes back

From the moment a clear is asked for, reads in this process, and those of a new process from a settings file
saved since and the keyring, find nothing or a value asked for after it (`StaysCleared`), whatever the keyring
does with what it is asked and whether or not the settings file saves.

The store keeps this in every run without a removal in which it skips no clear over a keyring that may still hold
a value (`stays_cleared`). It takes the keyring's entry to be as it last read or wrote it: after a read that found
nothing, a save that timed out and then a clear, which storage seems to hold already, the keyring takes the saved
key after all (`key_comes_back`).
-/

namespace Speecher.SecretStore

/-- A settings file as readers of the secret take it. -/
def readAs (secret : Secret) (file : FileSays) : FileSays :=
  ⟨file.copy, file.hidden, decide (secret = .openAiApiKey) || file.inKeyring⟩

/-- The keyring's answer posted to a write of the secret. -/
def Task.answer (secret : Secret) : Task → Option (Option KeyringAnswer)
  | .finishWrite other answer => if other = secret then some answer else none
  | .settle .. => none

variable (store : SecretStore) (secret : Secret)

/-- The values asked for. -/
def values : List Text := (store.asked secret).map Request.value

/-- Where the key of one secret may be found. -/
def keys : Keys where
  stored := (store.cache secret).stored
  phase := (store.cache secret).phase
  writing := (store.cache secret).writing
  waiting := (store.cache secret).waiting
  file := store.fileSays secret
  disk := readAs secret (store.disk secret)
  ring := store.ring secret
  asked := store.values secret
  askedAtSave := store.askedAtSave secret
  jobs := store.jobs.filter fun job => decide (job.secret = secret)
  posted := store.posted.filterMap (Task.answer secret)
  started := store.started
  refused := store.writeRefusal.isSome

/-- No cleared key can come back. -/
def AllKept (s : SecretStore) : Prop := ∀ x, (s.keys x).Kept

variable {store secret} {s s' : SecretStore}

theorem AllKept.congr (h : AllKept s) (heq : ∀ x, s'.keys x = s.keys x) : AllKept s' := fun x => heq x ▸ h x

/-! ## What leaves the keys alone -/

theorem keys_setState_of_ne {x : Secret} (hx : x ≠ secret) (entry : SecretState) :
    (store.setState secret entry).keys x = store.keys x := by
  simp only [keys, setState_cache_of_ne hx]
  rfl

theorem keys_setState (entry : SecretState) :
    (store.setState secret entry).keys secret =
      { store.keys secret with
        stored := entry.stored, phase := entry.phase, writing := entry.writing, waiting := entry.waiting } := by
  simp only [keys, setState_cache_self]
  rfl

theorem keys_noteCommit (x : Secret) (refused : Bool) : (store.noteCommit secret refused).keys x = store.keys x := by
  by_cases hx : x = secret
  · subst hx
    exact keys_setState _
  · exact keys_setState_of_ne hx _

theorem keys_changedInFile (x : Secret) : (store.changedInFile secret).keys x = store.keys x := by
  by_cases hx : x = secret
  · subst hx
    exact keys_setState _
  · exact keys_setState_of_ne hx _

theorem keys_settle (store : SecretStore) (secret : Secret) (request : Request) (stored : Bool) (error : Text)
    (x : Secret) : (store.settle secret request stored error).1.keys x = store.keys x := by
  unfold settle
  split <;> rfl

theorem fileSays_eq (store : SecretStore) (secret : Secret) : store.fileSays secret = readAs secret (store.file secret) := rfl

/-- What the settings file is made to say is what readers of it find. -/
theorem keys_say (file : FileSays) :
    (store.say secret file).keys secret = { store.keys secret with file := readAs secret file } := by
  unfold say
  split_ifs with hsame
  · have htold : readAs secret file = store.fileSays secret := by
      rw [hsame, fileSays_eq]
      simp [readAs]
    rw [htold]
    rfl
  · rw [keys_changedInFile]
    simp only [keys, fileSays_eq, Function.update_self]
    rfl

theorem keys_say_of_ne {x : Secret} (hx : x ≠ secret) (file : FileSays) :
    (store.say secret file).keys x = store.keys x := by
  unfold say
  split_ifs
  · rfl
  · rw [keys_changedInFile]
    simp only [keys, fileSays_eq, Function.update_of_ne hx]
    rfl

/-! ## Saving the settings file -/

theorem AllKept.saveFile (h : AllKept s) : AllKept s.saveFile := by
  intro x
  have heq : s.saveFile.keys x =
      { s.keys x with disk := (s.keys x).file, askedAtSave := (s.keys x).asked.length } := by
    simp only [keys, values, List.length_map]
    rfl
  rw [heq]
  exact (h x).save

theorem AllKept.commit (h : AllKept s) (secret : Secret) (reply : Reply) : AllKept (s.commit secret reply).1 := by
  unfold SecretStore.commit
  split_ifs
  · exact h
  · exact h.saveFile
  · exact h.congr fun _ => rfl

theorem AllKept.noteCommit (h : AllKept s) (secret : Secret) (refused : Bool) : AllKept (s.noteCommit secret refused) :=
  h.congr fun x => keys_noteCommit x refused

/-! ## Reads -/

theorem keys_cacheFallback (store : SecretStore) (secret x : Secret) :
    (store.cacheFallback secret).keys x = store.keys x ∨
      x = secret ∧ (store.keys x).file.hidden = false ∧
        (store.cacheFallback secret).keys x = { store.keys x with stored := some (store.keys x).file.copy } := by
  unfold cacheFallback
  dsimp only
  split_ifs with hcopy
  · by_cases hx : x = secret
    · subst hx
      simp only [Bool.and_eq_true, Bool.not_eq_true'] at hcopy
      exact .inr ⟨rfl, hcopy.1.1.2, keys_setState _⟩
    · exact .inl (keys_setState_of_ne hx _)
  · exact .inl rfl

theorem AllKept.cacheFallback (h : AllKept s) (secret : Secret) : AllKept (s.cacheFallback secret) := by
  intro x
  rcases keys_cacheFallback s secret x with heq | ⟨-, hhidden, heq⟩
  · exact heq ▸ h x
  · rw [heq]
    exact (h x).cacheCopy hhidden

theorem keys_askKeyring (store : SecretStore) (secret : Secret) (request : KeyringRequest) (purpose : Purpose) :
    (store.askKeyring secret request purpose).keys secret = { store.keys secret with
      jobs := (store.keys secret).jobs ++ [⟨store.started, secret, request, purpose⟩]
      ring := { store.ring secret with pending := (store.ring secret).pending ++ [(store.started, request)] }
      started := store.started + 1 } := by
  have hjobs : (store.askKeyring secret request purpose).jobs.filter (fun job => decide (job.secret = secret)) =
      (store.keys secret).jobs ++ [⟨store.started, secret, request, purpose⟩] := by
    rw [askKeyring, List.filter_append, List.filter_cons_of_pos (by simp), List.filter_nil]
    rfl
  have hring : (store.askKeyring secret request purpose).ring secret =
      { store.ring secret with pending := (store.ring secret).pending ++ [(store.started, request)] } :=
    Function.update_self _ _ _
  rw [keys, hjobs, hring]
  rfl

theorem keys_askKeyring_of_ne {x : Secret} (hx : x ≠ secret) (request : KeyringRequest) (purpose : Purpose) :
    (store.askKeyring secret request purpose).keys x = { store.keys x with started := store.started + 1 } := by
  have hjobs : (store.askKeyring secret request purpose).jobs.filter (fun job => decide (job.secret = x)) =
      (store.keys x).jobs := by
    rw [askKeyring, List.filter_append, List.filter_cons_of_neg (by simp [hx.symm]), List.filter_nil, List.append_nil]
    rfl
  have hring : (store.askKeyring secret request purpose).ring x = store.ring x := Function.update_of_ne hx _ _
  rw [keys, hjobs, hring]
  rfl

/-- Only the keyring can tell what nothing else does. -/
theorem inKeyring_of_unread (h : (store.readWithoutKeyring secret).isNone = true) :
    (store.keys secret).file.inKeyring = true := by
  by_contra hnot
  have hring : store.mayBeInKeyring secret = false := Bool.eq_false_iff.mpr hnot
  unfold readWithoutKeyring at h
  simp only [hring, Bool.and_false, Bool.false_eq_true, if_false] at h
  split at h
  · cases h
  · split at h
    · cases h
    · split at h <;> cases h

theorem AllKept.startRead (h : AllKept s) (hunread : (s.readWithoutKeyring secret).isNone = true) :
    AllKept (s.startRead secret) := by
  unfold SecretStore.startRead
  dsimp only
  split_ifs
  · exact h
  · intro x
    by_cases hx : x = secret
    · subst hx
      rw [keys_askKeyring, keys_setState]
      exact (h x).askRead (inKeyring_of_unread hunread) x
    · rw [keys_askKeyring_of_ne hx, keys_setState_of_ne hx]
      exact (h x).started (Nat.le_succ _)

/-- The store after an answer to a keyring request: the request is no longer under way. -/
theorem keys_erase (store : SecretStore) (job : Job) (x : Secret) :
    ({ store with jobs := store.jobs.erase job } : SecretStore).keys x =
      { store.keys x with jobs := (store.jobs.erase job).filter fun other => decide (other.secret = x) } := rfl

theorem AllKept.erase (h : AllKept s) (job : Job) : AllKept { s with jobs := s.jobs.erase job } := by
  intro x
  rw [keys_erase]
  refine (h x).answered (fun other hother => ?_) fun _ hanswer => hanswer
  rw [List.mem_filter] at hother
  exact List.mem_filter.mpr ⟨List.mem_of_mem_erase hother.1, hother.2⟩

theorem AllKept.finishRead (h : AllKept s) {job : Job} (hjob : job ∈ s.jobs) (hpurpose : job.purpose = .read)
    (answer : KeyringAnswer) : AllKept (({ s with jobs := s.jobs.erase job } : SecretStore).finishRead job.secret answer) := by
  set erased : SecretStore := { s with jobs := s.jobs.erase job }
  have hread : ∀ x, (erased.setState job.secret { erased.cache job.secret with reading := false }).keys x = erased.keys x := by
    intro x
    by_cases hx : x = job.secret
    · subst hx
      exact keys_setState _
    · exact keys_setState_of_ne hx _
  have hkept : AllKept (erased.setState job.secret { erased.cache job.secret with reading := false }) :=
    (h.erase job).congr hread
  unfold SecretStore.finishRead
  dsimp only
  split_ifs with hknown hok
  · exact hkept
  · exact hkept.congr fun _ => rfl
  · intro x
    by_cases hx : x = job.secret
    · subst hx
      simp only [isSecretKnown, Bool.or_eq_true, not_or, Bool.not_eq_true, Option.isSome_eq_false_iff,
        Option.isNone_iff_eq_none, setState_cache_self] at hknown
      obtain ⟨⟨hhidden, hstored⟩, hnewest⟩ := hknown
      obtain ⟨-, hwriting⟩ := Option.or_eq_none_iff.mp hnewest
      have hmem : job ∈ (s.keys job.secret).jobs := List.mem_filter.mpr ⟨hjob, decide_eq_true rfl⟩
      have hcached := (h job.secret).cacheRead ⟨job, hmem, hpurpose⟩ hhidden hstored hwriting answer.value
      rw [keys_setState, hread, setState_cache_self, keys_erase]
      refine hcached.answered (fun other hother => ?_) fun _ hanswer => hanswer
      rw [List.mem_filter] at hother
      exact List.mem_filter.mpr ⟨List.mem_of_mem_erase hother.1, hother.2⟩
    · rw [keys_setState_of_ne hx]
      exact hkept x

/-! ## Writes -/

theorem keys_post (store : SecretStore) (secret : Secret) (answer : Option KeyringAnswer) :
    (store.post (.finishWrite secret answer)).keys secret =
      { store.keys secret with posted := (store.keys secret).posted ++ [answer] } := by
  have hposted : (store.post (.finishWrite secret answer)).posted.filterMap (Task.answer secret) =
      (store.keys secret).posted ++ [answer] := by
    rw [post, List.filterMap_append, List.filterMap_cons_some (b := answer) (by simp [Task.answer])]
    rfl
  rw [keys, hposted]
  rfl

theorem keys_post_of_none {x : Secret} {task : Task} (h : task.answer x = none) :
    (store.post task).keys x = store.keys x := by
  have hposted : (store.post task).posted.filterMap (Task.answer x) = (store.keys x).posted := by
    rw [post, List.filterMap_append, List.filterMap_cons_none h, List.filterMap_nil, List.append_nil]
    rfl
  rw [keys, hposted]
  rfl

/-- What storage holds, it holds in memory, and in no other copy of the settings file. -/
theorem holds_cases {request : Request} (h : store.holds secret request = true) :
    (store.cache secret).stored = some request.value ∧ store.deletionPending secret = false ∧
      (store.settingsFallback secret = [] ∨ store.settingsFallback secret = request.value) := by
  unfold holds at h
  split at h
  · cases h
  · rename_i hdiffers
    simp only [Bool.or_eq_true, decide_eq_true_eq, not_or, not_not, Bool.not_eq_true] at hdiffers
    refine ⟨hdiffers.1, hdiffers.2, ?_⟩
    dsimp only at h
    split_ifs at h with hcopy
    · exact .inl (List.isEmpty_iff.mp hcopy)
    · exact .inr (of_decide_eq_true (Bool.and_eq_true_iff.mp h).2)

/-- A write of the newest request is under way. -/
theorem AllKept.writeNext {request : Request} (hwaiting : (s.cache secret).waiting = some request)
    (hmigrating : request.migrating = false) (hjobs : ∀ job ∈ (s.keys secret).jobs, job.purpose ≠ .write)
    (hself : Keys.Kept { s.keys secret with phase := .writing, writing := some request, waiting := none })
    (hothers : ∀ x, x ≠ secret → (s.keys x).Kept) : AllKept (s.writeNext secret) := by
  have hrefused : s.writeRefusal.isSome = false := hself.accepted
  have hkeys : (s.setState secret
      { s.cache secret with writing := some request, waiting := none, phase := .writing }).keys secret =
      { s.keys secret with phase := .writing, writing := some request, waiting := none } := keys_setState _
  unfold SecretStore.writeNext
  simp only [hwaiting]
  set started := s.setState secret { s.cache secret with writing := some request, waiting := none, phase := .writing }
  have hkeysOthers : ∀ x, x ≠ secret → started.keys x = s.keys x := fun x hx => keys_setState_of_ne hx _
  have hnewest : (started.keys secret).writing = some request := by rw [hkeys]
  have hnot : started.writeRefusal.isSome = false := hrefused
  intro x
  by_cases hx : x = secret
  · subst hx
    rw [← hkeys] at hself
    split_ifs with hheld hnothing hclear
    · rw [keys_post]
      simp only [hnot, hmigrating, Bool.not_false, Bool.true_and, Bool.false_or] at hheld
      exact hself.postHeld (by rw [hkeys]) (Option.isSome_of_eq_some (holds_cases hheld).1)
    · rw [keys_post]
      simp only [Bool.and_eq_true, List.isEmpty_iff, Bool.not_eq_true'] at hnothing
      exact hself.postNothing hnewest hnothing.1.1 hnothing.1.2
    · rw [keys_askKeyring]
      have hask := hself.askWrite hnewest (by rw [hkeys]) (by rw [hkeys]; exact hjobs) x
      rw [Request.job, if_pos hclear] at hask
      exact hask
    · rw [keys_askKeyring]
      have hask := hself.askWrite hnewest (by rw [hkeys]) (by rw [hkeys]; exact hjobs) x
      rw [Request.job, if_neg hclear] at hask
      exact hask
  · have hother : (started.keys x).Kept := hkeysOthers x hx ▸ hothers x hx
    split_ifs
    · rw [keys_post_of_none (by simp [Task.answer, Ne.symm hx])]
      exact hother
    · rw [keys_post_of_none (by simp [Task.answer, Ne.symm hx])]
      exact hother
    all_goals
      rw [keys_askKeyring_of_ne hx]
      exact hother.started (Nat.le_succ _)

theorem keys_note (store : SecretStore) (secret : Secret) (request : Request) :
    (store.note secret request).keys secret =
      { store.keys secret with asked := (store.keys secret).asked ++ [request.value] } := by
  have hasked : (store.note secret request).values secret = (store.keys secret).asked ++ [request.value] := by
    simp [values, note, keys]
  rw [keys, hasked]
  rfl

theorem keys_note_of_ne {x : Secret} (hx : x ≠ secret) (request : Request) :
    (store.note secret request).keys x = store.keys x := by
  have hasked : (store.note secret request).values x = store.values x := by
    simp [values, note, hx]
  rw [keys, hasked]
  rfl

/-- A clear the store does not hide, as storage holds it already and readers are sent to the keyring. -/
def skipsClear (store : SecretStore) (secret : Secret) (request : Request) : Bool :=
  request.value.isEmpty && (store.cache secret).phase = .idle && store.holds secret request && store.mayBeInKeyring secret

/-- The keyring holds no value of the secret, and is about to take none. -/
def ringEmpty (store : SecretStore) (secret : Secret) : Bool :=
  (store.ring secret).value.isEmpty && (store.ring secret).pending.all fun p => p.2.value.isEmpty

theorem mayHold_of_ringEmpty (h : store.ringEmpty secret = true) {value : Text}
    (hvalue : (store.ring secret).MayHold value) : value = [] := by
  simp only [ringEmpty, Bool.and_eq_true, List.isEmpty_iff, List.all_eq_true] at h
  rcases hvalue with rfl | ⟨id, hid⟩
  · exact h.1
  · exact h.2 _ hid

theorem keys_waiting {request : Request} (store : SecretStore) (secret : Secret) :
    (store.setState secret { store.cache secret with waiting := some request }).keys secret =
      { store.keys secret with waiting := some request } := keys_setState _

/-- **A request asked for** keeps every key, if no clear is skipped over a keyring that may hold a value. -/
theorem AllKept.save (h : AllKept s) {request : Request} (hmigrating : request.migrating = false)
    (hcareful : s.skipsClear secret request = true → s.ringEmpty secret = true) : AllKept (s.save secret request).1 := by
  have hrefused : (s.note secret request).writeRefusal = none :=
    Option.not_isSome_iff_eq_none.mp (Bool.eq_false_iff.mp (h secret).accepted)
  set noted := s.note secret request
  have hnoted := keys_note s secret request
  have hnotedOthers : ∀ x, x ≠ secret → noted.keys x = s.keys x := fun x hx => keys_note_of_ne hx request
  set hides := noted.hides secret request
  -- What the settings file says once a clear hid the key.
  have hfile : (if hides then noted.hide secret else noted).keys secret = { s.keys secret with
      asked := (s.keys secret).asked ++ [request.value]
      file := if hides then (s.keys secret).file.withKeyHidden else (s.keys secret).file } := by
    split_ifs
    · rw [hide, keys_say, hnoted]
      simp only [fileSays_eq, readAs, FileSays.withKeyHidden, Bool.or_self_left]
      rfl
    · exact hnoted
  have hfileOthers : ∀ x, x ≠ secret → (if hides then noted.hide secret else noted).keys x = s.keys x := by
    intro x hx
    split_ifs
    · rw [hide, keys_say_of_ne hx, hnotedOthers x hx]
    · exact hnotedOthers x hx
  have hphase : ((if hides then noted.hide secret else noted).cache secret).phase = (s.cache secret).phase :=
    congrArg Keys.phase hfile
  unfold SecretStore.save
  dsimp only
  rw [hrefused]
  unfold await
  dsimp only
  simp only [setState_cache_self]
  set hidden := if hides then noted.hide secret else noted
  by_cases hidle : (s.cache secret).phase = .idle
  · rw [if_pos (hphase.trans hidle)]
    have hbegin : Keys.Kept { s.keys secret with
        asked := (s.keys secret).asked ++ [request.value]
        file := if hides then (s.keys secret).file.withKeyHidden else (s.keys secret).file
        phase := .writing, writing := some request, waiting := none } := by
      refine (h secret).begin hidle request (fun hsave => ?_) fun hclear => ?_
      · have hnot : hides = false := by simp [hides, SecretStore.hides, hsave]
        rw [hnot]
        rfl
      · cases hhides : hides with
        | true => exact .inl rfl
        | false =>
          right
          refine ⟨rfl, ?_⟩
          by_cases hhidden : (s.keys secret).file.hidden = true
          · exact .inl hhidden
          · right
            have hfound : ((s.settingsFallback secret).isEmpty = true ∧ s.mayBeInKeyring secret = false) ∨
                s.holds secret request = true := by
              have hcond : ((!(s.settingsFallback secret).isEmpty || s.mayBeInKeyring secret) &&
                  !s.holds secret request) = false := by
                have hall := hhides
                simp only [hides, SecretStore.hides, hclear, hmigrating, List.isEmpty_nil, Bool.not_false,
                  Bool.true_and, Bool.or_eq_false_iff] at hall
                exact hall.2
              simp only [Bool.and_eq_false_iff, Bool.or_eq_false_iff, Bool.not_eq_false'] at hcond
              exact hcond
            rcases hfound with ⟨hcopy, hring⟩ | hholds
            · have hcopy' : (s.keys secret).file.copy = [] := List.isEmpty_iff.mp hcopy
              refine ⟨hcopy', ?_, fun hkey => ?_⟩
              · cases hstored : (s.keys secret).stored with
                | none => exact .inl rfl
                | some value =>
                  right
                  rcases (h secret).findable value hstored with rfl | hh | hc | hk
                  · rfl
                  · exact (hhidden hh).elim
                  · exact (hc hcopy').elim
                  · exact (Bool.false_ne_true (hring.symm.trans hk)).elim
              · exact (Bool.false_ne_true (hring.symm.trans hkey)).elim
            · obtain ⟨hstored, -, hcopy⟩ := holds_cases hholds
              rw [hclear] at hstored hcopy
              refine ⟨hcopy.elim id id, .inr hstored, fun hkey value hvalue => ?_⟩
              have hskips : s.skipsClear secret request = true := by
                simp only [skipsClear, hclear, hidle, hholds, List.isEmpty_nil, decide_true, Bool.true_and]
                exact hkey
              exact mayHold_of_ringEmpty (hcareful hskips) hvalue
    have hwaits : ((hidden.setState secret { hidden.cache secret with waiting := some request }).cache secret).waiting =
        some request := by rw [setState_cache_self]
    refine AllKept.writeNext hwaits hmigrating ?_ ?_ fun x hx => ?_
    · rw [keys_waiting, hfile]
      exact ((h secret).none_of_idle hidle).1
    · rw [keys_waiting, hfile]
      exact hbegin
    · rw [keys_setState_of_ne hx, hfileOthers x hx]
      exact h x
  · rw [if_neg fun heq => hidle (hphase.symm.trans heq)]
    intro x
    by_cases hx : x = secret
    · subst hx
      rw [keys_waiting, hfile]
      refine (h x).wait request ?_
      have hwriting : (s.cache x).phase = .writing := by
        cases hp : (s.cache x).phase with
        | idle => exact (hidle hp).elim
        | writing => rfl
        | dropped => exact ((h x).busy hp).elim
      have hhides : hides = request.value.isEmpty := by
        have hnotedPhase : (noted.cache x).phase = .writing := hwriting
        simp [hides, SecretStore.hides, hnotedPhase, hmigrating]
      rw [hhides]
      simp only [List.isEmpty_iff]
    · rw [keys_setState_of_ne hx, hfileOthers x hx]
      exact h x

/-- Storing what became of a request keeps every key, if that does. -/
theorem AllKept.storeRequest {request : Request} {answer : Option KeyringAnswer} {reply : Reply}
    (hself : Keys.Kept { s.keys secret with
      stored := (s.keptAs secret request answer reply).stored
      file := readAs secret (s.saysAfter secret (s.keptAs secret request answer reply)) })
    (hothers : ∀ x, x ≠ secret → (s.keys x).Kept) : AllKept (s.storeRequest secret request answer reply).1 := by
  have hrefused : s.writeRefusal = none :=
    Option.not_isSome_iff_eq_none.mp (Bool.eq_false_iff.mp hself.accepted)
  unfold SecretStore.storeRequest
  rw [hrefused]
  dsimp only
  set kept := s.keptAs secret request answer reply
  set stored := (s.fail kept.lastError).setState secret { s.cache secret with stored := kept.stored }
  have hstored : stored.keys secret = { s.keys secret with stored := kept.stored } := keys_setState _
  have hsaid : AllKept (stored.say secret (s.saysAfter secret kept)) := by
    intro x
    by_cases hx : x = secret
    · subst hx
      rw [keys_say, hstored]
      exact hself
    · rw [keys_say_of_ne hx, keys_setState_of_ne hx]
      exact hothers x hx
  have hcommit := hsaid.commit secret reply
  have hnoted := fun refused => hcommit.noteCommit secret refused
  split_ifs
  · exact hnoted _
  · exact hcommit
  · exact (hnoted _).congr fun _ => rfl
  · exact hcommit.congr fun _ => rfl

/-- What a request is kept as is what becomes of it. -/
theorem outcome_keptAs {request : Request} {answer : Option KeyringAnswer} {reply : Reply}
    (hmigrating : request.migrating = false) (hheld : answer = none → (s.keys secret).stored.isSome)
    (htaken : ∀ given, answer = some given → given.ok = true →
      (∀ value, (s.ring secret).MayHold value → value = request.value) ∨
        request.value = [] ∧ (s.keys secret).file.inKeyring = false) :
    (s.keys secret).Outcome request (s.keptAs secret request answer reply).stored
      (readAs secret (s.keptAs secret request answer reply).file) := by
  have hfile : readAs secret (s.fileSays secret) = (s.keys secret).file := by
    rw [fileSays_eq]
    simp [readAs, keys, fileSays_eq]
  cases answer with
  | none =>
    simp only [keptAs, hfile]
    exact .held (hheld rfl)
  | some given =>
    simp only [keptAs, keep]
    by_cases hok : given.ok = true
    · rw [if_pos hok]
      refine .taken _ (fun hsave => ?_) fun hkey => ?_
      · simp [hsave]
      · rcases htaken given rfl hok with hring | ⟨hclear, hkeyring⟩
        · exact hring
        · have hnot : decide (secret = .openAiApiKey) = false := (Bool.or_eq_false_iff.mp hkeyring).1
          simp only [hclear, List.isEmpty_nil, hnot, Bool.not_true, Bool.or_self] at hkey
          cases hkey
    · rw [if_neg hok, if_neg (by simp [hmigrating])]
      by_cases hclear : request.value = []
      · rw [if_pos (List.isEmpty_iff.mpr hclear)]
        have hhidden : readAs secret (s.fileSays secret).withKeyHidden = (s.keys secret).file.withKeyHidden := by
          rw [← hfile]
          rfl
        simp only [hhidden]
        exact .hidden hclear
      · rw [if_neg fun hnil => hclear (List.isEmpty_iff.mp hnil)]
        split_ifs
        · simp only [hfile]
          exact .refused hclear
        · split
          · simp only [hfile]
            exact .refused hclear
          · have hfallen : readAs secret ⟨request.value, false, (s.fileSays secret).inKeyring⟩ =
                ⟨request.value, false, (s.keys secret).file.inKeyring⟩ := by
              rw [← hfile]
              rfl
            simp only [hfallen]
            exact .fallenBack hclear

/-- **A write that finishes** keeps every key. -/
theorem AllKept.finishWrite (h : AllKept s) (secret : Secret) {request : Request} (answer : Option KeyringAnswer)
    (hwriting : (s.cache secret).writing = some request) (hmigrating : request.migrating = false)
    (hjobs : ∀ job ∈ (s.keys secret).jobs, job.purpose ≠ .write) (hposted : (s.keys secret).posted = [])
    (hheld : answer = none → (s.keys secret).stored.isSome)
    (htaken : ∀ given, answer = some given → given.ok = true →
      (∀ value, (s.ring secret).MayHold value → value = request.value) ∨
        request.value = [] ∧ (s.keys secret).file.inKeyring = false) (reply : Reply) :
    AllKept (s.finishWrite secret answer reply).1 := by
  unfold SecretStore.finishWrite
  dsimp only
  rw [hwriting]
  set idle := s.setState secret { s.cache secret with phase := .idle, writing := none }
  have hidle : idle.keys secret = { s.keys secret with phase := .idle, writing := none } := keys_setState _
  have houtcome : (s.keys secret).Outcome request (idle.keptAs secret request answer reply).stored
      (readAs secret (idle.keptAs secret request answer reply).file) := by
    have hsame : idle.keptAs secret request answer reply = s.keptAs secret request answer reply := by
      have hstored : (idle.cache secret).stored = (s.cache secret).stored := congrArg Keys.stored hidle
      cases answer with
      | none =>
        simp only [keptAs, hstored]
        rfl
      | some given =>
        simp only [keptAs, keep, hstored]
        rfl
    rw [hsame]
    exact outcome_keptAs hmigrating hheld htaken
  have hstored : AllKept (idle.storeRequest secret request answer reply).1 := by
    have hothers : ∀ x, x ≠ secret → idle.keys x = s.keys x := fun x hx => keys_setState_of_ne hx _
    refine AllKept.storeRequest ?_ fun x hx => hothers x hx ▸ h x
    rw [hidle]
    refine (h secret).finish hwriting hjobs hposted houtcome ?_
    have hwaiting : (idle.cache secret).waiting = (s.keys secret).waiting := congrArg Keys.waiting hidle
    have hhidden : idle.deletionPending secret = (s.keys secret).file.hidden := rfl
    simp only [saysAfter, hwaiting, hhidden]
    split <;> rfl
  split_ifs
  · exact hstored
  · exact hstored.congr fun x => keys_settle _ _ _ _ _ x

/-! ## Whatever the store does -/

theorem answers_eq_nil {posted : List Task} (h : posted.countP (Task.finishes secret) = 0) :
    posted.filterMap (Task.answer secret) = [] := by
  refine List.filterMap_eq_nil_iff.mpr fun task htask => ?_
  have hnot := List.countP_eq_zero.mp h task htask
  cases task with
  | settle other request refusal => rfl
  | finishWrite other answer =>
    have hne : other ≠ secret := fun heq => hnot (decide_eq_true heq)
    simp [Task.answer, hne]

theorem purpose_ne_write {jobs : List Job} (h : jobs.countP (Job.writes secret) = 0) :
    ∀ job ∈ jobs.filter (fun job => decide (job.secret = secret)), job.purpose ≠ .write := by
  intro job hjob hpurpose
  obtain ⟨hmem, hsecret⟩ := List.mem_filter.mp hjob
  exact List.countP_eq_zero.mp h job hmem (decide_eq_true ⟨of_decide_eq_true hsecret, hpurpose⟩)

theorem Request.job_value (request : Request) : request.job.value = request.value := by
  unfold Request.job
  split_ifs with hnil
  · exact (List.isEmpty_iff.mp hnil).symm
  · rfl

/-- The keyring's answer to a write keeps every key. -/
theorem AllKept.answeredWrite (h : AllKept s) (hsound : ∀ x, (s.line x).Sound Request.number) (hnumbered : s.Numbered)
    {job : Job} (hjob : job ∈ s.jobs) (hpurpose : job.purpose = .write) {answer : KeyringAnswer}
    (hanswers : (s.ring job.secret).answers job answer = true) (reply : Reply) :
    AllKept (({ s with jobs := s.jobs.erase job } : SecretStore).finishWrite job.secret (some answer) reply).1 := by
  have hmem : job ∈ (s.keys job.secret).jobs := List.mem_filter.mpr ⟨hjob, decide_eq_true rfl⟩
  obtain ⟨request, hwriting, hrequest, hfollows⟩ := (h job.secret).writes job hmem hpurpose
  obtain ⟨-, -, hmigrating⟩ := hnumbered job.secret request ((hsound job.secret).working_mem request hwriting)
  have howed := owed_le_one (hsound job.secret)
  have hcount := countP_erase_add hjob (Job.writes job.secret)
  have hwrites : Job.writes job.secret job = true := decide_eq_true ⟨rfl, hpurpose⟩
  rw [if_pos hwrites] at hcount
  have hrest : (s.jobs.erase job).countP (Job.writes job.secret) = 0 ∧
      s.posted.countP (Task.finishes job.secret) = 0 := by
    constructor <;> omega
  refine (h.erase job).finishWrite job.secret (some answer) hwriting hmigrating (purpose_ne_write hrest.1)
    (answers_eq_nil hrest.2) nofun (fun given hgiven hok => .inl fun value hvalue => ?_) reply
  cases hgiven
  have htook : job.id ∈ (s.ring job.secret).took := by
    have hall := hanswers
    rw [Ring.answers, hok, hrequest, Request.job] at hall
    simp only [Bool.not_true, Bool.false_or] at hall
    split_ifs at hall
    all_goals
      simp only [Bool.and_eq_true, List.contains_eq_mem, decide_eq_true_eq] at hall
      exact hall.1
  rw [hfollows.mayHold htook hvalue, hrequest, Request.job_value]

theorem AllKept.posted (h : AllKept s) (hsound : ∀ x, (s.line x).Sound Request.number) (hnumbered : s.Numbered)
    (reply : Reply) : AllKept (exec reply .posted s).1 := by
  have htaken : ∀ task rest, s.posted = task :: rest → AllKept { s with posted := rest } := by
    intro task rest hposted x
    refine (h x).answered (fun _ hjob => hjob) fun answer hanswer => ?_
    obtain ⟨other, hother, hfinds⟩ := List.mem_filterMap.mp hanswer
    exact List.mem_filterMap.mpr ⟨other, hposted ▸ List.mem_cons_of_mem _ hother, hfinds⟩
  simp only [exec]
  split
  · exact h
  · rename_i hposted
    exact (htaken _ _ hposted).congr fun x => keys_settle _ _ _ _ _ x
  · rename_i secret answer rest hposted
    have hmem : answer ∈ (s.keys secret).posted := by
      refine List.mem_filterMap.mpr ⟨.finishWrite secret answer, hposted ▸ List.mem_cons_self, ?_⟩
      simp [Task.answer]
    obtain ⟨request, hwriting, hheld, hgiven⟩ := (h secret).posted answer hmem
    obtain ⟨-, -, hmigrating⟩ := hnumbered secret request ((hsound secret).working_mem request hwriting)
    have howed := owed_le_one (hsound secret)
    have hfinishes : Task.finishes secret (.finishWrite secret answer) = true := decide_eq_true rfl
    rw [hposted, List.countP_cons_of_pos hfinishes] at howed
    have hrest : s.jobs.countP (Job.writes secret) = 0 ∧ rest.countP (Task.finishes secret) = 0 := by
      constructor <;> omega
    exact (htaken _ _ hposted).finishWrite secret answer hwriting hmigrating (purpose_ne_write hrest.1)
      (answers_eq_nil hrest.2) hheld (fun given heq _ => .inr (hgiven given heq).2) reply

/-- What happens while no removal is asked for and the settings stay. -/
def Instr.ordinary : Instr → Bool
  | .deleteKeyringSecrets | .dropRows _ | .removeNext _ | .removalDone _ | .settingsDeleted .. => false
  | _ => true

theorem Instr.ordinary_of_own {i : Instr} (h : i.own = true) : i.ordinary = true := by cases i <;> first | rfl | cases h

/-- No clear is skipped over a keyring that may hold a value. -/
def Careful (s : SecretStore) : Instr → Bool
  | .save secret value fallBack =>
    !s.skipsClear secret (s.newRequest secret (trimmed value) fallBack) || s.ringEmpty secret
  | _ => true

/-- **Whatever the store does** keeps every key. -/
theorem AllKept.exec (h : AllKept s) (hsound : ∀ x, (s.line x).Sound Request.number) (hnumbered : s.Numbered)
    {i : Instr} (hi : i.ordinary = true) (hremoves : s.jobs.countP Job.removes = 0)
    (hanswers : ∀ job answer, i = .answered job answer → (s.ring job.secret).answers job answer = true)
    (hcareful : s.Careful i = true) (reply : Reply) : AllKept (exec reply i s).1 := by
  cases i with
  | save secret value fallBack =>
    refine h.save rfl fun hskips => ?_
    simpa [Careful, hskips] using hcareful
  | saveSecrets values => exact h
  | saveRows rows values =>
    cases rows with
    | nil => exact h
    | cons secret rows =>
      simp only [SecretStore.exec, saveRow]
      split_ifs
      · exact h
      · exact h.commit secret reply
      · exact (h.commit secret reply).noteCommit secret false
      · exact (((h.commit secret reply).noteCommit secret false).cacheFallback secret).congr fun _ => rfl
  | saveValues values => cases values <;> exact h
  | afterWritesAsked => exact h.congr fun _ => rfl
  | readSecret secret start =>
    simp only [SecretStore.exec]
    split_ifs with hstart
    · exact h.startRead (Bool.and_eq_true_iff.mp hstart).2
    · exact h.cacheFallback secret
  | writeWaiting secret =>
    simp only [SecretStore.exec]
    split_ifs with hnext
    · simp only [Bool.and_eq_true, decide_eq_true_eq] at hnext
      obtain ⟨request, hwaiting⟩ := Option.isSome_iff_exists.mp hnext.2
      have hasked := (hsound secret).newest_last request (by rw [RequestLine.newest, line, hwaiting]; rfl)
      obtain ⟨-, -, hmigrating⟩ := hnumbered secret request (List.mem_of_getLast? hasked)
      exact AllKept.writeNext hwaiting hmigrating ((h secret).none_of_idle hnext.1).1 ((h secret).next hnext.1 hwaiting)
        fun x _ => h x
    · exact h
  | notifyIfWritesSettled =>
    simp only [SecretStore.exec]
    split
    · split_ifs
      · exact h.congr fun _ => rfl
      · exact h
    · exact h
  | posted => exact h.posted hsound hnumbered reply
  | answered job answer =>
    simp only [SecretStore.exec]
    split_ifs with hjob
    · have hnot := List.countP_eq_zero.mp hremoves job hjob
      unfold answered
      dsimp only
      split
      · exact h.answeredWrite hsound hnumbered hjob ‹_› (hanswers job answer rfl) reply
      · exact h.finishRead hjob ‹_› answer
      all_goals
        rename_i hpurpose
        simp [Job.removes, hpurpose] at hnot
    · exact h
  | settingsSaved =>
    simp only [SecretStore.exec]
    split_ifs
    · exact h.saveFile
    · exact h
  | perform secret effective =>
    intro x
    by_cases hx : x = secret
    · subst hx
      have hring : (SecretStore.exec reply (.perform x effective) s).1.ring x = (s.ring x).perform effective :=
        Function.update_self _ _ _
      rw [keys, hring]
      exact (h x).perform effective
    · have hring : (SecretStore.exec reply (.perform secret effective) s).1.ring x = s.ring x :=
        Function.update_of_ne hx _ _
      rw [keys, hring]
      exact h x
  | saveFinished | callAfterWrites => exact h
  | deleteKeyringSecrets | dropRows | removeNext | removalDone | settingsDeleted => cases hi

/-! ## Every run -/

/-- No removal is asked for and the settings stay. -/
def Stays : Move Instr Reply → Prop
  | .enter i => i.ordinary = true
  | _ => True

instance (mv : Move Instr Reply) : Decidable (Stays mv) :=
  match mv with
  | .enter i => inferInstanceAs (Decidable (i.ordinary = true))
  | .run _ | .wake _ => instDecidableTrue

/-- Nor is a clear skipped over a keyring that may still hold a value. -/
def StaysCareful (c : Config SecretStore Instr) : Move Instr Reply → Prop
  | .run _ => ∀ i ∈ c.code.head?, c.state.Careful i = true
  | mv => Stays mv

instance (c : Config SecretStore Instr) (mv : Move Instr Reply) : Decidable (StaysCareful c mv) :=
  match mv with
  | .run _ => inferInstanceAs (Decidable (∀ i ∈ c.code.head?, c.state.Careful i = true))
  | .enter i => inferInstanceAs (Decidable (Stays (.enter i)))
  | .wake i => inferInstanceAs (Decidable (Stays (.wake i)))

/-- **No cleared key comes back**: to a read in this process, to another store on the same settings file, or to a
new process, from the settings file as it was last saved and what the keyring holds. -/
structure StaysCleared (s : SecretStore) : Prop where
  here : ∀ secret found, AfterClears (s.values secret) (s.values secret).length (s.read secret found)
  beside : ∀ secret, AfterClears (s.values secret) (s.values secret).length
    (freshRead secret (s.file secret) (s.ring secret).value)
  fresh : ∀ secret, AfterClears (s.values secret) (s.askedAtSave secret)
    (freshRead secret (s.disk secret) (s.ring secret).value)

variable {c : Config SecretStore Instr}

theorem AllKept.staysCleared (h : AllKept s) : StaysCleared s where
  here secret found := (h secret).read found
  beside secret := Keys.Safe.freshRead (h secret).file
  fresh secret := Keys.Safe.freshRead (h secret).disk

theorem allKept_start {s : SecretStore} (hs : Starts s) : AllKept s := by
  obtain ⟨file, ring, fileName, rfl⟩ := hs
  have hnever : ∀ {n : ℕ} (value : Text), AfterClears [] n value :=
    fun value => .of_not_cleared (fun ⟨_, _, hclear⟩ => (nomatch hclear)) value
  intro x
  exact
    { saved := Nat.le_refl _
      newest := nofun
      idle := fun _ => rfl
      busy := nofun
      accepted := rfl
      ids := ⟨nofun, nofun⟩
      written := nofun
      known := fun ⟨_, _, hclear⟩ => (nomatch hclear)
      memory := nofun
      findable := nofun
      file := fun _ => ⟨fun _ => hnever _, fun _ _ value _ => hnever value⟩
      disk := fun _ => ⟨fun _ => hnever _, fun _ _ value _ => hnever value⟩
      reads := nofun
      writes := nofun
      posted := nofun }

/-- The code of a run without removals: ordinary, and a keyring's answer runs alone. -/
structure Ordinary (c : Config SecretStore Instr) : Prop where
  ordinary : ∀ i ∈ c.code, i.ordinary = true
  answered : ∀ job answer, .answered job answer ∈ c.code →
    c.code = [.answered job answer] ∧ (c.state.ring job.secret).answers job answer = true

theorem own_of_ordinary {i : Instr} (hi : i.ordinary = true) (hremoves : s.jobs.countP Job.removes = 0) (reply : Reply) :
    ∀ j ∈ (exec reply i s).2, j.own = true := by
  cases i with
  | afterWritesAsked => simp [exec, Instr.own]
  | notifyIfWritesSettled =>
    simp only [exec]
    split
    · split_ifs <;> simp [Instr.own]
    · simp
  | answered job answer =>
    by_cases hjob : job ∈ s.jobs
    · have hnot : job.removes = false := Bool.eq_false_iff.mpr (List.countP_eq_zero.mp hremoves job hjob)
      exact own_exec reply (by simp [Instr.keepsBooks, hnot]) rfl
    · simp [exec, if_neg hjob]
  | save | saveSecrets | saveRows | saveValues | readSecret | writeWaiting | posted | settingsSaved | perform
  | saveFinished | callAfterWrites => exact own_exec reply rfl rfl
  | deleteKeyringSecrets | dropRows | removeNext | removalDone | settingsDeleted => cases hi

/-- **A cleared key never comes back** in a run that skips no clear over a keyring that may still hold a value. -/
theorem stays_cleared (hc : machine.Reachable StaysCareful Starts c) : StaysCleared c.state := by
  refine AllKept.staysCleared (And.left (b := Ordinary c) ?_)
  refine (hc.assume fun c hc => And.intro (lines_sound hc) (books_hold hc)).invariant
    (P := fun c => AllKept c.state ∧ Ordinary c) (fun s hs => ⟨allKept_start hs, nofun, nofun⟩) ?_ ?_ ?_
  · rintro reply i k s ⟨hcareful, ⟨hnumbered, hsound⟩, hremoving, -, -⟩ ⟨hkept, hordinary, hanswered⟩
    have hi := hordinary i (by simp)
    have hnil : s.removals = [] := by
      by_contra hne
      exact Bool.false_ne_true ((hkept .openAiApiKey).accepted.symm.trans (writeRefusal_isSome hne))
    have hremoves : s.jobs.countP Job.removes = 0 := by
      have hone := hremoving.one
      rw [hnil] at hone
      simp only [List.isEmpty_nil, if_true] at hone
      omega
    have hown := own_of_ordinary (s := s) hi hremoves reply
    refine ⟨hkept.exec hsound hnumbered hi hremoves ?_ (hcareful i rfl) reply, fun j hj => ?_, ?_⟩
    · rintro job answer rfl
      exact (hanswered job answer (by simp)).2
    · rcases List.mem_append.mp hj with hj | hj
      · exact Instr.ordinary_of_own (hown j hj)
      · exact hordinary j (by simp [hj])
    · intro job answer hmem
      rcases List.mem_append.mp hmem with hj | hj
      · cases hown _ hj
      · have hcode := (hanswered job answer (by simp [hj])).1
        rw [List.cons_eq_cons] at hcode
        rw [hcode.2] at hj
        cases hj
  · rintro i k s ⟨hi, -⟩ ⟨hkept, hordinary, hanswered⟩ hcontrol henters
    refine ⟨hkept, fun j hj => ?_, fun job answer hmem => ?_⟩
    · rcases List.mem_cons.mp hj with rfl | hj
      · exact hi
      · exact hordinary j hj
    · rcases List.mem_cons.mp hmem with rfl | hj
      · cases henters
      · have hcode := (hanswered job answer hj).1
        rw [show k = [.answered job answer] from hcode] at hcontrol
        cases hcontrol
  · rintro i s - ⟨hkept, -, -⟩ hwakes
    refine ⟨hkept, fun j hj => ?_, fun job answer hmem => ?_⟩
    · rw [List.mem_singleton.mp hj]
      cases i <;> first | rfl | cases hwakes
    · rw [← List.mem_singleton.mp hmem]
      refine ⟨rfl, ?_⟩
      rw [← List.mem_singleton.mp hmem] at hwakes
      exact (Bool.and_eq_true_iff.mp hwakes).2

/-- A key is saved and cleared, and the settings file saved. -/
def savedAndCleared : List (Move Instr Reply) :=
  [.enter (.save .openAiApiKey "k".toList false), .run ⟨true, none⟩,
    .enter (.perform .openAiApiKey true), .run ⟨true, none⟩,
    .wake (.answered ⟨0, .openAiApiKey, .write "k".toList, .write⟩ ⟨true, [], []⟩), .run ⟨true, none⟩,
    .run ⟨true, none⟩, .run ⟨true, none⟩, .run ⟨true, none⟩,
    .enter (.save .openAiApiKey [] false), .run ⟨true, none⟩, .enter .settingsSaved, .run ⟨true, none⟩]

theorem stays_cleared_savedAndCleared :
    ∃ c : Config SecretStore Instr, c.state.values .openAiApiKey = ["k".toList, []] ∧ c.state.askedAtSave .openAiApiKey = 2 ∧
      (c.state.ring .openAiApiKey).value = "k".toList ∧ StaysCleared c.state := by
  have hrun : ((machine.play ⟨nothingSaved, []⟩ savedAndCleared).map fun c =>
      (c.state.values .openAiApiKey, c.state.askedAtSave .openAiApiKey, (c.state.ring .openAiApiKey).value))
      = some (["k".toList, []], 2, "k".toList) := by decide
  obtain ⟨c, hc, hseen⟩ := Option.map_eq_some_iff.mp hrun
  simp only [Prod.mk.injEq] at hseen
  have hok : Machine.PlaysOk machine StaysCareful ⟨nothingSaved, []⟩ savedAndCleared := by decide
  have hreach : machine.Reachable StaysCareful Starts c := (Machine.Reachable.start starts_nothingSaved).play hok hc
  exact ⟨c, hseen.1, hseen.2.1, hseen.2.2, stays_cleared hreach⟩

/-- A key is cleared after the keyring was read empty and gave up on saving it, and takes it after all. -/
def clearedAfterTimeout : List (Move Instr Reply) :=
  [.enter (.readSecret .openAiApiKey true), .run ⟨true, none⟩, .enter (.perform .openAiApiKey true), .run ⟨true, none⟩,
    .wake (.answered ⟨0, .openAiApiKey, .read, .read⟩ ⟨true, [], []⟩), .run ⟨true, none⟩,
    .enter (.save .openAiApiKey "k".toList false), .run ⟨true, none⟩,
    .wake (.answered ⟨1, .openAiApiKey, .write "k".toList, .write⟩ ⟨false, [], "timed out".toList⟩)] ++
    List.replicate 4 (.run ⟨true, none⟩) ++
    [.enter (.save .openAiApiKey [] false), .run ⟨true, none⟩, .wake .posted] ++ List.replicate 4 (.run ⟨true, none⟩) ++
    [.enter .settingsSaved, .run ⟨true, none⟩, .enter (.perform .openAiApiKey true), .run ⟨true, none⟩]

/-- **The cleared key comes back**, to a new process reading the settings file saved since. -/
theorem key_comes_back :
    ∃ c, machine.Reachable (fun _ mv => Stays mv) Starts c ∧ c.state.values .openAiApiKey = ["k".toList, []] ∧
      ¬StaysCleared c.state := by
  have hrun : ((machine.play ⟨nothingSaved, []⟩ clearedAfterTimeout).map fun c =>
      (c.state.values .openAiApiKey, c.state.askedAtSave .openAiApiKey,
        freshRead .openAiApiKey (c.state.disk .openAiApiKey) (c.state.ring .openAiApiKey).value))
      = some (["k".toList, []], 2, "k".toList) := by decide
  obtain ⟨c, hc, hseen⟩ := Option.map_eq_some_iff.mp hrun
  simp only [Prod.mk.injEq] at hseen
  obtain ⟨hvalues, hsaved, hfound⟩ := hseen
  have hok : Machine.PlaysOk machine (fun _ mv => Stays mv) ⟨nothingSaved, []⟩ clearedAfterTimeout := by decide
  refine ⟨c, (Machine.Reachable.start starts_nothingSaved).play hok hc, hvalues, fun h => ?_⟩
  have hfresh := h.fresh .openAiApiKey
  rw [hvalues, hsaved, hfound] at hfresh
  rcases hfresh with hnil | hafter
  · cases hnil
  · obtain ⟨j, hj, hvalue⟩ := hafter 1 (by decide) rfl
    rw [List.getElem?_eq_none hj] at hvalue
    cases hvalue

end Speecher.SecretStore
