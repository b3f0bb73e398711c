import Speecher.Secrets.RequestLines

/-!
# Removals, and what waits for the writes

One removal is under way at a time: it has one step to take or one answer to come (`Removing.one`), and nothing
is written or waits once it passed a secret's row. Every caller of it is answered once. The callback given last
to `afterWrites` is called once the writes settled: whatever settles them leaves a look at it to be taken
(`Settling.notified`).
-/

namespace Speecher.SecretStore

/-! ## What leaves the books alone -/

variable {store : SecretStore} {secret : Secret}

theorem sameBooks_setState (store : SecretStore) (secret : Secret) (entry : SecretState) :
    SameBooks store (store.setState secret entry) := ⟨rfl, rfl, rfl, rfl, rfl, rfl, rfl⟩

theorem sameBooks_askKeyring {purpose : Purpose} (h : ∀ id request, (⟨id, secret, request, purpose⟩ : Job).removes = false)
    (request : KeyringRequest) : SameBooks store (store.askKeyring secret request purpose) := by
  refine ⟨rfl, rfl, rfl, ?_, rfl, rfl, rfl⟩
  rw [askKeyring, List.countP_append, List.countP_singleton, h]
  rfl

theorem removalJobs_askKeyring (store : SecretStore) (secret : Secret) {request : KeyringRequest} {purpose : Purpose}
    (h : ∀ id, (⟨id, secret, request, purpose⟩ : Job).removes = true) :
    (store.askKeyring secret request purpose).jobs.countP Job.removes = store.jobs.countP Job.removes + 1 := by
  rw [askKeyring, List.countP_append, List.countP_singleton, h]
  rfl

theorem sameBooks_writeNext (store : SecretStore) (secret : Secret) : SameBooks store (store.writeNext secret) := by
  unfold writeNext
  dsimp only
  split
  · exact sameBooks_setState _ _ _
  · split_ifs
    · exact ⟨rfl, rfl, rfl, rfl, rfl, rfl, rfl⟩
    · exact ⟨rfl, rfl, rfl, rfl, rfl, rfl, rfl⟩
    all_goals exact (sameBooks_setState _ _ _).trans (sameBooks_askKeyring (fun _ _ => rfl) _)

theorem sameBooks_await (store : SecretStore) (secret : Secret) (request : Request) :
    SameBooks store (store.await secret request) := by
  unfold await
  dsimp only
  split_ifs
  · exact (sameBooks_setState _ _ _).trans (sameBooks_writeNext _ _)
  · exact sameBooks_setState _ _ _

@[simp]
theorem settle_cache (store : SecretStore) (secret : Secret) (request : Request) (stored : Bool) (error : Text) :
    (store.settle secret request stored error).1.cache = store.cache := by
  unfold settle
  split <;> rfl

theorem sameBooks_settle (store : SecretStore) (secret : Secret) (request : Request) (stored : Bool) (error : Text) :
    SameBooks store (store.settle secret request stored error).1 := by
  unfold settle
  split <;> exact ⟨rfl, rfl, rfl, rfl, rfl, rfl, rfl⟩

theorem sameBooks_save (store : SecretStore) (secret : Secret) (request : Request) :
    SameBooks store (store.save secret request).1 := by
  have hnote : SameBooks store (store.note secret request) := ⟨rfl, rfl, rfl, rfl, rfl, rfl, rfl⟩
  unfold save
  dsimp only
  split
  · exact hnote.trans ⟨rfl, rfl, rfl, rfl, rfl, rfl, rfl⟩
  · split_ifs
    · exact (hnote.trans (sameLines_say _ _ _).books).trans (sameBooks_await _ _ _)
    · exact hnote.trans (sameBooks_await _ _ _)

theorem sameBooks_finishWrite (store : SecretStore) (secret : Secret) (answer : Option KeyringAnswer) (reply : Reply) :
    SameBooks store (store.finishWrite secret answer reply).1 := by
  have hidle := sameBooks_setState store secret { store.cache secret with phase := .idle, writing := none }
  unfold finishWrite
  dsimp only
  split
  · exact hidle
  · have hstored := fun request => hidle.trans (sameLines_storeRequest _ secret request answer reply).books
    split_ifs
    · exact hstored _
    · exact (hstored _).trans (sameBooks_settle _ _ _ _ _)

theorem sameBooks_dropRow (store : SecretStore) (secret : Secret) : SameBooks store (store.dropRow secret).1 := by
  unfold dropRow
  dsimp only
  split
  · exact sameBooks_setState _ _ _
  · exact (sameBooks_setState _ _ _).trans (sameBooks_settle _ _ _ _ _)

theorem sameBooks_answered {job : Job} (hjob : job ∈ store.jobs) (hremoves : job.removes = false)
    (answer : KeyringAnswer) (reply : Reply) : SameBooks store (store.answered job answer reply).1 := by
  have hcount := countP_erase_add hjob Job.removes
  rw [hremoves] at hcount
  have hjobs : SameBooks store { store with jobs := store.jobs.erase job } := ⟨rfl, rfl, rfl, hcount, rfl, rfl, rfl⟩
  unfold answered
  dsimp only
  split
  · exact hjobs.trans (sameBooks_finishWrite _ _ _ _)
  · exact hjobs.trans (sameLines_finishRead _ _ _).books
  all_goals
    rename_i hpurpose
    simp [Job.removes, hpurpose] at hremoves

/-- What the store does leaves the books alone, but for these. -/
def Instr.keepsBooks : Instr → Bool
  | .deleteKeyringSecrets | .removeNext _ | .removalDone _ | .afterWritesAsked | .notifyIfWritesSettled => false
  | .answered job _ => !job.removes
  | _ => true

theorem sameBooks_exec (reply : Reply) {i : Instr} (hi : i.keepsBooks = true) :
    SameBooks store (exec reply i store).1 := by
  have hrefl : SameBooks store store := .refl store
  cases i with
  | save secret value fallBack => exact sameBooks_save store secret _
  | saveSecrets values => exact hrefl
  | saveRows rows values =>
    cases rows with
    | nil => exact hrefl
    | cons secret rows => exact (sameLines_saveRow store secret values reply).books
  | saveValues values => cases values <;> exact hrefl
  | dropRows rows =>
    cases rows with
    | nil => exact hrefl
    | cons secret rows => exact sameBooks_dropRow store secret
  | readSecret secret start =>
    simp only [exec]
    split_ifs
    · exact (sameLines_startRead store secret).books
    · exact (sameLines_cacheFallback store secret).books
  | writeWaiting secret =>
    simp only [exec]
    split_ifs
    · exact sameBooks_writeNext store secret
    · exact hrefl
  | posted =>
    have htaken : ∀ posted, SameBooks store { store with posted } := fun posted => ⟨rfl, rfl, rfl, rfl, rfl, rfl, rfl⟩
    simp only [exec]
    split
    · exact hrefl
    · exact (htaken _).trans (sameBooks_settle _ _ _ _ _)
    · exact (htaken _).trans (sameBooks_finishWrite _ _ _ _)
  | answered job answer =>
    simp only [exec]
    split_ifs with hjob
    · exact sameBooks_answered hjob (by simpa [Instr.keepsBooks] using hi) answer reply
    · exact hrefl
  | settingsSaved =>
    simp only [exec]
    split_ifs
    · exact (sameLines_saveFile store).books
    · exact hrefl
  | settingsDeleted | perform => exact ⟨rfl, rfl, rfl, rfl, rfl, rfl, rfl⟩
  | saveFinished | callAfterWrites => exact hrefl
  | deleteKeyringSecrets | removeNext | removalDone | afterWritesAsked | notifyIfWritesSettled => cases hi

/-! ## The removal under way -/

/-- A step of a removal. -/
def Instr.removes : Instr → Bool
  | .dropRows _ | .removeNext _ => true
  | _ => false

def Instr.caller : Instr → Option ℕ
  | .removalDone caller => some caller
  | _ => none

/-- Neither a step of a removal nor its answer. -/
def Instr.apart : Instr → Bool
  | .dropRows _ | .removeNext _ | .removalDone _ => false
  | _ => true

theorem Instr.removes_of_apart {i : Instr} (h : i.apart = true) : i.removes = false := by cases i <;> first | rfl | cases h

theorem Instr.caller_of_apart {i : Instr} (h : i.apart = true) : i.caller = none := by cases i <;> first | rfl | cases h

/-- What the store's own code is, apart from a removal's. -/
def Instr.own : Instr → Bool
  | .save .. | .saveRows .. | .saveValues _ | .writeWaiting _ | .notifyIfWritesSettled | .saveFinished _
  | .callAfterWrites _ => true
  | _ => false

theorem Instr.apart_of_own {i : Instr} (h : i.own = true) : i.apart = true := by cases i <;> first | rfl | cases h

theorem own_settle (store : SecretStore) (secret : Secret) (request : Request) (stored : Bool) (error : Text) :
    ∀ j ∈ (store.settle secret request stored error).2, j.own = true := by
  unfold settle
  split <;> simp [Instr.own]

theorem own_finishWrite (store : SecretStore) (secret : Secret) (answer : Option KeyringAnswer) (reply : Reply) :
    ∀ j ∈ (store.finishWrite secret answer reply).2, j.own = true := by
  unfold finishWrite
  dsimp only
  split
  · simp [Instr.own]
  · split_ifs
    · simp [Instr.own]
    · intro j hj
      rcases List.mem_append.mp hj with hj | hj
      · exact own_settle _ _ _ _ _ j hj
      · rw [List.mem_singleton.mp hj]
        rfl

theorem own_saveRow (store : SecretStore) (secret : Secret) (values : List (Secret × Text)) (reply : Reply) :
    ∀ j ∈ (store.saveRow secret values reply).2, j.own = true := by
  unfold saveRow
  dsimp only
  split_ifs <;> simp [Instr.own]

/-- What leaves the books alone takes no step of a removal, but for its rows. -/
theorem own_exec (reply : Reply) {i : Instr} (hi : i.keepsBooks = true) (hrows : i.removes = false) :
    ∀ j ∈ (exec reply i store).2, j.own = true := by
  cases i with
  | save secret value fallBack =>
    simp only [exec, save]
    split <;> simp [Instr.own]
  | saveSecrets values => simp [exec, Instr.own]
  | saveRows rows values =>
    cases rows with
    | nil => simp [exec]
    | cons secret rows =>
      intro j hj
      rcases List.mem_append.mp hj with hj | hj
      · exact own_saveRow store secret values reply j hj
      · rw [List.mem_singleton.mp hj]
        rfl
  | saveValues values => cases values <;> simp [exec, Instr.own]
  | dropRows rows => cases hrows
  | readSecret secret start => simp [exec]
  | writeWaiting secret => simp [exec, Instr.own]
  | posted =>
    simp only [exec]
    split
    · simp
    · exact own_settle _ _ _ _ _
    · exact own_finishWrite _ _ _ _
  | answered job answer =>
    simp only [exec]
    split_ifs
    · unfold answered
      dsimp only
      split
      · exact own_finishWrite _ _ _ _
      · simp
      all_goals
        rename_i hpurpose
        simp [Instr.keepsBooks, Job.removes, hpurpose] at hi
    · simp
  | settingsSaved | settingsDeleted | perform | saveFinished | callAfterWrites => simp [exec]
  | deleteKeyringSecrets | removeNext | removalDone | afterWritesAsked | notifyIfWritesSettled => cases hi

/-- The removal under way, in a store with code still to run. -/
structure Removing (s : SecretStore) (code : List Instr) : Prop where
  one : code.countP Instr.removes + s.jobs.countP Job.removes = if s.removals.isEmpty then 0 else 1
  /-- Nothing of a secret is under way once its row passed. -/
  dropped : ∀ x, (s.cache x).newest.isSome → s.removals = [] ∨ ∃ rows, .dropRows rows ∈ code ∧ x ∈ rows
  /-- Every caller was answered, is being answered or waits for the removal. -/
  callers : (List.range s.removalCallers).Perm (s.removalsAnswered ++ s.removals ++ code.filterMap Instr.caller)

variable {s s' : SecretStore} {i : Instr} {code code' : List Instr}

/-- The invariant of the removal depends on what is asked of it alone. -/
theorem Removing.keep (h : Removing s (i :: code)) (hi : i.apart = true) (hremovals : s'.removals = s.removals)
    (hcallers : s'.removalCallers = s.removalCallers) (hanswered : s'.removalsAnswered = s.removalsAnswered)
    (hjobs : s'.jobs.countP Job.removes = s.jobs.countP Job.removes)
    (hnewest : ∀ x, (s'.cache x).newest.isSome → (s.cache x).newest.isSome ∨ s.removals = [])
    (hcode : ∀ j ∈ code', j.apart = true) : Removing s' (code' ++ code) := by
  have hremoves : code'.countP Instr.removes = 0 :=
    List.countP_eq_zero.mpr fun j hj => by rw [Instr.removes_of_apart (hcode j hj)]; exact Bool.false_ne_true
  have hnone : code'.filterMap Instr.caller = [] :=
    List.filterMap_eq_nil_iff.mpr fun j hj => Instr.caller_of_apart (hcode j hj)
  refine ⟨?_, fun x hx => ?_, ?_⟩
  · have hone := h.one
    rw [List.countP_cons_of_neg (by rw [Instr.removes_of_apart hi]; exact Bool.false_ne_true)] at hone
    rw [List.countP_append, hremoves, hjobs, hremovals, Nat.zero_add]
    exact hone
  · rw [hremovals]
    rcases hnewest x hx with hsome | hnil
    · rcases h.dropped x hsome with hnil | ⟨rows, hrows, hmem⟩
      · exact .inl hnil
      · rcases List.mem_cons.mp hrows with rfl | hrows
        · cases hi
        · exact .inr ⟨rows, List.mem_append_right _ hrows, hmem⟩
    · exact .inl hnil
  · have hperm := h.callers
    rw [List.filterMap_cons_none (Instr.caller_of_apart hi)] at hperm
    rw [List.filterMap_append, hnone, hremovals, hcallers, hanswered]
    exact hperm

theorem writeRefusal_isSome (h : s.removals ≠ []) : s.writeRefusal.isSome = true := by
  unfold writeRefusal
  split_ifs with hclosed hnil
  · rfl
  · exact (h (List.isEmpty_iff.mp hnil)).elim
  · rfl

/-- Nothing of a secret is under way once it was dropped. -/
theorem newest_dropRow (store : SecretStore) (secret : Secret) :
    ((store.dropRow secret).1.cache secret).newest = none := by
  unfold dropRow
  dsimp only
  split
  · rw [setState_cache_self]
    rfl
  · rw [settle_cache, setState_cache_self]
    rfl

/-- A request comes under way only while no removal is. -/
theorem newest_exec (hsound : ∀ x, (s.line x).Sound Request.number) (hnumbered : s.Numbered) (reply : Reply) (i : Instr)
    (x : Secret) (h : ((exec reply i s).1.cache x).newest.isSome) : (s.cache x).newest.isSome ∨ s.removals = [] := by
  by_cases hi : ∀ secret value fallBack, i ≠ .save secret value fallBack
  · left
    have hsame : SameAsked s (exec reply i s).1 := sameAsked_exec reply hi
    have hasked := hsame.asked x
    rcases moves_exec hsound hnumbered reply i x with hsame | hstep
    · exact (congrArg (fun l => l.newest.isSome) hsame).symm.trans h
    · exact hstep.newest_isSome hasked h
  · push Not at hi
    obtain ⟨secret, value, fallBack, rfl⟩ := hi
    by_cases hnil : s.removals = []
    · exact .inr hnil
    · left
      obtain ⟨refusal, hrefusal⟩ := Option.isSome_iff_exists.mp (writeRefusal_isSome hnil)
      simp only [exec, save] at h
      split at h
      · by_cases hx : x = secret
        · subst hx
          rw [post, setState_cache_self] at h
          cases h
        · rw [post, setState_cache_of_ne hx] at h
          exact h
      · rename_i hnone
        exact (Option.some_ne_none _ (hrefusal.symm.trans hnone)).elim

/-- A removal is under way while it has a step to take or an answer to come. -/
theorem Removing.removals_ne_nil (h : Removing s code) (hstep : 0 < code.countP Instr.removes + s.jobs.countP Job.removes) :
    s.removals ≠ [] := by
  intro hnil
  have hone := h.one
  rw [hnil] at hone
  simp only [List.isEmpty_nil, if_true] at hone
  omega

theorem Removing.deleteKeyringSecrets (h : Removing s (.deleteKeyringSecrets :: code)) (reply : Reply) :
    Removing (exec reply .deleteKeyringSecrets s).1 ((exec reply .deleteKeyringSecrets s).2 ++ code) := by
  have hone := h.one
  have hperm := h.callers
  rw [List.countP_cons_of_neg (by simp [Instr.removes])] at hone
  rw [List.filterMap_cons_none rfl] at hperm
  have hnew : (List.range (s.removalCallers + 1)).Perm
      (s.removalsAnswered ++ (s.removals ++ [s.removalCallers]) ++ code.filterMap Instr.caller) := by
    rw [List.range_succ]
    refine (hperm.append_right _).trans ?_
    simp only [List.append_assoc]
    exact List.Perm.append_left _ (List.Perm.append_left _ List.perm_append_comm)
  have hjoined : (s.removals ++ [s.removalCallers]).isEmpty = false := by simp
  simp only [exec]
  split_ifs with hfirst
  · rw [hfirst, if_pos rfl] at hone
    refine ⟨?_, fun x _ => .inr ⟨secretEntries, by simp, mem_secretEntries x⟩, ?_⟩
    · rw [hjoined, List.countP_append, List.countP_singleton]
      simp only [Instr.removes, if_true, Bool.false_eq_true, if_false]
      omega
    · rw [List.filterMap_append]
      exact hnew
  · refine ⟨?_, fun x hx => ?_, hnew⟩
    · rw [if_neg hfirst] at hone
      rw [hjoined]
      exact hone
    · rcases h.dropped x hx with hnil | ⟨rows, hrows, hmem⟩
      · exact (hfirst (List.isEmpty_iff.mpr hnil)).elim
      · exact .inr ⟨rows, (List.mem_cons.mp hrows).resolve_left (by simp), hmem⟩

theorem Removing.dropRows {rows : List Secret} (h : Removing s (.dropRows rows :: code)) (reply : Reply)
    (hnewest : ∀ x, ((exec reply (.dropRows rows) s).1.cache x).newest.isSome →
      (s.cache x).newest.isSome ∨ s.removals = []) :
    Removing (exec reply (.dropRows rows) s).1 ((exec reply (.dropRows rows) s).2 ++ code) := by
  have hone := h.one
  have hperm := h.callers
  rw [List.countP_cons_of_pos rfl] at hone
  rw [List.filterMap_cons_none rfl] at hperm
  have hremovals : s.removals ≠ [] := h.removals_ne_nil (by rw [List.countP_cons_of_pos rfl]; omega)
  cases rows with
  | nil =>
    simp only [exec]
    refine ⟨?_, fun x hx => ?_, ?_⟩
    · rw [List.countP_append, List.countP_singleton]
      simp only [Instr.removes, if_true]
      omega
    · rcases h.dropped x hx with hnil | ⟨rows, hrows, hmem⟩
      · exact .inl hnil
      · rcases List.mem_cons.mp hrows with hhead | hrows
        · cases hhead
          cases hmem
        · exact .inr ⟨rows, List.mem_append_right _ hrows, hmem⟩
    · rw [List.filterMap_append]
      exact hperm
  | cons secret rows =>
    have hbooks := sameBooks_dropRow s secret
    have hpushed : ∀ j ∈ (s.dropRow secret).2, j.apart = true := by
      unfold dropRow
      dsimp only
      split
      · simp
      · exact fun j hj => Instr.apart_of_own (own_settle _ _ _ _ _ j hj)
    have hremoves : (s.dropRow secret).2.countP Instr.removes = 0 :=
      List.countP_eq_zero.mpr fun j hj => by rw [Instr.removes_of_apart (hpushed j hj)]; exact Bool.false_ne_true
    have hnone : (s.dropRow secret).2.filterMap Instr.caller = [] :=
      List.filterMap_eq_nil_iff.mpr fun j hj => Instr.caller_of_apart (hpushed j hj)
    simp only [exec] at hnewest ⊢
    refine ⟨?_, fun x hx => ?_, ?_⟩
    · rw [List.countP_append, List.countP_append, hremoves, List.countP_singleton, hbooks.removalJobs, hbooks.removals]
      simp only [Instr.removes, if_true]
      omega
    · rw [hbooks.removals]
      have hx' : x ≠ secret := by
        rintro rfl
        rw [newest_dropRow] at hx
        cases hx
      rcases h.dropped x ((hnewest x hx).resolve_right hremovals) with hnil | ⟨rows', hrows, hmem⟩
      · exact .inl hnil
      · rcases List.mem_cons.mp hrows with hhead | hrows
        · cases hhead
          exact .inr ⟨rows, by simp, (List.mem_cons.mp hmem).resolve_left hx'⟩
        · exact .inr ⟨rows', List.mem_append_right _ hrows, hmem⟩
    · rw [List.filterMap_append, List.filterMap_append, hnone, hbooks.removals, hbooks.removalCallers,
        hbooks.removalsAnswered]
      exact hperm

/-- Pending rows are those below what runs. -/
theorem Removing.dropped_below (h : Removing s (i :: code)) (hi : ∀ rows, i ≠ .dropRows rows) {x : Secret}
    (hx : (s.cache x).newest.isSome) : s.removals = [] ∨ ∃ rows, .dropRows rows ∈ code ∧ x ∈ rows := by
  rcases h.dropped x hx with hnil | ⟨rows, hrows, hmem⟩
  · exact .inl hnil
  · exact .inr ⟨rows, (List.mem_cons.mp hrows).resolve_left (hi rows).symm, hmem⟩

theorem Removing.removeNext {rows : List Secret} (h : Removing s (.removeNext rows :: code)) (reply : Reply) :
    Removing (exec reply (.removeNext rows) s).1 ((exec reply (.removeNext rows) s).2 ++ code) := by
  have hone := h.one
  have hperm := h.callers
  rw [List.countP_cons_of_pos rfl] at hone
  rw [List.filterMap_cons_none rfl] at hperm
  cases rows with
  | nil =>
    have hdone : (s.removals.map Instr.removalDone).countP Instr.removes = 0 := by
      simp [List.countP_eq_zero, Instr.removes]
    have hcallers : (s.removals.map Instr.removalDone).filterMap Instr.caller = s.removals := by
      simp [List.filterMap_map, Function.comp_def, Instr.caller]
    simp only [exec, finishRemoval]
    refine ⟨?_, fun x _ => .inl rfl, ?_⟩
    · rw [List.countP_append, List.countP_append, hdone, List.countP_singleton]
      simp only [Instr.removes, Bool.false_eq_true, if_false, List.isEmpty_nil, if_true]
      split_ifs at hone <;> omega
    · rw [List.filterMap_append, List.filterMap_append, hcallers]
      rw [List.filterMap_cons_none rfl, List.filterMap_nil, List.append_nil, List.append_nil, ← List.append_assoc]
      exact hperm
  | cons secret rows =>
    have hasked : (s.askKeyring secret .delete (.removal rows)).jobs.countP Job.removes = s.jobs.countP Job.removes + 1 :=
      removalJobs_askKeyring s secret fun _ => rfl
    refine ⟨?_, fun x hx => h.dropped_below (by simp) hx, hperm⟩
    rw [exec, hasked, List.nil_append]
    refine Eq.trans ?_ hone
    omega

theorem Removing.removalDone {caller : ℕ} (h : Removing s (.removalDone caller :: code)) (reply : Reply) :
    Removing (exec reply (.removalDone caller) s).1 ((exec reply (.removalDone caller) s).2 ++ code) := by
  have hone := h.one
  have hperm := h.callers
  rw [List.countP_cons_of_neg (by simp [Instr.removes])] at hone
  have hfirst : (Instr.removalDone caller :: code).filterMap Instr.caller = caller :: code.filterMap Instr.caller := rfl
  rw [hfirst] at hperm
  refine ⟨hone, fun x hx => h.dropped_below (by simp) hx, hperm.trans ?_⟩
  simp only [exec, List.append_assoc, List.nil_append]
  refine List.Perm.append_left _ ?_
  rw [← List.singleton_append, ← List.append_assoc, ← List.append_assoc]
  exact List.Perm.append_right _ List.perm_append_comm

/-- A removal's answer takes it to the next row, or to a read. -/
theorem Removing.answered {job : Job} {answer : KeyringAnswer} (h : Removing s (.answered job answer :: code))
    (hjob : job ∈ s.jobs) (hremoves : job.removes = true) (reply : Reply) :
    Removing (s.answered job answer reply).1 ((s.answered job answer reply).2 ++ code) := by
  have hone := h.one
  have hperm := h.callers
  have hcount := countP_erase_add hjob Job.removes
  rw [hremoves, if_pos rfl] at hcount
  rw [List.countP_cons_of_neg (by simp [Instr.removes])] at hone
  rw [List.filterMap_cons_none rfl] at hperm
  have hnext : ∀ (s' : SecretStore) (rest : List Secret), SameLines { s with jobs := s.jobs.erase job } s' →
      Removing s' ([.removeNext rest] ++ code) := by
    intro s' rest hsame
    refine ⟨?_, fun x hx => ?_, ?_⟩
    · rw [hsame.books.removalJobs, hsame.books.removals, List.countP_append, List.countP_singleton]
      simp only [Instr.removes, if_true]
      omega
    · rw [hsame.books.removals]
      have hnewest := congrArg (fun l => l.newest.isSome) (hsame.line x)
      rcases h.dropped_below (by simp) (hnewest.symm.trans hx) with hnil | ⟨rows, hrows, hmem⟩
      · exact .inl hnil
      · exact .inr ⟨rows, List.mem_append_right _ hrows, hmem⟩
    · rw [hsame.books.removals, hsame.books.removalCallers, hsame.books.removalsAnswered, List.filterMap_append]
      exact hperm
  unfold SecretStore.answered
  dsimp only
  split
  · rename_i hpurpose
    simp [Job.removes, hpurpose] at hremoves
  · rename_i hpurpose
    simp [Job.removes, hpurpose] at hremoves
  · unfold removalAnswered
    split_ifs
    · exact hnext _ _ (sameLines_forgetEntry _ _)
    · exact hnext _ _ ⟨⟨rfl, rfl, rfl, rfl, rfl, rfl, rfl⟩, fun _ => rfl, fun _ => rfl, rfl⟩
    · refine ⟨?_, fun x hx => h.dropped_below (by simp) hx, hperm⟩
      rw [removalJobs_askKeyring _ _ fun _ => rfl, List.nil_append]
      exact (congrArg _ hcount).trans hone
  · unfold removalRead
    split_ifs
    · exact hnext _ _ (sameLines_markDeleted _ _)
    · exact hnext _ _ (.refl _)

/-- **The removal under way** goes on whatever the store does. -/
theorem Removing.exec (h : Removing s (i :: code)) (hsound : ∀ x, (s.line x).Sound Request.number)
    (hnumbered : s.Numbered) (reply : Reply) :
    Removing (exec reply i s).1 ((SecretStore.exec reply i s).2 ++ code) := by
  have hnewest := newest_exec hsound hnumbered reply i
  have hkeep : i.keepsBooks = true → i.removes = false → Removing (SecretStore.exec reply i s).1
      ((SecretStore.exec reply i s).2 ++ code) := by
    intro hi hrows
    have hbooks : SameBooks s (SecretStore.exec reply i s).1 := sameBooks_exec reply hi
    have hapart : i.apart = true := by
      cases i
      case dropRows => cases hrows
      all_goals first | rfl | cases hi
    exact h.keep hapart hbooks.removals hbooks.removalCallers hbooks.removalsAnswered hbooks.removalJobs hnewest
      fun j hj => Instr.apart_of_own (own_exec reply hi hrows j hj)
  cases i with
  | deleteKeyringSecrets => exact h.deleteKeyringSecrets reply
  | dropRows rows => exact h.dropRows reply hnewest
  | removeNext rows => exact h.removeNext reply
  | removalDone caller => exact h.removalDone reply
  | answered job answer =>
    by_cases hjob : job ∈ s.jobs
    · cases hremoves : job.removes with
      | false => exact hkeep (by simp [Instr.keepsBooks, hremoves]) rfl
      | true =>
        simp only [SecretStore.exec, if_pos hjob]
        exact h.answered hjob hremoves reply
    · simp only [SecretStore.exec, if_neg hjob]
      exact h.keep rfl rfl rfl rfl rfl (fun _ hx => .inl hx) (by simp)
  | afterWritesAsked => exact h.keep rfl rfl rfl rfl rfl hnewest (by simp [SecretStore.exec, Instr.apart])
  | notifyIfWritesSettled =>
    simp only [SecretStore.exec]
    split
    · split_ifs
      · exact h.keep rfl rfl rfl rfl rfl (fun _ hx => .inl hx) (by simp [Instr.apart])
      · exact h.keep rfl rfl rfl rfl rfl (fun _ hx => .inl hx) (by simp)
    · exact h.keep rfl rfl rfl rfl rfl (fun _ hx => .inl hx) (by simp)
  | save | saveSecrets | saveRows | saveValues | readSecret | writeWaiting | posted | settingsSaved | settingsDeleted
  | perform | saveFinished | callAfterWrites => exact hkeep rfl rfl

end Speecher.SecretStore
