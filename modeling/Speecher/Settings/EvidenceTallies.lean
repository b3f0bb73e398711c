import Mathlib.Order.Bounds.Basic
import Mathlib.Data.List.Pairwise
import Mathlib.Data.List.Perm.Basic
import Speecher.Settings.Contradictions

/-!
# How evidence is counted

An edit, kept or waiting, is a tally of the observations of it that were accepted: how many, how sure the surest, and
where they were made, one application or every one. `Tallied` says so of a list of tallies, each pair of texts once,
and does not depend on its order; an accepted observation either counts for the tally of its pair (`Tallied.again`) or
starts one (`Tallied.first`), and that is what a step of the code does (`tallies_withEvidence`).

* `counts_iff`: in every history from the empty store, evidence is counted and promoted as it should be, and what
  contradicts a kept correction changes nothing, exactly when none was accepted that contradicts one.
-/

namespace Speecher

variable (fold : CaseFolding)

/-- An edit as it is counted, kept or waiting. -/
structure Tally where
  original : Text
  corrected : Text
  scope : Text
  count : ℤ
  confidence : ℚ

def LearnedCorrection.tally (k : LearnedCorrection) : Tally :=
  ⟨k.original, k.corrected, k.applicationId, k.evidenceCount, k.confidence⟩

def PendingEvidence.tally (item : PendingEvidence) : Tally :=
  ⟨item.original, item.corrected, item.applicationId, item.count, item.confidence⟩

def Corrections.tallies (c : Corrections) : List Tally :=
  c.learned.map LearnedCorrection.tally ++ c.pending.map PendingEvidence.tally

/-- The application an observation was made in. -/
def Observation.application (o : Observation) : Text := trimmed o.applicationId

/-- Two tallies are of one pair of texts. -/
def Tally.samePair (t t' : Tally) : Bool := sameText fold t.original t'.original && sameText fold t.corrected t'.corrected

/-- The tally an observation starts. -/
def Tally.first (o : Observation) : Tally :=
  ⟨trimmed o.evidence.original, trimmed o.evidence.corrected, o.application, 1, o.evidence.confidence⟩

/-- A tally is of an observation's pair. -/
def Tally.isOf (t : Tally) (o : Observation) : Bool := t.samePair fold (Tally.first o)

/-- A tally with one more observation. -/
def Tally.again (t : Tally) (o : Observation) : Tally :=
  { t with
    scope := if sameText fold t.scope o.application then t.scope else []
    count := t.count + 1
    confidence := max t.confidence o.evidence.confidence }

/-- **What a tally says** of the observations seen: how many of its pair there are, how sure the surest is, and that
they come from the application it is of, or from two if it is of every application. -/
structure Tally.Counts (t : Tally) (seen : List Observation) : Prop where
  count : t.count = (seen.filter (t.isOf fold)).length
  confidence : IsGreatest {q | ∃ o ∈ seen, t.isOf fold o = true ∧ o.evidence.confidence = q} t.confidence
  scope : (t.scope ≠ [] ∧ ∀ o ∈ seen, t.isOf fold o = true → sameText fold t.scope o.application = true) ∨
    (t.scope = [] ∧ ∃ o ∈ seen, ∃ o' ∈ seen, t.isOf fold o = true ∧ t.isOf fold o' = true ∧
      sameText fold o.application o'.application = false)

/-- Each pair seen has one tally. -/
structure Tallied (tallies : List Tally) (seen : List Observation) : Prop where
  apart : tallies.Pairwise fun t t' => t.samePair fold t' = false
  counts : ∀ t ∈ tallies, t.Counts fold seen
  covers : ∀ o ∈ seen, ∃ t ∈ tallies, t.isOf fold o = true

variable {fold} {t t' t'' : Tally} {ts : List Tally} {seen : List Observation} {o : Observation}

theorem Tally.samePair_comm : t.samePair fold t' = t'.samePair fold t := by
  rw [samePair, samePair, sameText_comm, sameText_comm fold t.corrected]

theorem Tally.samePair_congr (h : t.samePair fold t' = true) : t.samePair fold t'' = t'.samePair fold t'' := by
  obtain ⟨ho, hc⟩ := Bool.and_eq_true_iff.mp h
  rw [samePair, samePair, sameText_trans fold ho, sameText_trans fold hc]

@[simp] theorem Tally.isOf_first : (Tally.first o).isOf fold o = true := by
  rw [isOf, samePair, sameText_self, sameText_self]
  rfl

theorem Tally.isOf_again (o' : Observation) : (t.again fold o').isOf fold o = t.isOf fold o := rfl

/-- What a tally says depends on the observations of its pair. -/
theorem Tally.Counts.other (h : t.Counts fold seen) (ho : t.isOf fold o = false) : t.Counts fold (seen ++ [o]) := by
  refine ⟨?_, ?_, h.scope.imp (fun hs => ⟨hs.1, fun o' ho' hof => ?_⟩) fun hs => ⟨hs.1, ?_⟩⟩
  · rw [List.filter_append, List.filter_cons_of_neg (by simp [ho]), List.filter_nil, List.append_nil]
    exact h.count
  · obtain ⟨⟨o', hmem, hof, hq⟩, hle⟩ := h.confidence
    refine ⟨⟨o', List.mem_append_left _ hmem, hof, hq⟩, ?_⟩
    rintro q ⟨o'', hmem', hof', hq'⟩
    rcases List.mem_append.mp hmem' with hmem' | hmem'
    · exact hle ⟨o'', hmem', hof', hq'⟩
    · rw [List.mem_singleton.mp hmem', ho] at hof'
      cases hof'
  · rcases List.mem_append.mp ho' with ho' | ho'
    · exact hs.2 o' ho' hof
    · rw [List.mem_singleton.mp ho', ho] at hof
      cases hof
  · obtain ⟨o₁, h₁, o₂, h₂, hall⟩ := hs.2
    exact ⟨o₁, List.mem_append_left _ h₁, o₂, List.mem_append_left _ h₂, hall⟩

/-- One more observation of its pair. -/
theorem Tally.Counts.again (h : t.Counts fold seen) (ho : t.isOf fold o = true) (happlication : o.application ≠ []) :
    (t.again fold o).Counts fold (seen ++ [o]) := by
  have hmem : o ∈ seen ++ [o] := List.mem_concat_self
  refine ⟨?_, ?_, ?_⟩
  · show t.count + 1 = (List.filter (t.isOf fold) (seen ++ [o])).length
    rw [List.filter_append, List.filter_cons_of_pos ho, List.filter_nil, List.length_append, h.count]
    rfl
  · obtain ⟨⟨o', hmem', hof, hq⟩, hle⟩ := h.confidence
    refine ⟨?_, ?_⟩
    · show ∃ o' ∈ seen ++ [o], t.isOf fold o' = true ∧ o'.evidence.confidence = max t.confidence o.evidence.confidence
      rcases max_choice t.confidence o.evidence.confidence with hmax | hmax <;> rw [hmax]
      · exact ⟨o', List.mem_append_left _ hmem', hof, hq⟩
      · exact ⟨o, hmem, ho, rfl⟩
    · rintro q ⟨o'', hmem'', hof', rfl⟩
      rcases List.mem_append.mp hmem'' with hmem'' | hmem''
      · exact (hle ⟨o'', hmem'', hof', rfl⟩).trans (le_max_left _ _)
      · rw [List.mem_singleton.mp hmem'']
        exact le_max_right _ _
  · obtain ⟨⟨o', hmem', hof, -⟩, -⟩ := h.confidence
    by_cases hscope : sameText fold t.scope o.application = true
    · rw [show (t.again fold o).scope = t.scope from if_pos hscope]
      have hne : t.scope ≠ [] := by
        rw [← List.isEmpty_eq_false_iff, isEmpty_of_sameText fold hscope, List.isEmpty_eq_false_iff]
        exact happlication
      refine .inl ⟨hne, fun o'' hmem'' hof' => ?_⟩
      rcases List.mem_append.mp hmem'' with hmem'' | hmem''
      · exact (h.scope.resolve_right fun hs => hne hs.1).2 o'' hmem'' hof'
      · rwa [List.mem_singleton.mp hmem'']
    · rw [show (t.again fold o).scope = [] from if_neg hscope]
      refine .inr ⟨rfl, ?_⟩
      rcases h.scope with ⟨-, hall⟩ | ⟨-, o₁, h₁, o₂, h₂, hof₁, hof₂, hdiffer⟩
      · have hsame := hall o' hmem' hof
        refine ⟨o', List.mem_append_left _ hmem', o, hmem, hof, ho, ?_⟩
        rw [← sameText_trans fold hsame]
        exact Bool.eq_false_iff.mpr hscope
      · exact ⟨o₁, List.mem_append_left _ h₁, o₂, List.mem_append_left _ h₂, hof₁, hof₂, hdiffer⟩

/-- The first observation of a pair. -/
theorem Tally.counts_first (h : ∀ o' ∈ seen, (Tally.first o).isOf fold o' = false) (happlication : o.application ≠ []) :
    (Tally.first o).Counts fold (seen ++ [o]) := by
  have honly : ∀ o' ∈ seen ++ [o], (Tally.first o).isOf fold o' = true → o' = o := by
    intro o' hmem hof
    rcases List.mem_append.mp hmem with hmem | hmem
    · rw [h o' hmem] at hof
      cases hof
    · exact List.mem_singleton.mp hmem
  refine ⟨?_, ⟨⟨o, List.mem_concat_self, isOf_first, rfl⟩, ?_⟩, .inl ⟨happlication, fun o' hmem hof => ?_⟩⟩
  · rw [List.filter_append, List.filter_cons_of_pos isOf_first, List.filter_nil,
      List.filter_eq_nil_iff.mpr fun o' hmem => by rw [h o' hmem]; exact Bool.false_ne_true]
    rfl
  · rintro q ⟨o', hmem, hof, rfl⟩
    rw [honly o' hmem hof]
    exact le_refl _
  · rw [honly o' hmem hof]
    exact sameText_self fold _

namespace Tallied

theorem nil : Tallied fold [] [] := ⟨.nil, nofun, nofun⟩

theorem perm {ts' : List Tally} (h : Tallied fold ts seen) (hperm : ts.Perm ts') : Tallied fold ts' seen := by
  refine ⟨(hperm.pairwise_iff fun {t t'} h => ?_).mp h.apart, fun t ht => h.counts t (hperm.mem_iff.mpr ht), fun o ho => ?_⟩
  · rwa [Tally.samePair_comm]
  · obtain ⟨t, ht, hof⟩ := h.covers o ho
    exact ⟨t, hperm.mem_iff.mp ht, hof⟩

/-- An observation of a pair that is tallied counts for that. -/
theorem again (h : Tallied fold (t :: ts) seen) (ho : t.isOf fold o = true) (happlication : o.application ≠ []) :
    Tallied fold (t.again fold o :: ts) (seen ++ [o]) := by
  obtain ⟨hhead, hrest⟩ := List.pairwise_cons.mp h.apart
  refine ⟨List.pairwise_cons.mpr ⟨hhead, hrest⟩, ?_, fun o' ho' => ?_⟩
  · refine List.forall_mem_cons.mpr ⟨(h.counts t List.mem_cons_self).again ho happlication, fun t' ht' => ?_⟩
    refine (h.counts t' (List.mem_cons_of_mem _ ht')).other (Bool.eq_false_iff.mpr fun hof => ?_)
    have hpair : t.samePair fold t' = true := by
      rw [Tally.samePair_congr ho, Tally.samePair_comm]
      exact hof
    rw [hhead t' ht'] at hpair
    cases hpair
  · rcases List.mem_append.mp ho' with ho' | ho'
    · obtain ⟨t', ht', hof⟩ := h.covers o' ho'
      rcases List.mem_cons.mp ht' with rfl | ht'
      · exact ⟨_, List.mem_cons_self, hof⟩
      · exact ⟨t', List.mem_cons_of_mem _ ht', hof⟩
    · rw [List.mem_singleton.mp ho']
      exact ⟨_, List.mem_cons_self, ho⟩

/-- Any other observation starts a tally. -/
theorem first (h : Tallied fold ts seen) (ho : ∀ t ∈ ts, t.isOf fold o = false) (happlication : o.application ≠ []) :
    Tallied fold (.first o :: ts) (seen ++ [o]) := by
  refine ⟨List.pairwise_cons.mpr ⟨fun t ht => ?_, h.apart⟩, ?_, fun o' ho' => ?_⟩
  · rw [Tally.samePair_comm]
    exact ho t ht
  · refine List.forall_mem_cons.mpr ⟨Tally.counts_first (fun o' ho' => ?_) happlication, fun t ht => (h.counts t ht).other (ho t ht)⟩
    obtain ⟨t, ht, hof⟩ := h.covers o' ho'
    refine Bool.eq_false_iff.mpr fun hfirst => ?_
    have hpair : t.isOf fold o = true := by
      rw [Tally.isOf, Tally.samePair_congr hof, Tally.samePair_comm]
      exact hfirst
    rw [ho t ht] at hpair
    cases hpair
  · rcases List.mem_append.mp ho' with ho' | ho'
    · obtain ⟨t, ht, hof⟩ := h.covers o' ho'
      exact ⟨t, List.mem_cons_of_mem _ ht, hof⟩
    · rw [List.mem_singleton.mp ho']
      exact ⟨_, List.mem_cons_self, Tally.isOf_first⟩

end Tallied

/-! ## A step -/

variable (fold)

/-- Evidence contradicts a kept correction that applies in its application. -/
def contradicts (c : Corrections) (o : Observation) : Bool :=
  c.learned.any fun k => k.inScope fold (trimmed o.evidence.original) o.application &&
    !sameText fold k.corrected (trimmed o.evidence.corrected)

/-- Evidence is accepted: it is enough to go by and contradicts nothing kept where it was seen. -/
def accepted (c : Corrections) (o : Observation) : Bool := o.evidence.usable o.applicationId && !contradicts fold c o

/-- Evidence is counted all the same: the first correction that applies agrees with it. -/
def CountedAnyway (c : Corrections) (o : Observation) : Prop :=
  o.evidence.usable o.applicationId = true ∧ contradicts fold c o = true ∧
    ∃ r, replacementIn fold c.learned (trimmed o.evidence.original) o.application = some r ∧
      sameText fold r (trimmed o.evidence.corrected) = true

/-- A step of learning, whatever a correction learned is called. -/
def learn (idOf : Observation → NewId) (c : Corrections) (o : Observation) : Corrections :=
  Android.withEvidence fold c o.evidence o.applicationId o.now (idOf o).text

variable {fold} {c : Corrections} {idOf : Observation → NewId}

/-- The kept or the waiting edits in another order. -/
theorem Corrections.tallies_perm {learned learned' : List LearnedCorrection} {pending pending' : List PendingEvidence}
    (hl : learned.Perm learned') (hp : pending.Perm pending') :
    (tallies ⟨learned, pending⟩).Perm (tallies ⟨learned', pending'⟩) :=
  (hl.map _).append (hp.map _)

/-- An edit that waits. -/
theorem Corrections.tallies_waiting {learned : List LearnedCorrection} {item : PendingEvidence}
    {pending : List PendingEvidence} :
    (tallies ⟨learned, item :: pending⟩).Perm (item.tally :: tallies ⟨learned, pending⟩) :=
  List.perm_middle

theorem perm_eraseIdx {α : Type*} {l : List α} {i : ℕ} {a : α} (h : l[i]? = some a) : l.Perm (a :: l.eraseIdx i) := by
  obtain ⟨hi, rfl⟩ := List.getElem?_eq_some_iff.mp h
  exact (List.getElem_cons_eraseIdx_perm hi).symm

theorem eraseIdx_modify {α : Type*} (l : List α) (i : ℕ) (f : α → α) : (l.modify i f).eraseIdx i = l.eraseIdx i := by
  refine List.ext_getElem? fun j => ?_
  rw [List.getElem?_eraseIdx, List.getElem?_eraseIdx]
  split
  · exact List.getElem?_modify_ne _ _ (by omega)
  · exact List.getElem?_modify_ne _ _ (by omega)

theorem modify_perm {α : Type*} {l : List α} {i : ℕ} {a : α} (h : l[i]? = some a) (f : α → α) :
    (l.modify i f).Perm (f a :: l.eraseIdx i) := by
  have hget : (l.modify i f)[i]? = some (f a) := by rw [List.getElem?_modify_eq, h]; rfl
  rw [← eraseIdx_modify l i f]
  exact perm_eraseIdx hget

theorem application_ne_nil (h : o.evidence.usable o.applicationId = true) : o.application ≠ [] := by
  simp only [CorrectionEvidence.usable, Bool.not_eq_true', Bool.or_eq_false_iff, List.isEmpty_eq_false_iff] at h
  exact h.1.1.2

/-- What a step does to the tallies: one of the observation's pair counts it, or it starts one. -/
def CountsFor (fold : CaseFolding) (o : Observation) (tallies tallies' : List Tally) : Prop :=
  (∃ t ts, tallies.Perm (t :: ts) ∧ t.isOf fold o = true ∧ tallies'.Perm (t.again fold o :: ts)) ∨
    ((∀ t ∈ tallies, t.isOf fold o = false) ∧ tallies'.Perm (.first o :: tallies))

theorem Tallied.counted {tallies tallies' : List Tally} (h : Tallied fold tallies seen)
    (hcounts : CountsFor fold o tallies tallies') (happlication : o.application ≠ []) :
    Tallied fold tallies' (seen ++ [o]) := by
  rcases hcounts with ⟨t, ts, hperm, hof, hperm'⟩ | ⟨hnone, hperm⟩
  · exact ((h.perm hperm).again hof happlication).perm hperm'.symm
  · exact (h.first hnone happlication).perm hperm.symm

/-- A kept correction seen again counts the observation. -/
theorem countsFor_kept {learned : List LearnedCorrection} {pending : List PendingEvidence} {i : ℕ} {k : LearnedCorrection}
    (hget : learned[i]? = some k) (hof : k.tally.isOf fold o = true) {scope : Text}
    (hscope : (if sameText fold k.applicationId o.application then k.applicationId else []) = scope) :
    CountsFor fold o (Corrections.tallies ⟨learned, pending⟩)
      (Corrections.tallies ⟨Android.seenAgain learned o.evidence o.now i scope, pending⟩) := by
  subst hscope
  refine .inl ⟨k.tally, _, Corrections.tallies_perm (perm_eraseIdx hget) (.refl pending), hof, ?_⟩
  exact Corrections.tallies_perm (modify_perm hget _) (.refl pending)

/-- An edit counted while it waits: it was waiting and is counted again, or nothing of its pair was and it is new. -/
theorem countEvidence_tallies (fold : CaseFolding) (o : Observation) (pending : List PendingEvidence) :
    let counted := countEvidence fold pending (trimmed o.evidence.original) (trimmed o.evidence.corrected)
      o.application o.evidence.confidence o.now
    ∃ seen, counted.1[counted.2]? = some seen ∧
      ((∃ item, pending.Perm (item :: counted.1.eraseIdx counted.2) ∧ item.tally.isOf fold o = true ∧
          seen.tally = item.tally.again fold o) ∨
        (∀ item ∈ pending, item.tally.isOf fold o = false) ∧ counted.1.eraseIdx counted.2 = pending ∧
          seen.tally = .first o) := by
  simp only [countEvidence]
  cases hedit : pending.findIdx? (PendingEvidence.sameEdit fold (trimmed o.evidence.original)
      (trimmed o.evidence.corrected) o.application) with
  | some i =>
    obtain ⟨item, -, hget, hsame⟩ := getElem?_of_findIdx? hedit
    obtain ⟨hwords, hscope⟩ := Bool.and_eq_true_iff.mp hsame
    refine ⟨_, by simp only [List.getElem?_modify_eq, hget]; rfl, .inl ⟨item, ?_, hwords, ?_⟩⟩
    · simp only [eraseIdx_modify]
      exact perm_eraseIdx hget
    · rw [Tally.again, show sameText fold item.tally.scope o.application = true from hscope]
      rfl
  | none =>
    cases hwords : pending.findIdx? (PendingEvidence.sameWords fold (trimmed o.evidence.original)
        (trimmed o.evidence.corrected)) with
    | some i =>
      obtain ⟨item, hmem, hget, hsame⟩ := getElem?_of_findIdx? hwords
      have hscope : sameText fold item.tally.scope o.application = false := by
        have hnot := List.findIdx?_eq_none_iff.mp hedit item hmem
        rwa [PendingEvidence.sameEdit, hsame, Bool.true_and] at hnot
      refine ⟨_, by simp only [List.getElem?_modify_eq, hget]; rfl, .inl ⟨item, ?_, hsame, ?_⟩⟩
      · simp only [eraseIdx_modify]
        exact perm_eraseIdx hget
      · rw [Tally.again, hscope]
        rfl
    | none =>
      refine ⟨_, List.getElem?_concat_length, .inr ⟨List.findIdx?_eq_none_iff.mp hwords, ?_, rfl⟩⟩
      simp only [List.eraseIdx_append_of_length_le (Nat.le_refl pending.length), Nat.sub_self, List.eraseIdx_cons_zero,
        List.append_nil]

/-- What applies somewhere, first. -/
theorem replacementIn_of_findIdx? {learned : List LearnedCorrection} {original application : Text} {i : ℕ}
    {k : LearnedCorrection} (hi : learned.findIdx? (LearnedCorrection.inScope fold original application) = some i)
    (hget : learned[i]? = some k) : replacementIn fold learned original application = some k.corrected := by
  rw [replacementIn, List.find?_eq_bind_findIdx?_getElem?, hi]
  exact congrArg (Option.map _) hget

/-- Nothing that applies contradicts nothing. -/
theorem contradicts_of_none
    (h : c.learned.findIdx? (LearnedCorrection.inScope fold (trimmed o.evidence.original) o.application) = none) :
    contradicts fold c o = false := by
  refine List.any_eq_false.mpr fun k hk => ?_
  rw [List.findIdx?_eq_none_iff.mp h k hk, Bool.false_and]
  exact Bool.false_ne_true

/-- What a step can do with accepted evidence: it counts for a tally, what it leaves to wait was seen once, and what it
keeps was kept, or is of its pair and was waiting for it or is sure. -/
structure Steps (fold : CaseFolding) (o : Observation) (c c' : Corrections) : Prop where
  counts : CountsFor fold o c.tallies c'.tallies
  waits : ∀ item ∈ c'.pending, item ∈ c.pending ∨ item.count < 2
  keeps : ∀ k ∈ c'.learned, (∃ k₀ ∈ c.learned, k₀.tally.samePair fold k.tally = true) ∨
    k.tally.isOf fold o = true ∧ (0.9 ≤ o.evidence.confidence ∨ ∃ item ∈ c.pending, item.tally.isOf fold o = true)

theorem keeps_seenAgain {learned : List LearnedCorrection} {i : ℕ} {scope : Text} :
    ∀ k ∈ Android.seenAgain learned o.evidence o.now i scope, ∃ k₀ ∈ learned, k₀.tally.samePair fold k.tally = true := by
  intro k hk
  obtain ⟨j, hj, rfl⟩ := List.getElem_of_mem hk
  rw [Android.seenAgain, List.length_modify] at hj
  refine ⟨learned[j], List.getElem_mem hj, ?_⟩
  simp only [Android.seenAgain, List.getElem_modify]
  split
  · simp only [Tally.samePair, LearnedCorrection.tally, sameText_self, Bool.and_self]
  · simp only [Tally.samePair, sameText_self, Bool.and_self]

/-- A step that counts an edit of which nothing is kept. -/
theorem steps_counted (hkept : ∀ k ∈ c.learned, k.tally.isOf fold o = false) {newId : Text} :
    let counted := countEvidence fold c.pending (trimmed o.evidence.original) (trimmed o.evidence.corrected)
      o.application o.evidence.confidence o.now
    Steps fold o c (match counted.1[counted.2]? with
      | none => c
      | some seen =>
        if o.evidence.confidence < 0.9 && seen.count < 2 then ⟨c.learned, counted.1⟩
        else ⟨seen.activated newId :: c.learned, counted.1.eraseIdx counted.2⟩) := by
  intro counted
  obtain ⟨seen, hseen, hcounted⟩ := countEvidence_tallies fold o c.pending
  change counted.1[counted.2]? = some seen at hseen
  have hperm := perm_eraseIdx hseen
  change _ ∨ _ ∧ counted.1.eraseIdx counted.2 = c.pending ∧ _ at hcounted
  have hcounts : CountsFor fold o c.tallies (seen.tally :: Corrections.tallies ⟨c.learned, counted.1.eraseIdx counted.2⟩) := by
    rcases hcounted with ⟨item, hitem, hof, hagain⟩ | ⟨hnot, herase, hfirst⟩
    · refine .inl ⟨item.tally, _, ?_, hof, by rw [hagain]⟩
      exact (Corrections.tallies_perm (.refl c.learned) hitem).trans Corrections.tallies_waiting
    · refine .inr ⟨?_, by rw [hfirst, herase]⟩
      refine List.forall_mem_append.mpr ⟨?_, ?_⟩
      · exact List.forall_mem_map.mpr hkept
      · exact List.forall_mem_map.mpr hnot
  have hwas : ∀ item ∈ counted.1.eraseIdx counted.2, item ∈ c.pending := by
    rcases hcounted with ⟨item, hitem, -, -⟩ | ⟨-, herase, -⟩
    · exact fun item hmem => hitem.mem_iff.mpr (List.mem_cons_of_mem _ hmem)
    · rw [herase]
      exact fun _ hmem => hmem
  have hself : ∀ k ∈ c.learned, ∃ k₀ ∈ c.learned, k₀.tally.samePair fold k.tally = true := fun k hk =>
    ⟨k, hk, by simp only [Tally.samePair, sameText_self, Bool.and_self]⟩
  simp only [hseen]
  split
  · rename_i hfew
    refine ⟨?_, fun item hmem => ?_, fun k hk => .inl (hself k hk)⟩
    · have htallies := (Corrections.tallies_perm (.refl c.learned) hperm).trans Corrections.tallies_waiting
      exact hcounts.imp (fun ⟨t, ts, h, hof, h'⟩ => ⟨t, ts, h, hof, htallies.trans h'⟩) fun ⟨h, h'⟩ => ⟨h, htallies.trans h'⟩
    · rcases List.mem_cons.mp (hperm.mem_iff.mp hmem) with rfl | hmem
      · exact .inr (of_decide_eq_true (Bool.and_eq_true_iff.mp hfew).2)
      · exact .inl (hwas item hmem)
  · rename_i henough
    refine ⟨hcounts, fun item hmem => .inl (hwas item hmem), fun k hk => ?_⟩
    rcases List.mem_cons.mp hk with rfl | hk
    · right
      rcases hcounted with ⟨item, hitem, hof, hagain⟩ | ⟨-, -, hfirst⟩
      · exact ⟨by rw [show (seen.activated newId).tally = _ from hagain, Tally.isOf_again]; exact hof,
          .inr ⟨item, hitem.mem_iff.mpr List.mem_cons_self, hof⟩⟩
      · refine ⟨by rw [show (seen.activated newId).tally = _ from hfirst, Tally.isOf_first], .inl ?_⟩
        have hone : seen.count = 1 := congrArg Tally.count hfirst
        rw [hone, Bool.and_eq_true, decide_eq_true_eq, not_and_or, not_lt] at henough
        exact henough.resolve_right fun h => h (by decide)
    · exact .inl (hself k hk)

theorem learn_steps (idOf : Observation → NewId) (h : accepted fold c o = true) : Steps fold o c (learn fold idOf c o) := by
  obtain ⟨husable, hcontra⟩ := Bool.and_eq_true_iff.mp h
  have happlication := application_ne_nil husable
  rw [Bool.not_eq_true'] at hcontra
  rw [learn, Android.withEvidence_eq]
  simp only [husable, Bool.not_true, Bool.false_eq_true, if_false]
  split
  · rename_i i hin
    change c.learned.findIdx? (LearnedCorrection.inScope fold (trimmed o.evidence.original) o.application) = some i at hin
    obtain ⟨k, hmem, hget, hscope⟩ := getElem?_of_findIdx? hin
    have hagree : sameText fold k.corrected (trimmed o.evidence.corrected) = true := by
      have hnot := List.any_eq_false.mp hcontra k hmem
      rw [hscope, Bool.true_and, Bool.not_eq_true', Bool.not_eq_false] at hnot
      exact hnot
    obtain ⟨horiginal, happ⟩ := Bool.and_eq_true_iff.mp hscope
    simp only [hget, hagree, Bool.not_true, Bool.false_eq_true, if_false]
    refine ⟨countsFor_kept hget (Bool.and_eq_true_iff.mpr ⟨horiginal, hagree⟩) ?_, fun _ => .inl,
      fun k hk => .inl (keeps_seenAgain k hk)⟩
    rcases Bool.or_eq_true_iff.mp happ with happ | happ
    · exact if_pos happ
    · rw [List.isEmpty_iff.mp happ, ite_self]
  · rename_i hin
    change c.learned.findIdx? (LearnedCorrection.inScope fold (trimmed o.evidence.original) o.application) = none at hin
    have hnone := List.findIdx?_eq_none_iff.mp hin
    split
    · rename_i i helse
      change c.learned.findIdx? (LearnedCorrection.elsewhere fold (trimmed o.evidence.original)
        (trimmed o.evidence.corrected) o.application) = some i at helse
      obtain ⟨k, -, hget, helsewhere⟩ := getElem?_of_findIdx? helse
      obtain ⟨hpair, hscope⟩ := Bool.and_eq_true_iff.mp helsewhere
      refine ⟨countsFor_kept hget hpair (if_neg ?_), fun _ => .inl, fun k hk => .inl (keeps_seenAgain k hk)⟩
      rwa [Bool.not_eq_true', ← Bool.not_eq_true] at hscope
    · rename_i helse
      change c.learned.findIdx? (LearnedCorrection.elsewhere fold (trimmed o.evidence.original)
        (trimmed o.evidence.corrected) o.application) = none at helse
      -- Nothing kept is of the pair: what is applies here or elsewhere.
      have hkept : ∀ k ∈ c.learned, k.tally.isOf fold o = false := by
        intro k hk
        refine Bool.eq_false_iff.mpr fun hof => ?_
        have hin := hnone k hk
        have helse := List.findIdx?_eq_none_iff.mp helse k hk
        obtain ⟨horiginal, hcorrected⟩ : sameText fold k.original (trimmed o.evidence.original) = true ∧
            sameText fold k.corrected (trimmed o.evidence.corrected) = true := Bool.and_eq_true_iff.mp hof
        rw [LearnedCorrection.inScope, horiginal, Bool.true_and, Bool.or_eq_false_iff] at hin
        rw [LearnedCorrection.elsewhere, horiginal, hcorrected, hin.1] at helse
        cases helse
      exact steps_counted hkept

/-- Evidence not enough to go by changes nothing. -/
theorem learn_unusable (h : o.evidence.usable o.applicationId = false) : learn fold idOf c o = c := by
  rw [learn, Android.withEvidence_eq, h]
  rfl

/-- Evidence that contradicts what is kept is weighed against the first correction that applies alone. -/
theorem learn_contradicting (idOf : Observation → NewId) (husable : o.evidence.usable o.applicationId = true)
    (hcontra : contradicts fold c o = true) :
    ∃ (i : ℕ) (k : LearnedCorrection), c.learned[i]? = some k ∧
      replacementIn fold c.learned (trimmed o.evidence.original) o.application = some k.corrected ∧
      learn fold idOf c o = if sameText fold k.corrected (trimmed o.evidence.corrected) then
        { c with learned := Android.seenAgain c.learned o.evidence o.now i k.applicationId } else c := by
  cases hin : c.learned.findIdx? (LearnedCorrection.inScope fold (trimmed o.evidence.original) o.application) with
  | none =>
    rw [contradicts_of_none hin] at hcontra
    cases hcontra
  | some i =>
    obtain ⟨k, -, hget, -⟩ := getElem?_of_findIdx? hin
    refine ⟨i, k, hget, replacementIn_of_findIdx? hin hget, ?_⟩
    rw [learn, Android.withEvidence_eq]
    simp only [husable, Bool.not_true, Bool.false_eq_true, if_false]
    split
    · rename_i j hj
      obtain rfl : i = j := Option.some.inj (hin.symm.trans hj)
      simp only [hget, Bool.not_eq_true']
      by_cases hagree : sameText fold k.corrected (trimmed o.evidence.corrected) = true
      · rw [if_pos hagree, hagree]
        rfl
      · rw [if_neg hagree, if_pos (Bool.eq_false_iff.mpr hagree)]
    · rename_i hnone
      cases hin.symm.trans hnone

/-- Contradicting evidence changes nothing unless it is counted all the same. -/
theorem learn_eq_iff (hcontra : contradicts fold c o = true) : learn fold idOf c o = c ↔ ¬ CountedAnyway fold c o := by
  by_cases husable : o.evidence.usable o.applicationId = true
  · obtain ⟨i, k, hget, hreplacement, hlearn⟩ := learn_contradicting idOf husable hcontra
    rw [hlearn]
    by_cases hagree : sameText fold k.corrected (trimmed o.evidence.corrected) = true
    · refine iff_of_false (fun heq => ?_) fun hnot => hnot ⟨husable, hcontra, _, hreplacement, hagree⟩
      rw [if_pos hagree] at heq
      have hcount := congrArg (fun c : Corrections => c.learned[i]?.map LearnedCorrection.evidenceCount) heq
      simp only [Android.seenAgain, List.getElem?_modify_eq, hget, Option.map_eq_map, Option.map_some, Option.some.injEq]
        at hcount
      omega
    · refine iff_of_true (if_neg hagree) ?_
      rintro ⟨-, -, r, hr, hsame⟩
      rw [hreplacement, Option.some.injEq] at hr
      exact hagree (hr ▸ hsame)
  · exact iff_of_true (learn_unusable (Bool.eq_false_iff.mpr husable)) fun h => husable h.1

/-- What is not accepted changes nothing unless it is counted all the same. -/
theorem learn_rejected (haccepted : ¬ accepted fold c o = true) (hnot : ¬ CountedAnyway fold c o) :
    learn fold idOf c o = c := by
  by_cases husable : o.evidence.usable o.applicationId = true
  · refine (learn_eq_iff ?_).mpr hnot
    rw [accepted, husable, Bool.true_and, Bool.not_eq_true', Bool.not_eq_false] at haccepted
    exact haccepted
  · exact learn_unusable (Bool.eq_false_iff.mpr husable)

/-! ## Histories -/

variable (fold)

/-- The observations of a history that were accepted, `state` being what is held after a history. -/
def acceptedOf (state : List Observation → Corrections) (history : List Observation) : List Observation :=
  (history.foldl (fun s o => (s.1 ++ [o], if accepted fold (state s.1) o then s.2 ++ [o] else s.2))
    (([], []) : List Observation × List Observation)).2

/-- **The lists count what was seen**: no edit waits twice, each that waits was seen once and is kept nowhere it
applies, each kept is of all the observations of its pair, and none seen is lost. -/
structure Corrections.Count (c : Corrections) (seen : List Observation) : Prop where
  waiting_apart : c.pending.Pairwise fun item item' => item.sameWords fold item'.original item'.corrected = false
  waiting_once : ∀ item ∈ c.pending, item.count = 1 ∧ item.tally.Counts fold seen
  waiting_unkept : ∀ item ∈ c.pending, ∀ k ∈ c.learned, k.inScope fold item.original item.applicationId = true →
    sameText fold k.corrected item.corrected = false
  kept : ∀ k ∈ c.learned, k.tally.Counts fold seen
  covers : ∀ o ∈ seen, ∃ t ∈ c.tallies, t.isOf fold o = true

/-- **Evidence is counted and promoted exactly** in a history: the lists count what was accepted, a correction becomes
kept by evidence that is sure or is the second of its pair, and what contradicts a kept correction that applies changes
nothing. -/
structure CountsExactly (state : List Observation → Corrections) (history : List Observation) : Prop where
  count : ∀ past, past <+: history → (state past).Count fold (acceptedOf fold state past)
  promoted : ∀ past o, past ++ [o] <+: history → ∀ k ∈ (state (past ++ [o])).learned,
    (∃ k₀ ∈ (state past).learned, k₀.tally.samePair fold k.tally = true) ∨
      accepted fold (state past) o = true ∧ k.tally.isOf fold o = true ∧
        (0.9 ≤ o.evidence.confidence ∨ ((acceptedOf fold state past).filter (k.tally.isOf fold)).length = 1)
  contradicting : ∀ past o, past ++ [o] <+: history → contradicts fold (state past) o = true →
    state (past ++ [o]) = state past

variable {fold} {state : List Observation → Corrections}

theorem acceptedOf_concat (past : List Observation) (o : Observation) :
    acceptedOf fold state (past ++ [o]) =
      if accepted fold (state past) o then acceptedOf fold state past ++ [o] else acceptedOf fold state past := by
  have hpast : ∀ past : List Observation, (past.foldl
      (fun s o => (s.1 ++ [o], if accepted fold (state s.1) o then s.2 ++ [o] else s.2))
      (([], []) : List Observation × List Observation)).1 = past := by
    intro past
    induction past using List.reverseRecOn with
    | nil => rfl
    | append_singleton past o ih => rw [List.foldl_append, List.foldl_cons, List.foldl_nil, ih]
  rw [acceptedOf, List.foldl_append, List.foldl_cons, List.foldl_nil, hpast]
  rfl

/-- The invariant of a history: the edits, kept and waiting together, tally what was accepted, and none that waits was
seen twice. -/
structure Invariant (fold : CaseFolding) (c : Corrections) (seen : List Observation) : Prop where
  tallied : Tallied fold c.tallies seen
  waits : ∀ item ∈ c.pending, item.count < 2

namespace Invariant

theorem once (h : Invariant fold c seen) {item : PendingEvidence} (hitem : item ∈ c.pending) :
    item.count = 1 ∧ item.tally.Counts fold seen := by
  have hcounts := h.tallied.counts _ (List.mem_append_right _ (List.mem_map_of_mem hitem))
  refine ⟨?_, hcounts⟩
  obtain ⟨o, hmem, hof, -⟩ := hcounts.confidence.1
  have hpos := List.length_pos_of_mem (List.mem_filter.mpr ⟨hmem, hof⟩)
  have hcount : item.count = _ := hcounts.count
  have hfew := h.waits item hitem
  omega

theorem count (h : Invariant fold c seen) : c.Count fold seen := by
  obtain ⟨-, hpending, hbetween⟩ := List.pairwise_append.mp h.tallied.apart
  refine ⟨List.pairwise_map.mp hpending, fun item => h.once, fun item hitem k hk hscope => ?_,
    fun k hk => h.tallied.counts _ (List.mem_append_left _ (List.mem_map_of_mem hk)), h.tallied.covers⟩
  have hapart := hbetween _ (List.mem_map_of_mem hk) _ (List.mem_map_of_mem hitem)
  rwa [Tally.samePair, show sameText fold k.tally.original item.tally.original = true from
    (Bool.and_eq_true_iff.mp hscope).1, Bool.true_and] at hapart

/-- A step with accepted evidence. -/
theorem step (h : Invariant fold c seen) (haccepted : accepted fold c o = true) :
    Invariant fold (learn fold idOf c o) (seen ++ [o]) := by
  have hsteps := learn_steps idOf haccepted
  refine ⟨h.tallied.counted hsteps.counts (application_ne_nil (Bool.and_eq_true_iff.mp haccepted).1), fun item hitem => ?_⟩
  exact (hsteps.waits item hitem).elim (h.waits item) id

/-- What a step with accepted evidence keeps. -/
theorem promoted (h : Invariant fold c seen) (haccepted : accepted fold c o = true) {k : LearnedCorrection}
    (hk : k ∈ (learn fold idOf c o).learned) : (∃ k₀ ∈ c.learned, k₀.tally.samePair fold k.tally = true) ∨
      k.tally.isOf fold o = true ∧ (0.9 ≤ o.evidence.confidence ∨ (seen.filter (k.tally.isOf fold)).length = 1) := by
  rcases (learn_steps idOf haccepted).keeps k hk with hkept | ⟨hof, hsure | ⟨item, hitem, hwaits⟩⟩
  · exact .inl hkept
  · exact .inr ⟨hof, .inl hsure⟩
  · refine .inr ⟨hof, .inr ?_⟩
    have hpair : k.tally.isOf fold = item.tally.isOf fold := funext fun o' =>
      (Tally.samePair_congr hof).trans (Tally.samePair_congr hwaits).symm
    have hcount : item.count = _ := (h.once hitem).2.count
    rw [(h.once hitem).1] at hcount
    rw [hpair]
    exact_mod_cast hcount.symm

end Invariant

/-- Learning from nothing counts exactly when no evidence is counted that contradicts what is kept. -/
theorem countsExactly_iff (idOf : Observation → NewId) (hnil : state [] = ⟨[], []⟩)
    (hlearn : ∀ past o, state (past ++ [o]) = learn fold idOf (state past) o) (history : List Observation) :
    CountsExactly fold state history ↔ ∀ past o, past ++ [o] <+: history → ¬ CountedAnyway fold (state past) o := by
  constructor
  · intro h past o hpre hanyway
    have hsame := h.contradicting past o hpre hanyway.2.1
    rw [hlearn, learn_eq_iff hanyway.2.1] at hsame
    exact hsame hanyway
  · intro h
    have hinvariant : ∀ past, past <+: history → Invariant fold (state past) (acceptedOf fold state past) := by
      intro past
      induction past using List.reverseRecOn with
      | nil => exact fun _ => ⟨hnil ▸ Tallied.nil, hnil ▸ nofun⟩
      | append_singleton past o ih =>
        intro hpre
        have hpast := ih ((List.prefix_append past [o]).trans hpre)
        rw [acceptedOf_concat, hlearn]
        by_cases haccepted : accepted fold (state past) o = true
        · rw [if_pos haccepted]
          exact hpast.step haccepted
        · rw [if_neg haccepted, learn_rejected haccepted (h past o hpre)]
          exact hpast
    refine ⟨fun past hpre => (hinvariant past hpre).count, fun past o hpre k hk => ?_, fun past o hpre hcontra => ?_⟩
    · have hpast := hinvariant past ((List.prefix_append past [o]).trans hpre)
      rw [hlearn] at hk
      by_cases haccepted : accepted fold (state past) o = true
      · exact (hpast.promoted haccepted hk).imp_right fun hnew => ⟨haccepted, hnew⟩
      · rw [learn_rejected haccepted (h past o hpre)] at hk
        exact .inl ⟨k, hk, by simp only [Tally.samePair, sameText_self, Bool.and_self]⟩
    · rw [hlearn]
      exact (learn_eq_iff hcontra).mpr (h past o hpre)

variable (fold)

/-- What the desktop holds after a history. -/
def desktopState (past : List Observation) : Corrections := (recordAll fold .empty past).corrections

/-- What Android holds after a history. -/
def androidState (past : List Observation) : Corrections := Android.withAll fold ⟨[], []⟩ past

/-- **Evidence is counted and promoted exactly when none is counted that contradicts what is kept**, on the desktop and
on Android, in every history from the empty store. -/
theorem counts_iff (history : List Observation) :
    (CountsExactly fold (desktopState fold) history ↔
      ∀ past o, past ++ [o] <+: history → ¬ CountedAnyway fold (desktopState fold past) o) ∧
    (CountsExactly fold (androidState fold) history ↔
      ∀ past o, past ++ [o] <+: history → ¬ CountedAnyway fold (androidState fold past) o) := by
  refine ⟨countsExactly_iff Observation.desktopId rfl (fun past o => ?_) history,
    countsExactly_iff Observation.androidId rfl (fun past o => ?_) history⟩
  · rw [desktopState, recordAll_concat]
    exact corrections_recordEvidence fold _ _ _ _ o.desktopId.ne_nil
  · rw [androidState, Android.withAll, List.foldl_append]
    rfl

/-- "foo" becomes "bar" in one application and "baz" in another, then "bar" for all of them; "baz" seen where it is kept
is counted although it contradicts "bar", which applies there. -/
theorem foo_counted : ¬ ∀ history : List Observation, CountsExactly .ascii (desktopState .ascii) history := by
  intro h
  have hsame := (h [fooCorrected "bar" "mail", fooCorrected "baz" "notes", fooCorrected "bar" "chat",
    fooCorrected "baz" "notes"]).contradicting [fooCorrected "bar" "mail", fooCorrected "baz" "notes",
    fooCorrected "bar" "chat"] (fooCorrected "baz" "notes") (List.prefix_refl _) (by decide +kernel)
  exact absurd hsame (by decide +kernel)

end Speecher
