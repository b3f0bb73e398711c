import Speecher.Settings.Corrections

/-!
# Learning on Android

`withEvidence`, the Android port of the desktop's `recordEvidence`, as its own code has it: the same
learning on two lists in memory rather than on the settings file.

* `corrections_recordEvidence`: a step of the desktop on its file is a step of Android on what the
  file is read to hold.
* `learning_agrees`: hence the ports hold the same after every history.
-/

namespace Speecher

/-- The learned corrections, newest first, and the edits waiting to be seen again. -/
structure Corrections where
  learned : List LearnedCorrection
  pending : List PendingEvidence
  deriving DecidableEq

namespace Android

/-- `Char.isQtWhitespace`. -/
def isQtWhitespace (c : Char) : Bool :=
  let n := c.toNat
  (0x09 ≤ n && n ≤ 0x0d) || n = 0x85 ||
    (n = 0x20 || n = 0xa0 || n = 0x1680 || (0x2000 ≤ n && n ≤ 0x200a) || n = 0x2028 || n = 0x2029 ||
      n = 0x202f || n = 0x205f || n = 0x3000)

/-- `trim(Char::isQtWhitespace)`. -/
def trimQt (text : Text) : Text := stripped isQtWhitespace text

variable (fold : CaseFolding)

/-- `foldCase`. -/
def foldCase (text : Text) : Text := text.map fold.char

/-- Two texts are one term. -/
def sameTerm (a b : Text) : Bool := foldCase fold a = foldCase fold b

/-- A learned correction counted once more, with a scope. -/
def seenAgain (learned : List LearnedCorrection) (evidence : CorrectionEvidence) (nowMs : ℤ) (index : ℕ)
    (scope : Text) : List LearnedCorrection :=
  learned.modify index fun it =>
    { it with
      applicationId := scope
      evidenceCount := it.evidenceCount + 1
      lastObservedAtMs := nowMs
      confidence := max it.confidence evidence.confidence }

/-- The waiting edits with one counted, and where it stands there. One seen in another app becomes an
edit of every app. -/
def countedEdit (pending : List PendingEvidence) (original corrected application : Text) (confidence : ℚ)
    (nowMs : ℤ) : List PendingEvidence × ℕ :=
  let here := pending.findIdx? fun it =>
    sameTerm fold it.original original && sameTerm fold it.corrected corrected &&
      sameTerm fold it.applicationId application
  let anywhere := pending.findIdx? fun it =>
    sameTerm fold it.original original && sameTerm fold it.corrected corrected
  let widened := match here, anywhere with
    | none, some index => pending.modify index ({ · with applicationId := [] })
    | _, _ => pending
  match here.or anywhere with
  | none => (widened ++ [⟨original, corrected, application, 1, nowMs, nowMs, confidence⟩], widened.length)
  | some index =>
    (widened.modify index fun it =>
      { it with count := it.count + 1, lastObservedAtMs := nowMs, confidence := max it.confidence confidence },
      index)

/-- The corrections with evidence from an app counted at a time, `newId` naming what is learned. -/
def withEvidence (corrections : Corrections) (evidence : CorrectionEvidence) (applicationId : Text)
    (nowMs : ℤ) (newId : Text) : Corrections :=
  let original := trimQt evidence.original
  let corrected := trimQt evidence.corrected
  let application := trimQt applicationId
  if original.isEmpty || corrected.isEmpty || application.isEmpty || original = corrected ||
      evidence.confidence < 0.65 then
    corrections
  else
    let learned := corrections.learned
    match learned.findIdx? fun it =>
        sameTerm fold it.original original &&
          (sameTerm fold it.applicationId application || it.applicationId.isEmpty) with
    | some inScope =>
      match learned[inScope]? with
      | none => corrections
      | some it =>
        if !sameTerm fold it.corrected corrected then corrections
        else { corrections with learned := seenAgain learned evidence nowMs inScope it.applicationId }
    | none =>
      match learned.findIdx? fun it =>
          sameTerm fold it.original original && sameTerm fold it.corrected corrected &&
            !sameTerm fold it.applicationId application with
      | some elsewhere => { corrections with learned := seenAgain learned evidence nowMs elsewhere [] }
      | none =>
        let counted := countedEdit fold corrections.pending original corrected application
          evidence.confidence nowMs
        match counted.1[counted.2]? with
        | none => corrections
        | some seen =>
          if evidence.confidence < 0.9 && seen.count < 2 then ⟨learned, counted.1⟩
          else
            ⟨⟨newId, seen.original, seen.corrected, seen.applicationId, seen.firstObservedAtMs,
              seen.confidence, true, seen.count, seen.lastObservedAtMs⟩ :: learned,
              counted.1.eraseIdx counted.2⟩

theorem isQtWhitespace_eq (c : Char) : isQtWhitespace c = isSpace c := by
  simp only [isQtWhitespace, isSpace, Bool.or_assoc]
  rw [Bool.or_left_comm, Bool.or_left_comm (_ && _)]
  ac_rfl

theorem trimQt_eq (text : Text) : trimQt text = trimmed text := by
  rw [trimQt, trimmed, funext isQtWhitespace_eq]

theorem sameTerm_eq (a b : Text) : sameTerm fold a b = sameText fold a b := rfl

end Android

variable (fold : CaseFolding)

/-- What the settings file is read to hold about corrections. -/
def CorrectionFile.corrections (settings : CorrectionFile) : Corrections :=
  ⟨load settings, loadPending settings⟩

theorem valid_of_mem_load {settings : CorrectionFile} {c : LearnedCorrection} (h : c ∈ load settings) :
    c.valid = true :=
  (List.mem_filter.mp h).2

theorem valid_of_mem_loadPending {settings : CorrectionFile} {item : PendingEvidence}
    (h : item ∈ loadPending settings) : item.valid = true :=
  (List.mem_filter.mp h).2

/-- A list of valid entries stays so when one is changed and stays valid. -/
theorem valid_modify {α : Type*} {valid : α → Bool} {l : List α} {f : α → α}
    (h : ∀ a ∈ l, valid a = true) (hf : ∀ a, valid a = true → valid (f a) = true) (i : ℕ) :
    (l.modify i f).filter valid = l.modify i f := by
  refine List.filter_eq_self.mpr fun b hb => ?_
  obtain ⟨j, hj, rfl⟩ := List.getElem_of_mem hb
  rw [List.getElem_modify]
  split
  · exact hf _ (h _ (List.getElem_mem _))
  · exact h _ (List.getElem_mem _)

theorem getElem?_of_findIdx? {α : Type*} {p : α → Bool} {l : List α} {i : ℕ} (h : l.findIdx? p = some i) :
    ∃ a ∈ l, l[i]? = some a ∧ p a = true := by
  obtain ⟨hi, hp, -⟩ := List.findIdx?_eq_some_iff_getElem.mp h
  exact ⟨l[i], List.getElem_mem hi, List.getElem?_eq_getElem hi, hp⟩

/-- Counting an edit keeps the evidence valid, and yields the edit counted. -/
theorem countEvidence_spec {pending : List PendingEvidence} (h : ∀ item ∈ pending, item.valid = true)
    {original corrected : Text} (ho : original ≠ []) (hc : corrected ≠ []) (application : Text)
    (confidence : ℚ) (now : ℤ) :
    let counted := countEvidence fold pending original corrected application confidence now
    (∀ item ∈ counted.1, item.valid = true) ∧
      ∃ item, counted.1[counted.2]? = some item ∧ item.sameWords fold original corrected = true := by
  have hseen : ∀ item : PendingEvidence, item.valid = true → (item.seenAgain confidence now).valid = true := by
    intro item hitem
    simp only [PendingEvidence.valid, Bool.and_eq_true, decide_eq_true_eq] at hitem ⊢
    refine ⟨hitem.1, ?_⟩
    show 0 < item.count + 1
    omega
  simp only [countEvidence]
  split
  · rename_i i hi
    obtain ⟨a, -, ha, hp⟩ := getElem?_of_findIdx? hi
    refine ⟨fun item hitem => ?_, a.seenAgain confidence now, by rw [List.getElem?_modify_eq, ha]; rfl,
      (Bool.and_eq_true_iff.mp hp).1⟩
    rw [← valid_modify h hseen i] at hitem
    exact (List.mem_filter.mp hitem).2
  · split
    · rename_i i hi
      obtain ⟨a, -, ha, hp⟩ := getElem?_of_findIdx? hi
      refine ⟨fun item hitem => ?_, a.widened.seenAgain confidence now,
        by rw [List.getElem?_modify_eq, ha]; rfl, hp⟩
      rw [← valid_modify h (fun item hitem => hseen item.widened hitem) i] at hitem
      exact (List.mem_filter.mp hitem).2
    · refine ⟨List.forall_mem_append.mpr ⟨h, ?_⟩, _, List.getElem?_concat_length, ?_⟩
      · simp [PendingEvidence.valid, ho, hc]
      · simp [PendingEvidence.sameWords, sameText_iff]

theorem countedEdit_eq (pending : List PendingEvidence) (original corrected application : Text)
    (confidence : ℚ) (now : ℤ) :
    Android.countedEdit fold pending original corrected application confidence now =
      countEvidence fold pending original corrected application confidence now := by
  have hhere : (pending.findIdx? fun it => Android.sameTerm fold it.original original &&
      Android.sameTerm fold it.corrected corrected && Android.sameTerm fold it.applicationId application) =
    pending.findIdx? (PendingEvidence.sameEdit fold original corrected application) := rfl
  have hanywhere : (pending.findIdx? fun it => Android.sameTerm fold it.original original &&
      Android.sameTerm fold it.corrected corrected) =
    pending.findIdx? (PendingEvidence.sameWords fold original corrected) := rfl
  rw [Android.countedEdit, countEvidence, hhere, hanywhere]
  cases pending.findIdx? (PendingEvidence.sameEdit fold original corrected application) with
  | some i => rfl
  | none =>
    cases pending.findIdx? (PendingEvidence.sameWords fold original corrected) with
    | some i =>
      show (((pending.modify i _).modify i _, i) : List PendingEvidence × ℕ) = _
      rw [List.modify_modify_eq]
      rfl
    | none => rfl

theorem not_usable (evidence : CorrectionEvidence) (applicationId : Text) :
    ((trimmed evidence.original).isEmpty || (trimmed evidence.corrected).isEmpty ||
      (trimmed applicationId).isEmpty || decide (trimmed evidence.original = trimmed evidence.corrected) ||
        decide (evidence.confidence < 0.65)) = !evidence.usable applicationId := by
  rw [CorrectionEvidence.usable, Bool.not_not]

/-- The step of Android in the desktop's words. -/
theorem Android.withEvidence_eq (c : Corrections) (evidence : CorrectionEvidence) (applicationId : Text)
    (now : ℤ) (newId : Text) :
    withEvidence fold c evidence applicationId now newId =
      if !evidence.usable applicationId then c
      else
        match c.learned.findIdx? (LearnedCorrection.inScope fold (trimmed evidence.original)
            (trimmed applicationId)) with
        | some i =>
          match c.learned[i]? with
          | none => c
          | some it =>
            if !sameText fold it.corrected (trimmed evidence.corrected) then c
            else { c with learned := seenAgain c.learned evidence now i it.applicationId }
        | none =>
          match c.learned.findIdx? (LearnedCorrection.elsewhere fold (trimmed evidence.original)
              (trimmed evidence.corrected) (trimmed applicationId)) with
          | some i => { c with learned := seenAgain c.learned evidence now i [] }
          | none =>
            let counted := countEvidence fold c.pending (trimmed evidence.original) (trimmed evidence.corrected)
              (trimmed applicationId) evidence.confidence now
            match counted.1[counted.2]? with
            | none => c
            | some seen =>
              if evidence.confidence < 0.9 && seen.count < 2 then ⟨c.learned, counted.1⟩
              else ⟨seen.activated newId :: c.learned, counted.1.eraseIdx counted.2⟩ := by
  rw [withEvidence]
  simp only [trimQt_eq, not_usable, countedEdit_eq]
  rfl

/-- **A step of the desktop on its file is a step of Android on what the file holds.** -/
theorem corrections_recordEvidence (settings : CorrectionFile) (evidence : CorrectionEvidence)
    (applicationId : Text) (now : ℤ) {newId : Text} (hid : newId ≠ []) :
    (recordEvidence fold settings evidence applicationId now newId).2.corrections =
      Android.withEvidence fold settings.corrections evidence applicationId now newId := by
  have hload : ∀ c ∈ load settings, c.valid = true := fun c hc => valid_of_mem_load hc
  have hpending : ∀ item ∈ loadPending settings, item.valid = true := fun _ h => valid_of_mem_loadPending h
  rw [recordEvidence, Android.withEvidence_eq]
  by_cases husable : evidence.usable applicationId = true
  · simp only [husable, Bool.not_true, Bool.false_eq_true, if_false, CorrectionFile.corrections]
    cases hin : (load settings).findIdx? (LearnedCorrection.inScope fold (trimmed evidence.original)
        (trimmed applicationId)) with
    | some i =>
      obtain ⟨c, hmem, hget, -⟩ := getElem?_of_findIdx? hin
      simp only [hget, Option.any_some]
      by_cases hcontra : sameText fold c.corrected (trimmed evidence.corrected) = true
      · simp only [hcontra, Bool.not_true, Bool.false_eq_true, if_false, load_store, loadPending_store]
        rw [valid_modify hload (f := LearnedCorrection.seenAgain _ _) fun _ h => h]
        refine congrArg (Corrections.mk · _) (List.ext_getElem? fun j => ?_)
        rw [Android.seenAgain]
        by_cases hij : i = j
        · subst hij
          rw [List.getElem?_modify_eq, List.getElem?_modify_eq, hget]
          rfl
        · rw [List.getElem?_modify_ne _ _ hij, List.getElem?_modify_ne _ _ hij]
      · rw [Bool.not_eq_true] at hcontra
        simp only [hcontra, Bool.not_false, if_true]
    | none =>
      cases (load settings).findIdx? (LearnedCorrection.elsewhere fold (trimmed evidence.original)
        (trimmed evidence.corrected) (trimmed applicationId)) with
      | some i =>
        simp only [load_store, loadPending_store]
        rw [valid_modify (f := fun c => c.widened.seenAgain evidence.confidence now) hload fun _ h => h]
        rfl
      | none =>
        obtain ⟨⟨⟨⟨ho, hc⟩, -⟩, -⟩, -⟩ : (((_ ∧ _) ∧ _) ∧ _) ∧ _ := by
          simpa only [CorrectionEvidence.usable, Bool.not_eq_true', Bool.or_eq_false_iff,
            List.isEmpty_eq_false_iff] using husable
        obtain ⟨hvalid, item, hitem, hwords⟩ := countEvidence_spec fold hpending ho hc (trimmed applicationId)
          evidence.confidence now
        generalize countEvidence fold (loadPending settings) (trimmed evidence.original)
          (trimmed evidence.corrected) (trimmed applicationId) evidence.confidence now = counted at hvalid hitem ⊢
        simp only [hitem]
        split
        · rw [load_storePending, loadPending_storePending, List.filter_eq_self.mpr hvalid]
        · have hactivated : (item.activated newId).valid = true := by
            obtain ⟨hwo, hwc⟩ := Bool.and_eq_true_iff.mp hwords
            simp only [LearnedCorrection.valid, PendingEvidence.activated, Bool.and_eq_true, Bool.not_eq_true',
              List.isEmpty_eq_false_iff]
            exact ⟨⟨hid, (trimmed_of_sameText fold hwo).not.mpr (stripped_stripped_ne_nil ho)⟩,
              (trimmed_of_sameText fold hwc).not.mpr (stripped_stripped_ne_nil hc)⟩
          have herase : ∀ a ∈ counted.1.eraseIdx counted.2, a.valid = true :=
            fun a ha => hvalid a (List.mem_of_mem_eraseIdx ha)
          rw [load_store, loadPending_store, loadPending_storePending, List.filter_eq_self.mpr herase,
            List.filter_cons_of_pos hactivated, List.filter_eq_self.mpr hload]
  · rw [Bool.not_eq_true] at husable
    rw [husable]
    rfl

/-! ## Histories -/

/-- A name for a learned correction. -/
structure NewId where
  text : Text
  ne_nil : text ≠ []

/-- Evidence as both ports observe it, and what each would name a correction learned from it. -/
structure Observation where
  evidence : CorrectionEvidence
  applicationId : Text
  now : ℤ
  desktopId : NewId
  androidId : NewId

/-- The desktop's file after a history. -/
def recordAll (settings : CorrectionFile) (history : List Observation) : CorrectionFile :=
  history.foldl (fun s o => (recordEvidence fold s o.evidence o.applicationId o.now o.desktopId.text).2) settings

/-- Android's corrections after a history. -/
def Android.withAll (corrections : Corrections) (history : List Observation) : Corrections :=
  history.foldl (fun c o => withEvidence fold c o.evidence o.applicationId o.now o.androidId.text) corrections

/-- A correction without its name. -/
def LearnedCorrection.unnamed (correction : LearnedCorrection) : LearnedCorrection :=
  { correction with id := [] }

/-- Corrections without their names. -/
def Corrections.unnamed (c : Corrections) : Corrections := { c with learned := c.learned.map LearnedCorrection.unnamed }

theorem map_modify {α β : Type*} {g : α → β} {f : α → α} {f' : β → β} (h : ∀ a, g (f a) = f' (g a))
    {l : List α} (i : ℕ) : (l.modify i f).map g = (l.map g).modify i f' := by
  refine List.ext_getElem? fun j => ?_
  rw [List.getElem?_map, List.getElem?_modify, List.getElem?_modify, List.getElem?_map]
  cases l[j]? with
  | none => rfl
  | some a =>
    by_cases hij : i = j
    · simp [hij, h]
    · simp [hij]

/-- Learning does not look at names. -/
theorem unnamed_withEvidence (c : Corrections) (evidence : CorrectionEvidence) (applicationId : Text)
    (now : ℤ) (newId : Text) :
    (Android.withEvidence fold c evidence applicationId now newId).unnamed =
      Android.withEvidence fold c.unnamed evidence applicationId now [] := by
  have hmodify : ∀ i scope, (Android.seenAgain c.learned evidence now i scope).map LearnedCorrection.unnamed =
      Android.seenAgain c.unnamed.learned evidence now i scope :=
    fun i scope => by
      refine map_modify (fun it => ?_) i
      rfl
  have hfind : ∀ p : LearnedCorrection → Bool, (∀ it, p it.unnamed = p it) →
      c.unnamed.learned.findIdx? p = c.learned.findIdx? p := by
    intro p hp
    rw [Corrections.unnamed, List.findIdx?_map]
    exact congrArg (List.findIdx? · c.learned) (funext hp)
  have hget : ∀ i : ℕ, c.unnamed.learned[i]? = (c.learned[i]?).map LearnedCorrection.unnamed :=
    fun i => List.getElem?_map
  simp only [Android.withEvidence, hget]
  rw [hfind _ fun _ => rfl, hfind _ fun _ => rfl]
  split
  · rfl
  · split
    · rename_i i _
      cases c.learned[i]? with
      | none => rfl
      | some it =>
        simp only [Option.map_some, show it.unnamed.corrected = it.corrected from rfl]
        by_cases hcontra : (!Android.sameTerm fold it.corrected (Android.trimQt evidence.corrected)) = true
        · rw [if_pos hcontra, if_pos hcontra]
        · rw [if_neg hcontra, if_neg hcontra]
          exact congrArg (Corrections.mk · c.pending) (hmodify ..)
    · split
      · exact congrArg (Corrections.mk · c.pending) (hmodify ..)
      · rw [show c.unnamed.pending = c.pending from rfl]
        generalize Android.countedEdit fold c.pending (Android.trimQt evidence.original)
          (Android.trimQt evidence.corrected) (Android.trimQt applicationId) evidence.confidence now = counted
        cases counted.1[counted.2]? with
        | none => rfl
        | some seen =>
          show Corrections.unnamed (if _ then _ else _) = if _ then _ else _
          split <;> rfl

/-- **The ports learn the same**, names aside: from what the desktop's file is read to hold, and so
from the empty one, after every history. -/
theorem learning_agrees (settings : CorrectionFile) (history : List Observation) :
    (recordAll fold settings history).corrections.unnamed =
        (Android.withAll fold settings.corrections history).unnamed ∧
      CorrectionFile.empty.corrections = ⟨[], []⟩ := by
  refine ⟨?_, rfl⟩
  suffices h : ∀ (c : Corrections) (settings : CorrectionFile), settings.corrections.unnamed = c.unnamed →
      (recordAll fold settings history).corrections.unnamed = (Android.withAll fold c history).unnamed from
    h settings.corrections settings rfl
  induction history with
  | nil => exact fun _ _ h => h
  | cons o history ih =>
    intro c settings h
    refine ih _ _ ?_
    rw [corrections_recordEvidence fold settings _ _ _ o.desktopId.ne_nil, unnamed_withEvidence,
      unnamed_withEvidence, h]

end Speecher
