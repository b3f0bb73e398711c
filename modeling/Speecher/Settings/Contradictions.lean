import Speecher.Settings.AndroidCorrections

/-!
# Learned corrections that contradict each other

Two kept corrections of the same words compete where both apply. A step keeps them apart unless it
widens a correction to every application, which it does without looking at what other applications
have kept: `uncontradicted_withEvidence` is the step, and `uncontradicted_iff` says of every history
that the kept corrections never compete exactly when each widened correction was the only one of its
words.
-/

namespace Speecher

variable (fold : CaseFolding)

/-- **No two kept corrections apply** to the same words in the same application. -/
def Uncontradicted (learned : List LearnedCorrection) : Prop :=
  ∀ original application, (learned.filter (LearnedCorrection.inScope fold original application)).length ≤ 1

/-- What an application gets for some words: that of the first correction that applies. -/
def replacementIn (learned : List LearnedCorrection) (original application : Text) : Option Text :=
  (learned.find? (LearnedCorrection.inScope fold original application)).map LearnedCorrection.corrected

/-- Two corrections of the same words apply in some application. -/
def LearnedCorrection.competes (a b : LearnedCorrection) : Bool :=
  sameText fold a.original b.original &&
    (a.applicationId.isEmpty || b.applicationId.isEmpty || sameText fold a.applicationId b.applicationId)

theorem sameText_trans {a b c : Text} (h : sameText fold a b = true) : sameText fold a c = sameText fold b c := by
  rw [sameText, sameText, (sameText_iff fold).mp h]

theorem isEmpty_of_sameText {a b : Text} (h : sameText fold a b = true) : a.isEmpty = b.isEmpty := by
  have := congrArg List.isEmpty ((sameText_iff fold).mp h)
  rwa [List.isEmpty_map, List.isEmpty_map] at this

/-- What a correction competes with depends on its words and its scope. -/
theorem competes_congr {a a' b : LearnedCorrection} (ho : sameText fold a.original a'.original = true)
    (hs : sameText fold a.applicationId a'.applicationId = true) : a.competes fold b = a'.competes fold b := by
  rw [LearnedCorrection.competes, LearnedCorrection.competes, sameText_trans fold ho, sameText_trans fold hs,
    isEmpty_of_sameText fold hs]

theorem competes_comm (a b : LearnedCorrection) : a.competes fold b = b.competes fold a := by
  rw [LearnedCorrection.competes, LearnedCorrection.competes, sameText_comm, sameText_comm fold b.applicationId,
    Bool.or_comm a.applicationId.isEmpty]

/-- Two corrections compete when some words in some application are both's. -/
theorem competes_iff {a b : LearnedCorrection} : a.competes fold b = true ↔
    ∃ original application, a.inScope fold original application = true ∧
      b.inScope fold original application = true := by
  simp only [LearnedCorrection.competes, LearnedCorrection.inScope, Bool.and_eq_true, Bool.or_eq_true]
  constructor
  · rintro ⟨ho, hs⟩
    by_cases ha : a.applicationId.isEmpty = true
    · exact ⟨b.original, b.applicationId, ⟨ho, .inr ha⟩, sameText_self .., .inl (sameText_self ..)⟩
    · refine ⟨b.original, a.applicationId, ⟨ho, .inl (sameText_self ..)⟩, sameText_self .., ?_⟩
      rcases hs with (hs | hs) | hs
      · exact absurd hs ha
      · exact .inr hs
      · exact .inl (by rwa [sameText_comm])
  · rintro ⟨original, application, ⟨hao, has⟩, hbo, hbs⟩
    refine ⟨by rwa [sameText_trans fold hao, sameText_comm], ?_⟩
    rcases has with has | has
    · rcases hbs with hbs | hbs
      · exact .inr (by rwa [sameText_trans fold has, sameText_comm])
      · exact .inl (.inr hbs)
    · exact .inl (.inl has)

theorem uncontradicted_iff_pairwise {learned : List LearnedCorrection} :
    Uncontradicted fold learned ↔ learned.Pairwise fun a b => a.competes fold b = false := by
  induction learned with
  | nil => exact ⟨fun _ => List.Pairwise.nil, fun _ _ _ => Nat.zero_le _⟩
  | cons a learned ih =>
    rw [List.pairwise_cons, ← ih]
    constructor
    · intro h
      refine ⟨fun b hb => Bool.eq_false_iff.mpr fun hc => ?_, fun original application => ?_⟩
      · obtain ⟨original, application, ha, hb'⟩ := (competes_iff fold).mp hc
        have := h original application
        rw [List.filter_cons_of_pos ha, List.length_cons] at this
        have := List.length_pos_of_mem (List.mem_filter.mpr ⟨hb, hb'⟩)
        omega
      · refine le_trans ?_ (h original application)
        exact ((List.sublist_cons_self a learned).filter _).length_le
    · rintro ⟨ha, h⟩ original application
      rw [List.filter_cons]
      split
      · rename_i has
        have : learned.filter (LearnedCorrection.inScope fold original application) = [] := by
          refine List.filter_eq_nil_iff.mpr fun b hb hbs => ?_
          have := (competes_iff fold).mpr ⟨original, application, has, hbs⟩
          rw [ha b hb] at this
          cases this
        rw [this]
        exact Nat.le_refl 1
      · exact h original application

/-- Which replacement an application gets does not depend on the order of the corrections. -/
theorem Uncontradicted.replacementIn_perm {learned learned' : List LearnedCorrection}
    (h : Uncontradicted fold learned) (hperm : learned.Perm learned') (original application : Text) :
    replacementIn fold learned original application = replacementIn fold learned' original application := by
  have hfilter := hperm.filter (LearnedCorrection.inScope fold original application)
  have hlen := h original application
  rw [replacementIn, replacementIn, ← List.head?_filter, ← List.head?_filter]
  generalize learned.filter _ = l at hfilter hlen
  match l, hlen with
  | [], _ => rw [List.nil_perm.mp hfilter]
  | [a], _ => rw [List.singleton_perm.mp hfilter]

/-! ## A step -/

/-- Evidence widens a kept or a waiting correction to every application: nothing kept for its words
applies where it was seen, and it was seen elsewhere before. -/
def widens (c : Corrections) (evidence : CorrectionEvidence) (applicationId : Text) : Bool :=
  let original := trimmed evidence.original
  let corrected := trimmed evidence.corrected
  let application := trimmed applicationId
  evidence.usable applicationId && !c.learned.any (LearnedCorrection.inScope fold original application) &&
    (c.learned.any (LearnedCorrection.elsewhere fold original corrected application) ||
      (!c.pending.any (PendingEvidence.sameEdit fold original corrected application) &&
        c.pending.any (PendingEvidence.sameWords fold original corrected)))

/-- What evidence widens is the only correction kept of its words. -/
def WidensAlone (c : Corrections) (evidence : CorrectionEvidence) (applicationId : Text) : Prop :=
  widens fold c evidence applicationId = true →
    (c.learned.filter fun b => sameText fold b.original (trimmed evidence.original)).length ≤
      if c.learned.any (LearnedCorrection.elsewhere fold (trimmed evidence.original)
        (trimmed evidence.corrected) (trimmed applicationId)) then 1 else 0

theorem uncontradicted_middle (l₁ : List LearnedCorrection) {l₂ : List LearnedCorrection} {a : LearnedCorrection} :
    Uncontradicted fold (l₁ ++ a :: l₂) ↔
      (∀ b ∈ l₁ ++ l₂, a.competes fold b = false) ∧ Uncontradicted fold (l₁ ++ l₂) := by
  rw [uncontradicted_iff_pairwise, uncontradicted_iff_pairwise,
    List.pairwise_middle fun {x y} h => by rwa [competes_comm], List.pairwise_cons]

/-- A correction that applies everywhere competes with all of its words. -/
theorem competes_everywhere {a b : LearnedCorrection} (h : a.applicationId = []) :
    a.competes fold b = sameText fold a.original b.original := by
  simp [LearnedCorrection.competes, h]

theorem modify_middle {α : Type*} {l : List α} {i : ℕ} {a : α} (h : l[i]? = some a) :
    ∃ l₁ l₂, l = l₁ ++ a :: l₂ ∧ ∀ f, l.modify i f = l₁ ++ f a :: l₂ := by
  obtain ⟨hi, rfl⟩ := List.getElem?_eq_some_iff.mp h
  refine ⟨l.take i, l.drop (i + 1), ?_, fun f => ?_⟩
  · rw [List.getElem_cons_drop, List.take_append_drop]
  · rw [List.modify_eq_take_cons_drop hi]

/-- Changing neither a correction's words nor its scope changes nothing. -/
theorem uncontradicted_modify {learned : List LearnedCorrection} {i : ℕ} {a : LearnedCorrection}
    (h : learned[i]? = some a) {f : LearnedCorrection → LearnedCorrection}
    (ho : (f a).original = a.original) (hs : (f a).applicationId = a.applicationId) :
    Uncontradicted fold (learned.modify i f) ↔ Uncontradicted fold learned := by
  obtain ⟨l₁, l₂, rfl, hf⟩ := modify_middle h
  rw [hf, uncontradicted_middle, uncontradicted_middle]
  have : ∀ b, (f a).competes fold b = a.competes fold b := fun b =>
    competes_congr fold (by rw [ho, sameText_self]) (by rw [hs, sameText_self])
  simp only [this]

/-- Widening a correction keeps them apart exactly when it was the only one of its words. -/
theorem uncontradicted_widened {learned : List LearnedCorrection} {i : ℕ} {a : LearnedCorrection}
    (h : learned[i]? = some a) {f : LearnedCorrection → LearnedCorrection} {original : Text}
    (ha : sameText fold a.original original = true) (ho : (f a).original = a.original)
    (hs : (f a).applicationId = []) (hl : Uncontradicted fold learned) :
    Uncontradicted fold (learned.modify i f) ↔
      (learned.filter fun b => sameText fold b.original original).length ≤ 1 := by
  obtain ⟨l₁, l₂, rfl, hf⟩ := modify_middle h
  rw [hf, uncontradicted_middle, and_iff_left ((uncontradicted_middle fold _).mp hl).2,
    (List.perm_middle.filter _).length_eq,
    List.filter_cons_of_pos (p := fun b => sameText fold b.original original) (a := a) ha, List.length_cons,
    Nat.succ_le_succ_iff, Nat.le_zero, List.length_eq_zero_iff, List.filter_eq_nil_iff]
  refine forall₂_congr fun b _ => ?_
  rw [competes_everywhere fold hs, ho, sameText_trans fold ha, sameText_comm, Bool.not_eq_true]

theorem any_of_findIdx? {α : Type*} {p : α → Bool} {l : List α} {i : ℕ} (h : l.findIdx? p = some i) :
    l.any p = true := by
  obtain ⟨a, ha, -, hp⟩ := getElem?_of_findIdx? h
  exact List.any_eq_true.mpr ⟨a, ha, hp⟩

theorem any_of_findIdx?_none {α : Type*} {p : α → Bool} {l : List α} (h : l.findIdx? p = none) :
    l.any p = false := by
  rw [List.any_eq_false]
  intro a ha
  rw [List.findIdx?_eq_none_iff.mp h a ha]
  decide

/-- Where the edit counted applies: where it waited, everywhere when it waited for another application,
and where it was seen when it did not wait. One that waited is seen twice. -/
theorem countEvidence_scope {pending : List PendingEvidence} (hpos : ∀ item ∈ pending, 0 < item.count)
    (original corrected application : Text) (confidence : ℚ) (now : ℤ) :
    let counted := countEvidence fold pending original corrected application confidence now
    ∃ item, counted.1[counted.2]? = some item ∧ item.sameWords fold original corrected = true ∧
      if pending.any (PendingEvidence.sameEdit fold original corrected application) then
        sameText fold item.applicationId application = true
      else if pending.any (PendingEvidence.sameWords fold original corrected) then
        item.applicationId = [] ∧ 2 ≤ item.count
      else item.applicationId = application := by
  simp only [countEvidence]
  cases hedit : pending.findIdx? (PendingEvidence.sameEdit fold original corrected application) with
  | some i =>
    obtain ⟨a, -, ha, hp⟩ := getElem?_of_findIdx? hedit
    refine ⟨a.seenAgain confidence now, by simp only [List.getElem?_modify_eq, ha]; rfl, ?_, ?_⟩
    · exact (Bool.and_eq_true_iff.mp hp).1
    · rw [if_pos (any_of_findIdx? hedit)]
      exact (Bool.and_eq_true_iff.mp hp).2
  | none =>
    simp only [any_of_findIdx?_none hedit, Bool.false_eq_true, if_false]
    cases hwords : pending.findIdx? (PendingEvidence.sameWords fold original corrected) with
    | some i =>
      obtain ⟨a, hmem, ha, hp⟩ := getElem?_of_findIdx? hwords
      refine ⟨a.widened.seenAgain confidence now, by simp only [List.getElem?_modify_eq, ha]; rfl, hp, ?_⟩
      rw [if_pos (any_of_findIdx? hwords)]
      refine ⟨rfl, ?_⟩
      have := hpos a hmem
      show 2 ≤ a.count + 1
      omega
    | none =>
      simp only [any_of_findIdx?_none hwords, Bool.false_eq_true, if_false]
      refine ⟨_, List.getElem?_concat_length, ?_, rfl⟩
      simp only [PendingEvidence.sameWords, sameText_self, Bool.and_self]

theorem uncontradicted_cons {learned : List LearnedCorrection} {a : LearnedCorrection}
    (h : Uncontradicted fold learned) :
    Uncontradicted fold (a :: learned) ↔ ∀ b ∈ learned, a.competes fold b = false :=
  (uncontradicted_middle fold []).trans (and_iff_left h)

/-- A correction learned where none of its words applied competes with none. -/
theorem competes_learned {learned : List LearnedCorrection} {original application : Text}
    (hnone : learned.any (LearnedCorrection.inScope fold original application) = false)
    {a : LearnedCorrection} (ho : sameText fold a.original original = true)
    (hs : sameText fold a.applicationId application = true) (happ : application ≠ []) :
    ∀ b ∈ learned, a.competes fold b = false := by
  intro b hb
  have hb := List.any_eq_false.mp hnone b hb
  have happ' : a.applicationId.isEmpty = false := by
    rw [isEmpty_of_sameText fold hs]
    exact List.isEmpty_eq_false_iff.mpr happ
  refine Bool.eq_false_iff.mpr fun hc => hb ?_
  simp only [LearnedCorrection.competes, happ', Bool.false_or, Bool.and_eq_true, Bool.or_eq_true] at hc
  simp only [LearnedCorrection.inScope, Bool.and_eq_true, Bool.or_eq_true]
  refine ⟨?_, hc.2.symm.imp_left fun h => ?_⟩
  · rw [sameText_comm, ← sameText_trans fold ho]
    exact hc.1
  · rw [sameText_comm, ← sameText_trans fold hs]
    exact h

/-- **A step keeps the corrections apart exactly when what it widens was alone.** -/
theorem uncontradicted_withEvidence {c : Corrections} (hpos : ∀ item ∈ c.pending, 0 < item.count)
    (h : Uncontradicted fold c.learned) (evidence : CorrectionEvidence) (applicationId : Text) (now : ℤ)
    (newId : Text) :
    Uncontradicted fold (Android.withEvidence fold c evidence applicationId now newId).learned ↔
      WidensAlone fold c evidence applicationId := by
  rw [Android.withEvidence_eq]
  by_cases husable : evidence.usable applicationId = true
  · simp only [husable, Bool.not_true, Bool.false_eq_true, if_false]
    cases hin : c.learned.findIdx? (LearnedCorrection.inScope fold (trimmed evidence.original)
        (trimmed applicationId)) with
    | some i =>
      -- What applies there already is counted or contradicted; nothing is widened.
      have hnot : WidensAlone fold c evidence applicationId := by
        intro hw
        simp only [widens, husable, any_of_findIdx? hin, Bool.not_true, Bool.and_false, Bool.false_and,
          Bool.false_eq_true] at hw
      obtain ⟨it, -, hget, -⟩ := getElem?_of_findIdx? hin
      simp only [hget]
      split
      · exact iff_of_true h hnot
      · exact iff_of_true ((uncontradicted_modify fold hget rfl rfl).mpr h) hnot
    | none =>
      have hnone := any_of_findIdx?_none hin
      cases helse : c.learned.findIdx? (LearnedCorrection.elsewhere fold (trimmed evidence.original)
          (trimmed evidence.corrected) (trimmed applicationId)) with
      | some i =>
        have hany := any_of_findIdx? helse
        obtain ⟨it, -, hget, hit⟩ := getElem?_of_findIdx? helse
        simp only [LearnedCorrection.elsewhere, Bool.and_eq_true] at hit
        have hstep := uncontradicted_widened fold hget (f := fun it =>
          { it with
            applicationId := []
            evidenceCount := it.evidenceCount + 1
            lastObservedAtMs := now
            confidence := max it.confidence evidence.confidence }) hit.1.1 rfl rfl h
        refine hstep.trans ?_
        simp only [WidensAlone, widens, husable, hnone, hany, Bool.not_false, Bool.true_or, Bool.and_self,
          if_true, forall_const]
      | none =>
        have hnoelse := any_of_findIdx?_none helse
        obtain ⟨item, hitem, hwords, hscope⟩ := countEvidence_scope fold hpos (trimmed evidence.original)
          (trimmed evidence.corrected) (trimmed applicationId) evidence.confidence now
        have happ : trimmed applicationId ≠ [] := by
          simp only [CorrectionEvidence.usable, Bool.not_eq_true', Bool.or_eq_false_iff,
            List.isEmpty_eq_false_iff] at husable
          exact husable.1.1.2
        -- Learned where it was seen, the correction competes with none and nothing was widened.
        have hhere : ∀ hs : sameText fold item.applicationId (trimmed applicationId) = true,
            Uncontradicted fold (item.activated newId :: c.learned) := fun hs =>
          (uncontradicted_cons fold h).mpr
            (competes_learned fold hnone (Bool.and_eq_true_iff.mp hwords).1 hs happ)
        simp only [hitem]
        by_cases hedit : c.pending.any (PendingEvidence.sameEdit fold (trimmed evidence.original)
            (trimmed evidence.corrected) (trimmed applicationId)) = true
        · rw [if_pos hedit] at hscope
          have hnot : WidensAlone fold c evidence applicationId := by
            intro hw
            simp only [widens, hnoelse, hedit, Bool.not_true, Bool.false_and, Bool.or_self, Bool.and_false,
              Bool.false_eq_true] at hw
          split
          · exact iff_of_true h hnot
          · exact iff_of_true (hhere hscope) hnot
        · rw [if_neg hedit] at hscope
          rw [Bool.not_eq_true] at hedit
          by_cases hany : c.pending.any (PendingEvidence.sameWords fold (trimmed evidence.original)
              (trimmed evidence.corrected)) = true
          · rw [if_pos hany] at hscope
            rw [if_neg (by simp only [Bool.and_eq_true, decide_eq_true_eq]; omega), uncontradicted_cons fold h]
            simp only [WidensAlone, widens, husable, hnone, hnoelse, hedit, hany, Bool.not_false, Bool.and_self,
              Bool.or_true, Bool.false_eq_true, if_false, forall_const, Nat.le_zero, List.length_eq_zero_iff,
              List.filter_eq_nil_iff]
            refine forall₂_congr fun b _ => ?_
            rw [competes_everywhere fold hscope.1, Bool.not_eq_true, sameText_comm fold b.original,
              ← sameText_trans fold (Bool.and_eq_true_iff.mp hwords).1]
            rfl
          · rw [if_neg hany] at hscope
            rw [Bool.not_eq_true] at hany
            have hnot : WidensAlone fold c evidence applicationId := by
              intro hw
              simp only [widens, hnoelse, hany, Bool.and_false, Bool.or_self, Bool.false_eq_true] at hw
            split
            · exact iff_of_true h hnot
            · exact iff_of_true (hhere (by rw [hscope, sameText_self])) hnot
  · rw [Bool.not_eq_true] at husable
    rw [husable]
    refine iff_of_true h fun hw => ?_
    simp only [widens, husable, Bool.false_and, Bool.false_eq_true] at hw

/-! ## Histories -/

/-- The kept corrections do not compete, and what an application gets does not depend on their order. -/
def Unambiguous (learned : List LearnedCorrection) : Prop :=
  Uncontradicted fold learned ∧ ∀ learned', learned.Perm learned' → ∀ original application,
    replacementIn fold learned original application = replacementIn fold learned' original application

theorem unambiguous_iff {learned : List LearnedCorrection} :
    Unambiguous fold learned ↔ Uncontradicted fold learned :=
  and_iff_left_of_imp fun h _ hperm => h.replacementIn_perm fold hperm

theorem recordAll_concat (settings : CorrectionFile) (past : List Observation) (o : Observation) :
    recordAll fold settings (past ++ [o]) =
      (recordEvidence fold (recordAll fold settings past) o.evidence o.applicationId o.now o.desktopId.text).2 := by
  rw [recordAll, List.foldl_append]
  rfl

theorem pos_of_mem_loadPending {settings : CorrectionFile} {item : PendingEvidence}
    (h : item ∈ loadPending settings) : 0 < item.count := by
  have := valid_of_mem_loadPending h
  simp only [PendingEvidence.valid, Bool.and_eq_true, decide_eq_true_eq] at this
  exact this.2

/-- **Learned corrections never compete exactly when what is widened is alone**: in every history from
the empty file, they do not in any state of it just when every piece of evidence that widens a
correction finds no other kept of its words. -/
theorem uncontradicted_iff (history : List Observation) :
    (∀ past, past <+: history → Unambiguous fold (load (recordAll fold .empty past))) ↔
      ∀ past o, past ++ [o] <+: history →
        WidensAlone fold (recordAll fold .empty past).corrections o.evidence o.applicationId := by
  have hstep : ∀ past o, Unambiguous fold (load (recordAll fold .empty past)) →
      (Unambiguous fold (load (recordAll fold .empty (past ++ [o]))) ↔
        WidensAlone fold (recordAll fold .empty past).corrections o.evidence o.applicationId) := by
    intro past o h
    rw [unambiguous_iff] at h
    rw [unambiguous_iff, recordAll_concat]
    have hrecord := corrections_recordEvidence fold (recordAll fold .empty past) o.evidence o.applicationId o.now
      o.desktopId.ne_nil
    rw [show load _ = _ from congrArg Corrections.learned hrecord]
    exact uncontradicted_withEvidence fold (fun _ => pos_of_mem_loadPending) h ..
  constructor
  · intro h past o hpre
    exact (hstep past o (h past ((List.prefix_append past [o]).trans hpre))).mp (h _ hpre)
  · intro h past
    induction past using List.reverseRecOn with
    | nil => exact fun _ => (unambiguous_iff fold).mpr fun _ _ => Nat.zero_le _
    | append_singleton past o ih =>
      intro hpre
      exact (hstep past o (ih ((List.prefix_append past [o]).trans hpre))).mpr (h past o hpre)

/-- "foo" corrected in an application, a fix the diff is sure of. -/
def fooCorrected (corrected application : String) : Observation :=
  ⟨⟨"foo".toList, corrected.toList, 0.98⟩, application.toList, 0, ⟨['x'], by decide⟩, ⟨['x'], by decide⟩⟩

/-- "foo" becomes "bar" in one application and "baz" in another; "bar" seen in a third is then kept for
all of them, the second included. -/
theorem foo_contradicted : ¬ ∀ history : List Observation,
    Unambiguous .ascii (load (recordAll .ascii .empty history)) := by
  intro h
  have htwo := (h [fooCorrected "bar" "mail", fooCorrected "baz" "notes", fooCorrected "bar" "chat"]).1
    "foo".toList "notes".toList
  exact absurd htwo (by decide +kernel)

end Speecher
