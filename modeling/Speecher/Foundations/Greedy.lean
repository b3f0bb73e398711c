import Mathlib.Data.List.Induction
import Mathlib.Data.List.Sort
import Mathlib.Tactic.Common

/-!
# Greedy choice among candidates that clash

Candidates are taken in order of preference, each unless it clashes with one taken before.
`greedy` is the algorithm and `IsChoice` what it chooses, said without an algorithm: a candidate is
chosen exactly when no chosen candidate preferred to it clashes with it. There is one such choice
(`IsChoice.unique`) and the algorithm finds it (`greedy_isChoice`).

`sortBy` sorts by a comparator that tells which of two comes first, keeping ties in their order.
-/

namespace Speecher

variable {β : Type*}

/-! ## Sorting by a comparator -/

/-- The list in the order of a comparator, ties in the order they had. -/
def sortBy (before : β → β → Bool) (l : List β) : List β :=
  l.insertionSort fun a b => before b a = false

/-- A comparator that orders: what is not after is transitive. -/
structure Orders (before : β → β → Bool) : Prop where
  asymm : ∀ a b, before a b = true → before b a = false
  trans : ∀ a b c, before b a = false → before c b = false → before c a = false

theorem sortBy_perm (before : β → β → Bool) (l : List β) : (sortBy before l).Perm l :=
  List.perm_insertionSort _ l

theorem sortBy_pairwise {before : β → β → Bool} (h : Orders before) (l : List β) :
    (sortBy before l).Pairwise fun a b => before b a = false := by
  have : Std.Total fun a b => before b a = false := ⟨fun a b => by
    rcases Bool.eq_false_or_eq_true (before b a) with hb | hb
    · exact .inr (h.asymm b a hb)
    · exact .inl hb⟩
  have : IsTrans β fun a b => before b a = false := ⟨h.trans⟩
  exact List.pairwise_insertionSort _ l

/-- Two comparators that agree on each pair as the list has them sort it alike. -/
theorem sortBy_congr {before before' : β → β → Bool} {l : List β}
    (h : l.Pairwise fun a b => before b a = before' b a) : sortBy before l = sortBy before' l := by
  induction l with
  | nil => rfl
  | cons a l ih =>
    obtain ⟨ha, hl⟩ := List.pairwise_cons.mp h
    have hins : ∀ l' : List β, (∀ b ∈ l', before b a = before' b a) →
        l'.orderedInsert (fun a b => before b a = false) a =
          l'.orderedInsert (fun a b => before' b a = false) a := by
      intro l'
      induction l' with
      | nil => exact fun _ => rfl
      | cons b l' ihl =>
        intro hb
        simp only [List.orderedInsert_cons, hb b List.mem_cons_self,
          ihl fun c hc => hb c (List.mem_cons_of_mem b hc)]
    have := ih hl
    simp only [sortBy, List.insertionSort_cons] at this ⊢
    rw [this]
    refine hins _ fun b hb => ha b ?_
    exact (List.perm_insertionSort _ l).mem_iff.mp hb

/-! ## The choice -/

/-- The candidates taken, those of the list in order, after `taken`. -/
def greedy (clash : β → β → Bool) : List β → List β → List β
  | taken, [] => taken
  | taken, c :: cs => if taken.any (clash · c) then greedy clash taken cs else greedy clash (taken ++ [c]) cs

/-- A choice among candidates: those with which no chosen candidate preferred to them clashes. -/
def IsChoice (candidate : β → Prop) (prefer : β → β → Prop) (clash : β → β → Bool) (chosen : β → Prop) :
    Prop :=
  ∀ c, chosen c ↔ candidate c ∧ ∀ a, chosen a → prefer a c → clash a c = false

variable {clash : β → β → Bool}

theorem greedy_append (l l' : List β) :
    ∀ taken, greedy clash taken (l ++ l') = greedy clash (greedy clash taken l) l' := by
  induction l with
  | nil => exact fun _ => rfl
  | cons c l ih =>
    intro taken
    simp only [List.cons_append, greedy]
    split
    · exact ih taken
    · exact ih (taken ++ [c])

theorem mem_greedy_of_mem {c : β} (l : List β) :
    ∀ {taken}, c ∈ taken → c ∈ greedy clash taken l := by
  induction l with
  | nil => exact fun h => h
  | cons a l ih =>
    intro taken h
    simp only [greedy]
    split
    · exact ih h
    · exact ih (List.mem_append_left _ h)

theorem mem_of_mem_greedy {c : β} (l : List β) :
    ∀ {taken}, c ∈ greedy clash taken l → c ∈ taken ∨ c ∈ l := by
  induction l with
  | nil => exact fun h => .inl h
  | cons a l ih =>
    intro taken h
    simp only [greedy] at h
    split at h
    · rcases ih h with h | h
      · exact .inl h
      · exact .inr (List.mem_cons_of_mem a h)
    · rcases ih h with h | h
      · rcases List.mem_append.mp h with h | h
        · exact .inl h
        · exact .inr (List.mem_singleton.mp h ▸ List.mem_cons_self)
      · exact .inr (List.mem_cons_of_mem a h)

/-- The candidates taken do not clash, in the order they were taken. -/
theorem greedy_pairwise (l : List β) :
    ∀ {taken}, taken.Pairwise (clash · · = false) →
      (greedy clash taken l).Pairwise (clash · · = false) := by
  induction l with
  | nil => exact fun h => h
  | cons c l ih =>
    intro taken h
    simp only [greedy]
    split
    · exact ih h
    · rename_i hc
      refine ih (List.pairwise_append.mpr ⟨h, List.pairwise_singleton _ _, fun a ha b hb => ?_⟩)
      rw [List.mem_singleton.mp hb]
      exact Bool.eq_false_iff.mpr fun hac => hc (List.any_eq_true.mpr ⟨a, ha, hac⟩)

/-- A candidate is taken exactly when none taken before it clashes with it. -/
theorem mem_greedy_iff {c : β} {l l' : List β} (hl : c ∉ l) (hl' : c ∉ l') :
    c ∈ greedy clash [] (l ++ c :: l') ↔ ∀ a ∈ greedy clash [] l, clash a c = false := by
  rw [greedy_append, greedy]
  split
  · rename_i hc
    obtain ⟨a, ha, hac⟩ := List.any_eq_true.mp hc
    refine ⟨fun h => ?_, fun h => absurd (h a ha) (by rw [hac]; decide)⟩
    rcases mem_of_mem_greedy l' h with h | h
    · rcases mem_of_mem_greedy l h with h | h
      · cases h
      · exact absurd h hl
    · exact absurd h hl'
  · rename_i hc
    refine ⟨fun _ a ha => ?_, fun _ => ?_⟩
    · exact Bool.eq_false_iff.mpr fun hac => hc (List.any_eq_true.mpr ⟨a, ha, hac⟩)
    · exact mem_greedy_of_mem l' (List.mem_append_right _ List.mem_cons_self)

variable {prefer : β → β → Prop}

/-- In a list in order of preference, what is preferred to a candidate stands before it. -/
theorem mem_before {l l' : List β} {a c : β} (h : (l ++ c :: l').Pairwise prefer)
    (hasymm : ∀ a b, prefer a b → ¬ prefer b a) (ha : a ∈ l ++ c :: l') (hac : prefer a c) : a ∈ l := by
  obtain ⟨-, hc, -⟩ := List.pairwise_append.mp h
  rcases List.mem_append.mp ha with ha | ha
  · exact ha
  · rcases List.mem_cons.mp ha with rfl | ha
    · exact absurd hac (hasymm _ _ hac)
    · exact absurd hac (hasymm _ _ (List.rel_of_pairwise_cons hc ha))

/-- **The greedy algorithm makes the choice.** -/
theorem greedy_isChoice {l : List β} (h : l.Pairwise prefer) (hasymm : ∀ a b, prefer a b → ¬ prefer b a) :
    IsChoice (· ∈ l) prefer clash (· ∈ greedy clash [] l) := by
  have hnodup : l.Nodup := h.imp fun {a b} hab (he : a = b) => by
    subst he
    exact hasymm a a hab hab
  intro c
  by_cases hcl : c ∈ l
  · obtain ⟨l₁, l₂, rfl⟩ := List.append_of_mem hcl
    obtain ⟨-, hd, hdisj⟩ := List.nodup_append.mp hnodup
    have h₁ : c ∉ l₁ := fun hc => hdisj c hc c List.mem_cons_self rfl
    have h₂ : c ∉ l₂ := (List.nodup_cons.mp hd).1
    refine (mem_greedy_iff h₁ h₂).trans ?_
    refine ⟨fun hc => ⟨hcl, fun a ha hac => ?_⟩, fun ⟨_, hc⟩ a ha => ?_⟩
    · have ha₁ := mem_before h hasymm ((mem_of_mem_greedy _ ha).resolve_left List.not_mem_nil) hac
      beta_reduce at ha
      rw [greedy_append] at ha
      refine hc a ((mem_of_mem_greedy _ ha).resolve_right fun ha₂ => ?_)
      exact hdisj a ha₁ a ha₂ rfl
    · have ha₁ := (mem_of_mem_greedy l₁ ha).resolve_left List.not_mem_nil
      refine hc a ?_ ((List.pairwise_append.mp h).2.2 a ha₁ c List.mem_cons_self)
      rw [greedy_append]
      exact mem_greedy_of_mem _ ha
  · exact ⟨fun hc => absurd ((mem_of_mem_greedy l hc).resolve_left List.not_mem_nil) hcl,
      fun hc => absurd hc.1 hcl⟩

/-- There is at most one choice among the candidates of a list in order of preference. -/
theorem IsChoice.unique {l : List β} (h : l.Pairwise prefer) (hasymm : ∀ a b, prefer a b → ¬ prefer b a)
    {W W' : β → Prop} (hW : IsChoice (· ∈ l) prefer clash W) (hW' : IsChoice (· ∈ l) prefer clash W') :
    ∀ c, W c ↔ W' c := by
  have hpre : ∀ l₁ l₂, l = l₁ ++ l₂ → ∀ c ∈ l₁, (W c ↔ W' c) := by
    intro l₁
    induction l₁ using List.reverseRecOn with
    | nil => simp
    | append_singleton l₁ c ih =>
      intro l₂ hl a ha
      rw [List.append_assoc] at hl
      rcases List.mem_append.mp ha with ha | ha
      · exact ih _ hl a ha
      · obtain rfl := List.mem_singleton.mp ha
        have hbefore : ∀ b ∈ l, prefer b a → (W b ↔ W' b) := fun b hb hba =>
          ih _ hl b (mem_before (hl ▸ h) hasymm (hl ▸ hb) hba)
        rw [hW a, hW' a]
        refine and_congr_right fun _ => ⟨fun hb b hWb hba => ?_, fun hb b hWb hba => ?_⟩
        · exact hb b ((hbefore b ((hW' b).mp hWb).1 hba).mpr hWb) hba
        · exact hb b ((hbefore b ((hW b).mp hWb).1 hba).mp hWb) hba
  intro c
  by_cases hc : c ∈ l
  · exact hpre l [] (List.append_nil l).symm c hc
  · rw [hW c, hW' c]
    simp [hc]

end Speecher
