import Speecher.Foundations.EditScripts

/-!
# How far a correction is from what it corrects

Both ports measure a correction by its edit distance in UTF-16 code units, with two rows that change places each round:
the desktop holds two units to be the same when they fold to the same case, Android is given case-folded texts and
compares the units themselves. `twoRows` is the algorithm they share.

* `twoRows_fst`: after every round the previous row is the last row of the distances.
* `distances_are_levenshtein`: both return the length of the shortest edit script, with what follows from that.
-/

namespace Speecher.CorrectionDistance

section TwoRows

variable {α : Type*} (same : α → α → Bool)

/-- An entry of the current row. -/
def cell (a b : α) (previous current : List ℕ) (rightIndex : ℕ) : ℕ :=
  min (previous.getD rightIndex 0 + 1)
    (min (current.getD (rightIndex - 1) 0 + 1)
      (previous.getD (rightIndex - 1) 0 + if same a b then 0 else 1))

/-- The current row filled in, for the element at an index of the left list. -/
def fillRow (a : α) (right : List α) (previous current : List ℕ) (leftIndex : ℕ) : List ℕ :=
  (right.zipIdx 1).foldl (fun current b => current.set b.2 (cell same a b.1 previous current b.2))
    (current.set 0 leftIndex)

/-- A round: the current row is filled in, and the rows change places. -/
def fillAndSwap (right : List α) (rows : List ℕ × List ℕ) (a : α × ℕ) : List ℕ × List ℕ :=
  (fillRow same a.1 right rows.1 rows.2 a.2, rows.1)

/-- The previous row and the current one after all rounds. -/
def twoRows (left right : List α) : List ℕ × List ℕ :=
  (left.zipIdx 1).foldl (fillAndSwap same right)
    (List.range (right.length + 1), List.replicate (right.length + 1) 0)

variable {same}

theorem nextRow_length (same : α → α → Bool) (a : α) (right : List α) (previous : List ℕ) (current : ℕ)
    (h : previous.length = right.length + 1) : (nextRow same a right previous current).length = right.length + 1 := by
  induction right generalizing previous current with
  | nil =>
    obtain ⟨p, rfl⟩ := List.length_eq_one_iff.mp h
    rfl
  | cons b right ih =>
    match previous, h with
    | diagonal :: above :: previous, h =>
      rw [nextRow, List.length_cons, ih _ _ (Nat.succ.inj h), List.length_cons]

/-- Filling in a row from an index on. -/
theorem fillRow_from (a : α) (right : List α) (before diagonals done rest : List ℕ) (diagonal current : ℕ)
    (hbefore : before.length = done.length) (hdiagonals : diagonals.length = right.length)
    (hrest : rest.length = right.length) :
    (right.zipIdx (done.length + 1)).foldl
        (fun row b => row.set b.2 (cell same a b.1 (before ++ diagonal :: diagonals) row b.2))
        (done ++ current :: rest) =
      done ++ nextRow same a right (diagonal :: diagonals) current := by
  induction right generalizing before diagonals done rest diagonal current with
  | nil =>
    obtain rfl := List.length_eq_zero_iff.mp hrest
    obtain rfl := List.length_eq_zero_iff.mp hdiagonals
    rfl
  | cons b right ih =>
    obtain ⟨above, diagonals, rfl⟩ := List.exists_cons_of_length_eq_add_one hdiagonals
    obtain ⟨old, rest, rfl⟩ := List.exists_cons_of_length_eq_add_one hrest
    have hcell : cell same a b (before ++ diagonal :: above :: diagonals) (done ++ current :: old :: rest)
        (done.length + 1) =
        min (above + 1) (min (current + 1) (diagonal + if same a b then 0 else 1)) := by
      have habove : (before ++ diagonal :: above :: diagonals).getD (done.length + 1) 0 = above := by
        rw [← hbefore]
        simp
      have hdiagonal : (before ++ diagonal :: above :: diagonals).getD done.length 0 = diagonal := by
        rw [← hbefore]
        simp
      have hleft : (done ++ current :: old :: rest).getD done.length 0 = current := by simp
      rw [cell, Nat.add_sub_cancel, habove, hdiagonal, hleft]
    have hset : (done ++ current :: old :: rest).set (done.length + 1)
        (min (above + 1) (min (current + 1) (diagonal + if same a b then 0 else 1))) =
        (done ++ [current]) ++ min (above + 1) (min (current + 1) (diagonal + if same a b then 0 else 1)) :: rest := by
      rw [List.set_append_right _ _ (Nat.le_succ _), Nat.succ_eq_add_one, Nat.add_sub_cancel_left]
      simp
    have hnext := ih (before ++ [diagonal]) diagonals (done ++ [current]) rest above
      (min (above + 1) (min (current + 1) (diagonal + if same a b then 0 else 1))) (by simp [hbefore])
      (Nat.succ.inj hdiagonals) (Nat.succ.inj hrest)
    rw [List.zipIdx_cons, List.foldl_cons, hcell, hset, nextRow]
    simpa using hnext

/-- **A filled row is the next row of distances.** -/
theorem fillRow_eq (a : α) (right : List α) (previous current : List ℕ) (leftIndex : ℕ)
    (hprevious : previous.length = right.length + 1) (hcurrent : current.length = right.length + 1) :
    fillRow same a right previous current leftIndex = nextRow same a right previous leftIndex := by
  obtain ⟨diagonal, diagonals, rfl⟩ := List.exists_cons_of_length_eq_add_one hprevious
  obtain ⟨old, rest, rfl⟩ := List.exists_cons_of_length_eq_add_one hcurrent
  exact fillRow_from a right [] diagonals [] rest diagonal leftIndex rfl (Nat.succ.inj hprevious)
    (Nat.succ.inj hcurrent)

/-- The rounds compute the rows of distances, whichever of the two rows they are written to. -/
theorem foldl_rows (left right : List α) (previous current : List ℕ) (index : ℕ)
    (hprevious : previous.length = right.length + 1) (hcurrent : current.length = right.length + 1) :
    ((left.zipIdx (index + 1)).foldl (fillAndSwap same right) (previous, current)).1 =
        (left.foldl (fun state a => (nextRow same a right state.1 (state.2 + 1), state.2 + 1)) (previous, index)).1 ∧
      ((left.zipIdx (index + 1)).foldl (fillAndSwap same right) (previous, current)).1.length = right.length + 1 := by
  induction left generalizing previous current index with
  | nil => exact ⟨rfl, hprevious⟩
  | cons a left ih =>
    have hrow := nextRow_length same a right previous (index + 1) hprevious
    rw [List.zipIdx_cons, List.foldl_cons, List.foldl_cons, fillAndSwap,
      fillRow_eq a right previous current (index + 1) hprevious hcurrent]
    exact ih _ previous (index + 1) hrow hprevious

theorem twoRows_fst (same : α → α → Bool) (left right : List α) :
    (twoRows same left right).1 = lastRow same right left ∧
      (twoRows same left right).1.length = right.length + 1 :=
  foldl_rows left right _ _ 0 List.length_range List.length_replicate

theorem twoRows_last (left right : List α) : (twoRows same left right).1.getLastD 0 = editDistance same left right := by
  rw [(twoRows_fst same left right).1, editDistance]

theorem twoRows_getD (left right : List α) :
    (twoRows same left right).1.getD right.length 0 = editDistance same left right := by
  obtain ⟨-, hlength⟩ := twoRows_fst same left right
  rw [← twoRows_last, List.getLastD_eq_getLast?, List.getLast?_eq_getElem?, hlength, Nat.add_sub_cancel,
    List.getD_eq_getElem?_getD]

end TwoRows

/-! ## The two ports -/

/-- A string, in UTF-16 code units. -/
abbrev CodeUnits := List UInt16

/-- Desktop: `previous.last()`, units compared case-folded. -/
def Desktop.editDistance (toCaseFolded : UInt16 → UInt16) (left right : CodeUnits) : ℕ :=
  (twoRows (fun a b => decide (toCaseFolded a = toCaseFolded b)) left right).1.getLastD 0

/-- Android: `previous[right.length]`. -/
def Android.editDistance (left right : CodeUnits) : ℕ :=
  (twoRows (fun a b => decide (a = b)) left right).1.getD right.length 0

theorem desktop_eq (toCaseFolded : UInt16 → UInt16) (left right : CodeUnits) :
    Desktop.editDistance toCaseFolded left right =
      Speecher.editDistance (fun a b => decide (toCaseFolded a = toCaseFolded b)) left right := twoRows_last left right

theorem android_eq (left right : CodeUnits) :
    Android.editDistance left right = Speecher.editDistance (fun a b => decide (a = b)) left right :=
  twoRows_getD left right

/-- Texts that are the same unit by unit. -/
theorem forall₂_units {β : Type*} [DecidableEq β] {f : UInt16 → β} {left right : CodeUnits} :
    List.Forall₂ (fun a b => decide (f a = f b) = true) left right ↔ left.map f = right.map f := by
  simp only [decide_eq_true_iff]
  rw [← List.forall₂_map_right_iff (R := fun a b => f a = b), ← List.forall₂_map_left_iff (R := Eq),
    List.forall₂_eq_eq_eq]

theorem isLeast_units {β : Type*} [DecidableEq β] (f : UInt16 → β) (left right : CodeUnits) :
    IsLeast {n | ∃ text, EditedBy n left text ∧ text.map f = right.map f}
      (Speecher.editDistance (fun a b => decide (f a = f b)) left right) := by
  have hleast := isLeast_editDistance (fun a b => decide (f a = f b)) (fun _ => decide_eq_true rfl) left right
  simpa only [forall₂_units] using hleast

section Ports

variable (toCaseFolded : UInt16 → UInt16) (left right : CodeUnits)

theorem desktop_isLeast :
    IsLeast {n | ∃ text, EditedBy n left text ∧ text.map toCaseFolded = right.map toCaseFolded}
      (Desktop.editDistance toCaseFolded left right) := by
  rw [desktop_eq]
  exact isLeast_units toCaseFolded left right

theorem android_isLeast : IsLeast {n | EditedBy n left right} (Android.editDistance left right) := by
  rw [android_eq]
  have hleast := isLeast_units (fun unit => unit) left right
  simpa only [List.map_id', exists_eq_right] using hleast

/-- Android measures folded texts as the desktop measures the texts. -/
theorem android_folded : Android.editDistance (left.map toCaseFolded) (right.map toCaseFolded) =
    Desktop.editDistance toCaseFolded left right := by
  rw [android_eq, desktop_eq, editDistance_map toCaseFolded]

/-- What follows of a distance that comes from a comparison of the units. -/
theorem units_bounds {β : Type*} [DecidableEq β] (f : UInt16 → β) :
    (Speecher.editDistance (fun a b => decide (f a = f b)) left right = 0 ↔ left.map f = right.map f) ∧
    Speecher.editDistance (fun a b => decide (f a = f b)) left right =
      Speecher.editDistance (fun a b => decide (f a = f b)) right left ∧
    Speecher.editDistance (fun a b => decide (f a = f b)) left right ≤ max left.length right.length ∧
    left.length ≤ right.length + Speecher.editDistance (fun a b => decide (f a = f b)) left right ∧
    right.length ≤ left.length + Speecher.editDistance (fun a b => decide (f a = f b)) left right := by
  have hsame (a : UInt16) : decide (f a = f a) = true := decide_eq_true rfl
  refine ⟨(editDistance_eq_zero_iff hsame left right).trans forall₂_units, ?_, editDistance_le_max left right,
    length_le_editDistance hsame left right⟩
  exact editDistance_comm (fun a b => decide_eq_decide.mpr eq_comm) left right

/-- **Both ports return the Levenshtein distance**, the desktop up to case: the length of the shortest script of
insertions, deletions and replacements. It is zero for texts that are equal so and for no others, the same both ways, at
most the longer length and at least the difference of the lengths; and the ports agree on folded texts. -/
theorem distances_are_levenshtein :
    (IsLeast {n | ∃ text, EditedBy n left text ∧ text.map toCaseFolded = right.map toCaseFolded}
        (Desktop.editDistance toCaseFolded left right) ∧
      IsLeast {n | EditedBy n left right} (Android.editDistance left right)) ∧
    ((Desktop.editDistance toCaseFolded left right = 0 ↔ left.map toCaseFolded = right.map toCaseFolded) ∧
      (Android.editDistance left right = 0 ↔ left = right)) ∧
    (Desktop.editDistance toCaseFolded left right = Desktop.editDistance toCaseFolded right left ∧
      Android.editDistance left right = Android.editDistance right left) ∧
    (Desktop.editDistance toCaseFolded left right ≤ max left.length right.length ∧
      Android.editDistance left right ≤ max left.length right.length) ∧
    ((left.length ≤ right.length + Desktop.editDistance toCaseFolded left right ∧
        right.length ≤ left.length + Desktop.editDistance toCaseFolded left right) ∧
      left.length ≤ right.length + Android.editDistance left right ∧
        right.length ≤ left.length + Android.editDistance left right) ∧
    Android.editDistance (left.map toCaseFolded) (right.map toCaseFolded) =
      Desktop.editDistance toCaseFolded left right ∧
    ((∀ unit ∈ left ++ right, toCaseFolded unit = unit) →
      Desktop.editDistance toCaseFolded left right = Android.editDistance left right) := by
  obtain ⟨hzero, hcomm, hmax, hlengths⟩ := units_bounds left right toCaseFolded
  obtain ⟨hzero', hcomm', hmax', hlengths'⟩ := units_bounds left right fun unit => unit
  refine ⟨⟨desktop_isLeast toCaseFolded left right, android_isLeast left right⟩, ?_, ?_, ?_, ?_,
    android_folded toCaseFolded left right, fun hfolded => ?_⟩
  · rw [desktop_eq, android_eq]
    refine ⟨hzero, ?_⟩
    simpa only [List.map_id'] using hzero'
  · rw [desktop_eq, desktop_eq, android_eq, android_eq]
    exact ⟨hcomm, hcomm'⟩
  · rw [desktop_eq, android_eq]
    exact ⟨hmax, hmax'⟩
  · rw [desktop_eq, android_eq]
    exact ⟨hlengths, hlengths'⟩
  · have hleft : left.map toCaseFolded = left :=
      (List.map_congr_left fun unit hunit => hfolded unit (List.mem_append_left _ hunit)).trans (List.map_id' left)
    have hright : right.map toCaseFolded = right :=
      (List.map_congr_left fun unit hunit => hfolded unit (List.mem_append_right _ hunit)).trans (List.map_id' right)
    rw [← android_folded toCaseFolded left right, hleft, hright]

end Ports

/-- The desktop takes no difference of case for an edit, and Android does. -/
theorem ports_differ_by_case : ¬ ∀ left right : CodeUnits,
    Desktop.editDistance (fun unit => if 65 ≤ unit ∧ unit ≤ 90 then unit + 32 else unit) left right =
      Android.editDistance left right :=
  fun hall => absurd (hall [65] [97]) (by decide)

end Speecher.CorrectionDistance
