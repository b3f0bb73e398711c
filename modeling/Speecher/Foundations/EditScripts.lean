import Mathlib.Data.List.Forall2
import Mathlib.Order.Bounds.Defs
import Speecher.Foundations.EditDistance

/-!
# Edit scripts

A script of single edits, each at any place, leads from one list to another (`EditedBy`). The edit distance is the
length of the shortest script that leads to a list the same as the other element by element (`isLeast_distance`),
whatever is held to be the same, as long as every element is the same as itself. Scripts can be read backwards, so that
the rows compute the same (`isLeast_editDistance`).
-/

namespace Speecher

variable {α β : Type*}

/-- One insertion, deletion or replacement. -/
inductive SingleEdit : List α → List α → Prop
  | insert (front back : List α) (a : α) : SingleEdit (front ++ back) (front ++ a :: back)
  | delete (front back : List α) (a : α) : SingleEdit (front ++ a :: back) (front ++ back)
  | replace (front back : List α) (a b : α) : SingleEdit (front ++ a :: back) (front ++ b :: back)

/-- A script of so many edits leads from one list to another. -/
inductive EditedBy : ℕ → List α → List α → Prop
  | nil (l : List α) : EditedBy 0 l l
  | cons {n : ℕ} {l m r : List α} : SingleEdit l m → EditedBy n m r → EditedBy (n + 1) l r

variable {l r m : List α}

theorem SingleEdit.cons (h : SingleEdit l r) (a : α) : SingleEdit (a :: l) (a :: r) := by
  cases h with
  | insert front back b => exact .insert (a :: front) back b
  | delete front back b => exact .delete (a :: front) back b
  | replace front back b c => exact .replace (a :: front) back b c

theorem SingleEdit.reverse (h : SingleEdit l r) : SingleEdit l.reverse r.reverse := by
  cases h with
  | insert front back a => simpa using SingleEdit.insert back.reverse front.reverse a
  | delete front back a => simpa using SingleEdit.delete back.reverse front.reverse a
  | replace front back a b => simpa using SingleEdit.replace back.reverse front.reverse a b

/-- An edit changes the length by one at most. -/
theorem SingleEdit.length_le (h : SingleEdit l r) : l.length ≤ r.length + 1 ∧ r.length ≤ l.length + 1 := by
  cases h with
  | insert front back a => simp only [List.length_append, List.length_cons]; omega
  | delete front back a => simp only [List.length_append, List.length_cons]; omega
  | replace front back a b => simp only [List.length_append, List.length_cons]; omega

namespace EditedBy

variable {n : ℕ}

theorem cons_cons (h : EditedBy n l r) (a : α) : EditedBy n (a :: l) (a :: r) := by
  induction h with
  | nil l => exact .nil _
  | cons hedit _ ih => exact .cons (hedit.cons a) ih

theorem reverse (h : EditedBy n l r) : EditedBy n l.reverse r.reverse := by
  induction h with
  | nil l => exact .nil _
  | cons hedit _ ih => exact .cons hedit.reverse ih

theorem length_le (h : EditedBy n l r) : l.length ≤ r.length + n ∧ r.length ≤ l.length + n := by
  induction h with
  | nil l => exact ⟨le_rfl, le_rfl⟩
  | cons hedit _ ih =>
    obtain ⟨hle, hge⟩ := hedit.length_le
    omega

end EditedBy

variable {same : α → α → Bool}

/-! ## No script is shorter -/

theorem distance_le_left (same : α → α → Bool) (a : α) (l r : List α) :
    distance same (a :: l) r ≤ distance same l r + 1 := by
  cases r with
  | nil => simp
  | cons b r =>
    rw [distance_cons]
    exact min_le_left _ _

theorem distance_le_right (same : α → α → Bool) (b : α) (l r : List α) :
    distance same l (b :: r) ≤ distance same l r + 1 := by
  cases l with
  | nil => simp
  | cons a l =>
    rw [distance_cons]
    exact (min_le_right _ _).trans (min_le_left _ _)

theorem distance_le_both (same : α → α → Bool) (a b : α) (l r : List α) :
    distance same (a :: l) (b :: r) ≤ distance same l r + 1 := by
  rw [distance_cons]
  refine (min_le_right _ _).trans ((min_le_right _ _).trans (Nat.add_le_add_left ?_ _))
  split_ifs
  · exact Nat.zero_le 1
  · exact le_rfl

/-- Without its first element a list is at most one edit further away. -/
theorem distance_tail_le (a : α) (l r : List α) : distance same l r ≤ distance same (a :: l) r + 1 := by
  induction r with
  | nil => simp only [distance_nil_right, List.length_cons]; omega
  | cons b r ih =>
    have hright := distance_le_right same b l r
    rw [distance_cons]
    omega

/-- So it is with another first element. -/
theorem distance_head_le (a b : α) (l r : List α) : distance same (b :: l) r ≤ distance same (a :: l) r + 1 := by
  induction r with
  | nil => simp only [distance_nil_right, List.length_cons]; omega
  | cons c r ih =>
    have hleft := distance_le_left same b l (c :: r)
    have hright := distance_le_right same c (b :: l) r
    have hboth := distance_le_both same b c l r
    rw [distance_cons a]
    omega

/-- What holds of two lists holds of them after a common element. -/
theorem distance_cons_le (h : ∀ r, distance same l r ≤ distance same m r + 1) (a : α) (r : List α) :
    distance same (a :: l) r ≤ distance same (a :: m) r + 1 := by
  induction r with
  | nil =>
    have hnil := h []
    simp only [distance_nil_right, List.length_cons] at hnil ⊢
    omega
  | cons b r ih =>
    have hcons := h (b :: r)
    have hrest := h r
    rw [distance_cons, distance_cons]
    omega

/-- **An edit brings a list at most one nearer.** -/
theorem SingleEdit.distance_le (h : SingleEdit l m) (r : List α) : distance same l r ≤ distance same m r + 1 := by
  cases h with
  | insert front back a =>
    induction front generalizing r with
    | nil => exact distance_tail_le a back r
    | cons b front ih => exact distance_cons_le ih b r
  | delete front back a =>
    induction front generalizing r with
    | nil => exact distance_le_left same a back r
    | cons b front ih => exact distance_cons_le ih b r
  | replace front back a b =>
    induction front generalizing r with
    | nil => exact distance_head_le b a back r
    | cons c front ih => exact distance_cons_le ih c r

theorem distance_eq_zero (h : List.Forall₂ (fun a b => same a b = true) l r) : distance same l r = 0 := by
  induction h with
  | nil => exact distance_nil_left []
  | cons hsame _ ih =>
    rw [distance_cons, ih, if_pos hsame]
    exact Nat.min_eq_zero_iff.mpr (.inr (Nat.min_eq_zero_iff.mpr (.inr rfl)))

theorem EditedBy.distance_le {n : ℕ} (h : EditedBy n l m) (hsame : List.Forall₂ (fun a b => same a b = true) m r) :
    distance same l r ≤ n := by
  induction h with
  | nil l => exact (distance_eq_zero hsame).le
  | cons hedit _ ih => exact (hedit.distance_le r).trans (Nat.succ_le_succ (ih hsame))

/-! ## A script as short -/

theorem edited_insertAll (r : List α) : EditedBy r.length [] r := by
  induction r with
  | nil => exact .nil []
  | cons b r ih => exact .cons (.insert [] [] b) (ih.cons_cons b)

theorem edited_deleteAll (l : List α) : EditedBy l.length l [] := by
  induction l with
  | nil => exact .nil []
  | cons a l ih => exact .cons (.delete [] l a) ih

/-- **There is a script as long as the distance.** -/
theorem exists_edited (hsame : ∀ a, same a a = true) (l r : List α) :
    ∃ m, EditedBy (distance same l r) l m ∧ List.Forall₂ (fun a b => same a b = true) m r := by
  induction l generalizing r with
  | nil =>
    rw [distance_nil_left]
    exact ⟨r, edited_insertAll r, List.forall₂_same.mpr fun a _ => hsame a⟩
  | cons a l ih =>
    induction r with
    | nil =>
      rw [distance_nil_right]
      exact ⟨[], edited_deleteAll _, .nil⟩
    | cons b r ih' =>
      rw [distance_cons]
      rcases min_choice (distance same l (b :: r) + 1)
        (min (distance same (a :: l) r + 1) (distance same l r + if same a b then 0 else 1)) with hmin | hmin
      · rw [hmin]
        obtain ⟨m, hedited, hm⟩ := ih (b :: r)
        exact ⟨m, .cons (.delete [] l a) hedited, hm⟩
      rw [hmin]
      rcases min_choice (distance same (a :: l) r + 1) (distance same l r + if same a b then 0 else 1) with
        hmin | hmin
      · rw [hmin]
        obtain ⟨m, hedited, hm⟩ := ih'
        exact ⟨b :: m, .cons (.insert [] (a :: l) b) (hedited.cons_cons b), .cons (hsame b) hm⟩
      · rw [hmin]
        obtain ⟨m, hedited, hm⟩ := ih r
        split_ifs with hab
        · exact ⟨a :: m, hedited.cons_cons a, .cons hab hm⟩
        · exact ⟨b :: m, .cons (.replace [] l a b) (hedited.cons_cons b), .cons (hsame b) hm⟩

/-- **The distance is the length of the shortest script.** -/
theorem isLeast_distance (hsame : ∀ a, same a a = true) (l r : List α) :
    IsLeast {n | ∃ m, EditedBy n l m ∧ List.Forall₂ (fun a b => same a b = true) m r} (distance same l r) :=
  ⟨exists_edited hsame l r, fun _ ⟨_, hedited, hm⟩ => hedited.distance_le hm⟩

theorem isLeast_editDistance (same : α → α → Bool) (hsame : ∀ a, same a a = true) (l r : List α) :
    IsLeast {n | ∃ m, EditedBy n l m ∧ List.Forall₂ (fun a b => same a b = true) m r} (editDistance same l r) := by
  rw [editDistance_eq]
  obtain ⟨⟨m, hedited, hm⟩, hleast⟩ := isLeast_distance hsame l.reverse r.reverse
  refine ⟨⟨m.reverse, ?_, ?_⟩, fun n ⟨m, hedited, hm⟩ => hleast ⟨m.reverse, hedited.reverse, ?_⟩⟩
  · simpa using hedited.reverse
  · simpa using List.rel_reverse hm
  · exact List.rel_reverse hm

/-! ## Bounds -/

theorem distance_le_max (same : α → α → Bool) (l r : List α) : distance same l r ≤ max l.length r.length := by
  induction l generalizing r with
  | nil => simp
  | cons a l ih =>
    cases r with
    | nil => simp
    | cons b r =>
      have hboth := distance_le_both same a b l r
      have hrest := ih r
      simp only [List.length_cons]
      omega

theorem editDistance_le_max (l r : List α) : editDistance same l r ≤ max l.length r.length := by
  rw [editDistance_eq]
  simpa using distance_le_max same l.reverse r.reverse

/-- The distance is at least the difference of the lengths. -/
theorem length_le_editDistance (hsame : ∀ a, same a a = true) (l r : List α) :
    l.length ≤ r.length + editDistance same l r ∧ r.length ≤ l.length + editDistance same l r := by
  obtain ⟨m, hedited, hm⟩ := (isLeast_editDistance same hsame l r).1
  rw [← hm.length_eq]
  exact hedited.length_le

theorem editDistance_eq_zero_iff (hsame : ∀ a, same a a = true) (l r : List α) :
    editDistance same l r = 0 ↔ List.Forall₂ (fun a b => same a b = true) l r := by
  constructor
  · intro hzero
    obtain ⟨m, hedited, hm⟩ := (isLeast_editDistance same hsame l r).1
    rw [hzero] at hedited
    cases hedited
    exact hm
  · exact fun hforall => Nat.le_zero.mp ((isLeast_editDistance same hsame l r).2 ⟨l, .nil l, hforall⟩)

/-- What is the same when its images are equal is as far apart as they are. -/
theorem distance_map (f : α → β) [DecidableEq β] (l r : List α) :
    distance (fun a b => decide (f a = f b)) l r = distance (fun a b => decide (a = b)) (l.map f) (r.map f) := by
  induction l generalizing r with
  | nil => simp
  | cons a l ih =>
    induction r with
    | nil => simp
    | cons b r ih' => rw [List.map_cons, List.map_cons, distance_cons, distance_cons, ih, ih, ih', List.map_cons]; rfl

theorem editDistance_map (f : α → β) [DecidableEq β] (l r : List α) :
    editDistance (fun a b => decide (f a = f b)) l r =
      editDistance (fun a b => decide (a = b)) (l.map f) (r.map f) := by
  rw [editDistance_eq, editDistance_eq, distance_map, List.map_reverse, List.map_reverse]

end Speecher
