import Mathlib.Data.List.Basic
import Mathlib.Order.Bounds.Basic
import Mathlib.Order.MinMax

/-!
# Longest common subsequences

`common` is the length of a longest common subsequence of two lists (`common_isGreatest`), by recursion on their heads.
It grows with either list (`common_mono`), and a head or a tail that both have is shared whole
(`common_append_left`, `common_append_right`).
-/

namespace Speecher

variable {κ : Type*} [DecidableEq κ]

/-- How much two lists share in order. -/
def common : List κ → List κ → ℕ
  | [], _ => 0
  | _ :: _, [] => 0
  | x :: xs, y :: ys => if x = y then common xs ys + 1 else max (common xs (y :: ys)) (common (x :: xs) ys)
termination_by xs ys => xs.length + ys.length

/-- The lengths of the subsequences that two lists share. -/
def commonLengths (xs ys : List κ) : Set ℕ := {n | ∃ l : List κ, l.Sublist xs ∧ l.Sublist ys ∧ l.length = n}

@[simp] theorem common_nil_left (ys : List κ) : common [] ys = 0 := by rw [common]

@[simp] theorem common_nil_right (xs : List κ) : common xs [] = 0 := by cases xs <;> rw [common]

theorem common_cons_self (x : κ) (xs ys : List κ) : common (x :: xs) (x :: ys) = common xs ys + 1 := by
  rw [common, if_pos rfl]

theorem common_cons_ne {x y : κ} (h : x ≠ y) (xs ys : List κ) :
    common (x :: xs) (y :: ys) = max (common xs (y :: ys)) (common (x :: xs) ys) := by
  rw [common, if_neg h]

theorem common_mem (xs ys : List κ) : common xs ys ∈ commonLengths xs ys := by
  induction xs, ys using common.induct with
  | case1 ys => exact ⟨[], List.nil_sublist _, List.nil_sublist _, (common_nil_left ys).symm⟩
  | case2 x xs => exact ⟨[], List.nil_sublist _, List.nil_sublist _, (common_nil_right _).symm⟩
  | case3 xs y ys ih =>
    obtain ⟨l, hxs, hys, hlength⟩ := ih
    exact ⟨y :: l, hxs.cons_cons y, hys.cons_cons y, by rw [common_cons_self, List.length_cons, hlength]⟩
  | case4 x xs y ys hne ihx ihy =>
    rw [common_cons_ne hne]
    rcases max_choice (common xs (y :: ys)) (common (x :: xs) ys) with hmax | hmax <;> rw [hmax]
    · obtain ⟨l, hxs, hys, hlength⟩ := ihx
      exact ⟨l, hxs.cons x, hys, hlength⟩
    · obtain ⟨l, hxs, hys, hlength⟩ := ihy
      exact ⟨l, hxs, hys.cons y, hlength⟩

theorem length_le_common {xs ys l : List κ} (hxs : l.Sublist xs) (hys : l.Sublist ys) : l.length ≤ common xs ys := by
  induction xs, ys using common.induct generalizing l with
  | case1 ys => rw [List.sublist_nil.mp hxs, List.length_nil]; exact Nat.zero_le _
  | case2 x xs => rw [List.sublist_nil.mp hys, List.length_nil]; exact Nat.zero_le _
  | case3 xs y ys ih =>
    have htail := ih hxs.tail hys.tail
    rw [List.length_tail] at htail
    rw [common_cons_self]
    omega
  | case4 x xs y ys hne ihx ihy =>
    rw [common_cons_ne hne]
    cases hxs with
    | cons _ hxs => exact (ihx hxs hys).trans (le_max_left _ _)
    | cons_cons _ hxs =>
      -- The first of `l` is `x`, so `y` is no part of it.
      cases hys with
      | cons _ hys => exact (ihy (hxs.cons_cons x) hys).trans (le_max_right _ _)
      | cons_cons _ hys => exact absurd rfl hne

/-- **The longest.** -/
theorem common_isGreatest (xs ys : List κ) : IsGreatest (commonLengths xs ys) (common xs ys) := by
  refine ⟨common_mem xs ys, ?_⟩
  rintro n ⟨l, hxs, hys, rfl⟩
  exact length_le_common hxs hys

theorem common_le_left (xs ys : List κ) : common xs ys ≤ xs.length := by
  obtain ⟨l, hxs, -, hlength⟩ := common_mem xs ys
  exact hlength ▸ hxs.length_le

theorem common_le_right (xs ys : List κ) : common xs ys ≤ ys.length := by
  obtain ⟨l, -, hys, hlength⟩ := common_mem xs ys
  exact hlength ▸ hys.length_le

theorem common_mono {xs xs' ys ys' : List κ} (hxs : xs.Sublist xs') (hys : ys.Sublist ys') :
    common xs ys ≤ common xs' ys' := by
  obtain ⟨l, hlx, hly, hlength⟩ := common_mem xs ys
  exact hlength ▸ length_le_common (hlx.trans hxs) (hly.trans hys)

theorem common_reverse (xs ys : List κ) : common xs.reverse ys.reverse = common xs ys := by
  have hle : ∀ xs ys : List κ, common xs ys ≤ common xs.reverse ys.reverse := by
    intro xs ys
    obtain ⟨l, hxs, hys, hlength⟩ := common_mem xs ys
    rw [← hlength, ← List.length_reverse]
    exact length_le_common hxs.reverse hys.reverse
  refine le_antisymm ?_ (hle xs ys)
  have hback := hle xs.reverse ys.reverse
  rwa [List.reverse_reverse, List.reverse_reverse] at hback

/-- A head both lists have is shared whole. -/
theorem common_append_left (head xs ys : List κ) : common (head ++ xs) (head ++ ys) = head.length + common xs ys := by
  induction head with
  | nil => rw [List.nil_append, List.nil_append, List.length_nil, Nat.zero_add]
  | cons x head ih =>
    rw [List.cons_append, List.cons_append, common_cons_self, ih, List.length_cons]
    omega

/-- A tail both lists have is shared whole. -/
theorem common_append_right (xs ys tail : List κ) : common (xs ++ tail) (ys ++ tail) = common xs ys + tail.length := by
  rw [← common_reverse, List.reverse_append, List.reverse_append, common_append_left, common_reverse,
    List.length_reverse, Nat.add_comm]

end Speecher
