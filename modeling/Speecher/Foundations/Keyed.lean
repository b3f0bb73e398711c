import Mathlib.Data.List.Basic
import Mathlib.Tactic.Common

/-!
# Lists unique by a key

Two entries of a list can pass for one: `same a b`. A list whose entries are all apart stays so when an
entry goes, and when one is put in or changed that is apart from the others; an entry taken out and put
back at its place leaves the list as it was.

* `Unique.append`, `Unique.set`, `Unique.insertIdx`, `Unique.eraseIdx`: what keeps a list unique.
* `Unique.apart`: an entry's place sets it apart.
-/

namespace Speecher

variable {α : Type*} {same : α → α → Bool} {l : List α}

/-- No two entries of the list pass for one. -/
def Unique (same : α → α → Bool) (l : List α) : Prop := l.Pairwise fun a b => same a b = false

instance (same : α → α → Bool) (l : List α) : Decidable (Unique same l) :=
  inferInstanceAs (Decidable (l.Pairwise fun a b => same a b = false))

namespace Unique

theorem nil : Unique same [] := List.Pairwise.nil

theorem sublist {l' : List α} (h : Unique same l) (hl : l'.Sublist l) : Unique same l' := List.Pairwise.sublist hl h

theorem eraseIdx (h : Unique same l) (i : ℕ) : Unique same (l.eraseIdx i) := h.sublist (List.eraseIdx_sublist l i)

theorem append (h : Unique same l) {a : α} (ha : ∀ b ∈ l, same b a = false) : Unique same (l ++ [a]) :=
  List.pairwise_append.mpr ⟨h, List.pairwise_singleton _ _, fun b hb _ hc => List.mem_singleton.mp hc ▸ ha b hb⟩

theorem perm (hcomm : ∀ a b, same a b = same b a) {l' : List α} (h : Unique same l) (hl : l.Perm l') :
    Unique same l' :=
  (hl.pairwise_iff fun {a b} (hab : same a b = false) => (hcomm b a).trans hab).mp h

theorem insertIdx (hcomm : ∀ a b, same a b = same b a) (h : Unique same l) {a : α}
    (ha : ∀ b ∈ l, same b a = false) {i : ℕ} (hi : i ≤ l.length) : Unique same (l.insertIdx i a) := by
  refine perm hcomm (l := a :: l) (List.pairwise_cons.mpr ⟨fun b hb => ?_, h⟩) (List.perm_insertIdx a l hi).symm
  rw [hcomm]
  exact ha b hb

theorem apart (hcomm : ∀ a b, same a b = same b a) (h : Unique same l) {i j : ℕ} (hi : i < l.length)
    (hj : j < l.length) (hij : i ≠ j) : same l[i] l[j] = false := by
  rcases Nat.lt_or_gt_of_ne hij with hlt | hlt
  · exact List.pairwise_iff_getElem.mp h i j hi hj hlt
  · rw [hcomm]
    exact List.pairwise_iff_getElem.mp h j i hj hi hlt

theorem set (hcomm : ∀ a b, same a b = same b a) (h : Unique same l) {a : α} {i : ℕ}
    (ha : ∀ j (hj : j < l.length), j ≠ i → same l[j] a = false) : Unique same (l.set i a) := by
  refine List.pairwise_iff_getElem.mpr fun j k hj hk hjk => ?_
  rw [List.length_set] at hj hk
  rw [List.getElem_set, List.getElem_set]
  split
  · rw [if_neg (by omega), hcomm]
    exact ha k hk (by omega)
  · split
    · exact ha j hj (by omega)
    · exact List.pairwise_iff_getElem.mp h j k hj hk hjk

/-- What is left when an entry is taken out is apart from it. -/
theorem apart_of_mem_eraseIdx (hcomm : ∀ a b, same a b = same b a) (h : Unique same l) {i : ℕ} (hi : i < l.length)
    {b : α} (hb : b ∈ l.eraseIdx i) : same b l[i] = false := by
  obtain ⟨j, hj, hne, rfl⟩ := List.mem_eraseIdx_iff_getElem.mp hb
  exact h.apart hcomm hj hi hne

end Unique

/-- An entry taken out and put back at its place. -/
theorem insertIdx_eraseIdx_self {i : ℕ} (hi : i < l.length) : (l.eraseIdx i).insertIdx i l[i] = l := by
  induction l generalizing i with
  | nil => cases hi
  | cons a l ih =>
    cases i with
    | zero => rfl
    | succ i =>
      rw [List.eraseIdx_cons_succ, List.insertIdx_succ_cons, List.getElem_cons_succ, ih (Nat.lt_of_succ_lt_succ hi)]

end Speecher
