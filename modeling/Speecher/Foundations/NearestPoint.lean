import Mathlib.Algebra.Order.Group.Abs
import Mathlib.Algebra.Order.Group.Unbundled.Abs
import Mathlib.Tactic.Linarith

/-!
# The nearest of some points

Points on a line, each with a cost, and the one with the least distance and cost together; the first of several wins.

* `firstMin_split`: what the first least of a list is.
* `nearest_between`: a point that is nearest on both sides of a place is nearest there.
-/

namespace Speecher

section FirstMin

variable {α K : Type*} [LinearOrder K] (score : α → K)

/-- The better of the best so far and another, the best where they are alike. -/
def better (best : Option α) (it : α) : Option α :=
  best.elim (some it) fun found => if score it < score found then some it else some found

/-- The first of the least. -/
def firstMin (l : List α) : Option α := l.foldl (better score) none

/-- The first of the least of a list: less than what stands before it, and no more than what stands behind. -/
structure FirstLeast (before : List α) (it : α) (after : List α) : Prop where
  before_lt : ∀ a ∈ before, score it < score a
  le_after : ∀ a ∈ after, score it ≤ score a

/-- **The fold finds the first least.** -/
theorem foldl_better : ∀ (rest before : List α) (best : α) (after : List α), FirstLeast score before best after →
    ∃ front it back, before ++ best :: after ++ rest = front ++ it :: back ∧
      rest.foldl (better score) (some best) = some it ∧ FirstLeast score front it back
  | [], before, best, after, h => ⟨before, best, after, by rw [List.append_nil], rfl, h⟩
  | next :: rest, before, best, after, h => by
    rw [List.foldl_cons, better, Option.elim_some]
    by_cases hlt : score next < score best
    · rw [if_pos hlt]
      have hnext : FirstLeast score (before ++ best :: after) next [] := by
        refine ⟨fun a ha => ?_, fun a ha => nomatch ha⟩
        rcases List.mem_append.mp ha with ha | ha
        · exact hlt.trans (h.before_lt a ha)
        · rcases List.mem_cons.mp ha with rfl | ha
          · exact hlt
          · exact hlt.trans_le (h.le_after a ha)
      obtain ⟨front, it, back, hlist, hfold, hleast⟩ := foldl_better rest _ next [] hnext
      refine ⟨front, it, back, ?_, hfold, hleast⟩
      rw [← hlist, List.append_assoc (before ++ best :: after)]
      rfl
    · rw [if_neg hlt]
      have hbest : FirstLeast score before best (after ++ [next]) := by
        refine ⟨h.before_lt, fun a ha => ?_⟩
        rcases List.mem_append.mp ha with ha | ha
        · exact h.le_after a ha
        · rw [List.mem_singleton.mp ha]
          exact not_lt.mp hlt
      obtain ⟨front, it, back, hlist, hfold, hleast⟩ := foldl_better rest before best (after ++ [next]) hbest
      refine ⟨front, it, back, ?_, hfold, hleast⟩
      rw [← hlist]
      simp

/-- **A list with something in it has a first least.** -/
theorem firstMin_split {l : List α} (h : l ≠ []) :
    ∃ front it back, l = front ++ it :: back ∧ firstMin score l = some it ∧ FirstLeast score front it back := by
  obtain ⟨first, rest, rfl⟩ := List.exists_cons_of_ne_nil h
  exact foldl_better score rest [] first [] ⟨(fun a ha => nomatch ha), fun a ha => nomatch ha⟩

variable {score}

/-- Where a list is split at its first least is what is found. -/
theorem firstMin_of_firstLeast {front : List α} {it : α} {back : List α} (h : FirstLeast score front it back) :
    firstMin score (front ++ it :: back) = some it := by
  obtain ⟨front', it', back', hlist, hfound, h'⟩ :=
    firstMin_split score (l := front ++ it :: back) (by simp)
  rw [hfound]
  rcases List.append_eq_append_iff.mp hlist with ⟨middle, rfl, hback⟩ | ⟨middle, rfl, hback⟩
  · cases middle with
    | nil => exact congrArg some (List.cons.inj hback).1.symm
    | cons first middle =>
      obtain ⟨rfl, rfl⟩ := List.cons.inj hback
      have hlt := h'.before_lt it (List.mem_append.mpr (.inr List.mem_cons_self))
      exact absurd hlt (not_lt.mpr (h.le_after it' (List.mem_append.mpr (.inr List.mem_cons_self))))
  · cases middle with
    | nil => exact congrArg some (List.cons.inj hback).1
    | cons first middle =>
      obtain ⟨rfl, rfl⟩ := List.cons.inj hback
      have hlt := h.before_lt it' (List.mem_append.mpr (.inr List.mem_cons_self))
      exact absurd hlt (not_lt.mpr (h'.le_after it (List.mem_append.mpr (.inr List.mem_cons_self))))

/-- Scores alike on a list find alike. -/
theorem firstMin_congr {score' : α → K} {l : List α} (h : ∀ a ∈ l, score a = score' a) :
    firstMin score l = firstMin score' l := by
  by_cases hne : l = []
  · rw [hne]
    rfl
  · obtain ⟨front, it, back, rfl, hfound, hleast⟩ := firstMin_split score hne
    have hit := h it (List.mem_append.mpr (.inr List.mem_cons_self))
    have hleast' : FirstLeast score' front it back := by
      refine ⟨fun a ha => ?_, fun a ha => ?_⟩
      · rw [← hit, ← h a (List.mem_append.mpr (.inl ha))]
        exact hleast.before_lt a ha
      · rw [← hit, ← h a (List.mem_append.mpr (.inr (List.mem_cons_of_mem it ha)))]
        exact hleast.le_after a ha
    rw [hfound, firstMin_of_firstLeast hleast']

theorem mem_of_firstMin {l : List α} {a : α} (h : firstMin score l = some a) : a ∈ l := by
  cases l with
  | nil => exact nomatch h
  | cons first rest =>
    obtain ⟨front, it, back, hlist, hfound, -⟩ := firstMin_split score (List.cons_ne_nil first rest)
    rw [hlist, ← Option.some.inj (hfound.symm.trans h)]
    exact List.mem_append.mpr (.inr List.mem_cons_self)

end FirstMin

section Nearest

variable {α K : Type*} [Field K] [LinearOrder K] [IsStrictOrderedRing K] (place cost : α → K)

/-- The distance of a point and its cost. -/
def distanceTo (x : K) (a : α) : K := |x - place a| + cost a

/-- Going right, a point gains on those to its left. -/
theorem distanceTo_sub_le {x y : K} (h : x ≤ y) {a b : α} (hab : place b ≤ place a) :
    distanceTo place cost y a - distanceTo place cost y b ≤
      distanceTo place cost x a - distanceTo place cost x b := by
  rw [distanceTo, distanceTo, distanceTo, distanceTo]
  rcases abs_cases (y - place a) with ⟨h₁, h₁'⟩ | ⟨h₁, h₁'⟩ <;>
    rcases abs_cases (y - place b) with ⟨h₂, h₂'⟩ | ⟨h₂, h₂'⟩ <;>
    rcases abs_cases (x - place a) with ⟨h₃, h₃'⟩ | ⟨h₃, h₃'⟩ <;>
    rcases abs_cases (x - place b) with ⟨h₄, h₄'⟩ | ⟨h₄, h₄'⟩ <;> linarith

variable {place cost} {front : List α} {it : α} {back : List α}

/-- **A point with none to its right stays the nearest going right.** -/
theorem FirstLeast.right {x y : K} (hxy : x ≤ y) (h : FirstLeast (distanceTo place cost x) front it back)
    (hplace : ∀ a ∈ front ++ it :: back, place a ≤ place it) :
    FirstLeast (distanceTo place cost y) front it back := by
  refine ⟨fun a ha => ?_, fun a ha => ?_⟩
  · have hgain := distanceTo_sub_le place cost hxy (hplace a (List.mem_append.mpr (.inl ha)))
    have hlt := h.before_lt a ha
    linarith
  · have hmem : a ∈ front ++ it :: back := List.mem_append.mpr (.inr (List.mem_cons_of_mem it ha))
    have hgain := distanceTo_sub_le place cost hxy (hplace a hmem)
    have hle := h.le_after a ha
    linarith

/-- **A point that is nearest on both sides is nearest between.** -/
theorem FirstLeast.between {x y z : K} (hxy : x ≤ y) (hyz : y ≤ z)
    (hx : FirstLeast (distanceTo place cost x) front it back)
    (hz : FirstLeast (distanceTo place cost z) front it back) :
    FirstLeast (distanceTo place cost y) front it back := by
  refine ⟨fun a ha => ?_, fun a ha => ?_⟩
  · rcases le_total (place a) (place it) with hplace | hplace
    · have hgain := distanceTo_sub_le place cost hxy hplace
      have hlt := hx.before_lt a ha
      linarith
    · have hgain := distanceTo_sub_le place cost hyz hplace
      have hlt := hz.before_lt a ha
      linarith
  · rcases le_total (place a) (place it) with hplace | hplace
    · have hgain := distanceTo_sub_le place cost hxy hplace
      have hle := hx.le_after a ha
      linarith
    · have hgain := distanceTo_sub_le place cost hyz hplace
      have hle := hz.le_after a ha
      linarith

/-- Of two points at one place the one that is nearest somewhere is never behind the other. -/
theorem FirstLeast.eq_of_place {x z : K} {front' : List α} {it' : α} {back' : List α}
    (hlist : front ++ it :: back = front' ++ it' :: back') (hplace : place it = place it')
    (hx : FirstLeast (distanceTo place cost x) front it back)
    (hz : FirstLeast (distanceTo place cost z) front' it' back') :
    front = front' ∧ it = it' ∧ back = back' := by
  have hcost (w : K) : distanceTo place cost w it - distanceTo place cost w it' = cost it - cost it' := by
    rw [distanceTo, distanceTo, hplace, add_sub_add_left_eq_sub]
  rcases List.append_eq_append_iff.mp hlist with ⟨middle, rfl, hback⟩ | ⟨middle, rfl, hback⟩
  · cases middle with
    | nil =>
      obtain ⟨rfl, rfl⟩ := List.cons.inj hback
      exact ⟨(List.append_nil front).symm, rfl, rfl⟩
    | cons first middle =>
      obtain ⟨rfl, rfl⟩ := List.cons.inj hback
      have hlt := hz.before_lt it (List.mem_append.mpr (.inr List.mem_cons_self))
      have hle := hx.le_after it' (List.mem_append.mpr (.inr List.mem_cons_self))
      have hx' := hcost x
      have hz' := hcost z
      linarith
  · cases middle with
    | nil =>
      obtain ⟨rfl, rfl⟩ := List.cons.inj hback
      exact ⟨List.append_nil front', rfl, rfl⟩
    | cons first middle =>
      obtain ⟨rfl, rfl⟩ := List.cons.inj hback
      have hlt := hx.before_lt it' (List.mem_append.mpr (.inr List.mem_cons_self))
      have hle := hz.le_after it (List.mem_append.mpr (.inr List.mem_cons_self))
      have hx' := hcost x
      have hz' := hcost z
      linarith

/-- **Where what is found on two sides stands at one place, it is one point, and is found between.** -/
theorem nearest_between {l : List α} (hne : l ≠ []) {x y z : K} (hxy : x ≤ y) (hyz : y ≤ z) {a b : α}
    (hx : firstMin (distanceTo place cost x) l = some a) (hz : firstMin (distanceTo place cost z) l = some b)
    (hplace : place a = place b) : firstMin (distanceTo place cost y) l = some a := by
  obtain ⟨front, it, back, rfl, hfoundX, hleastX⟩ := firstMin_split (distanceTo place cost x) hne
  obtain ⟨front', it', back', hlist, hfoundZ, hleastZ⟩ := firstMin_split (distanceTo place cost z) hne
  obtain rfl : it = a := Option.some.inj (hfoundX.symm.trans hx)
  obtain rfl : it' = b := Option.some.inj (hfoundZ.symm.trans hz)
  obtain ⟨rfl, rfl, rfl⟩ := FirstLeast.eq_of_place hlist hplace hleastX hleastZ
  exact firstMin_of_firstLeast (hleastX.between hxy hyz hleastZ)

/-- **What is found stays found going right, if nothing stands to its right.** -/
theorem nearest_right {l : List α} (hne : l ≠ []) {x y : K} (hxy : x ≤ y) {a : α}
    (hx : firstMin (distanceTo place cost x) l = some a) (hplace : ∀ b ∈ l, place b ≤ place a) :
    firstMin (distanceTo place cost y) l = some a := by
  obtain ⟨front, it, back, rfl, hfound, hleast⟩ := firstMin_split (distanceTo place cost x) hne
  obtain rfl : it = a := Option.some.inj (hfound.symm.trans hx)
  exact firstMin_of_firstLeast (hleast.right hxy hplace)

end Nearest

end Speecher
