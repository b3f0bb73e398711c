import Mathlib.Data.List.Infix
import Mathlib.Order.MinMax
import Mathlib.Tactic.Common

/-!
# The edit distance of two lists

`distance` is the least number of insertions, deletions and replacements that lead from one list to another, by
recursion on their heads; it is the same both ways (`distance_comm`). `editDistance` computes it row by row, each row
holding the distances from what was read of one list to the beginnings of the other (`editDistance_eq`), so that it is
the same both ways as well (`editDistance_comm`).
-/

namespace Speecher

variable {α : Type*} (same : α → α → Bool)

/-- The edit distance, by recursion. -/
def distance : List α → List α → ℕ
  | [], right => right.length
  | _ :: left, [] => left.length + 1
  | a :: left, b :: right =>
    min (distance left (b :: right) + 1)
      (min (distance (a :: left) right + 1) (distance left right + if same a b then 0 else 1))
termination_by left right => left.length + right.length

/-- The row after an element, from the row before it and its first entry. -/
def nextRow (a : α) : List α → List ℕ → ℕ → List ℕ
  | b :: right, diagonal :: above :: previous, current =>
    current :: nextRow a right (above :: previous)
      (min (above + 1) (min (current + 1) (diagonal + if same a b then 0 else 1)))
  | _, _, current => [current]

/-- The rows after a list's elements, the last of them. -/
def lastRow (right : List α) (left : List α) : List ℕ :=
  (left.foldl (fun state a => (nextRow same a right state.1 (state.2 + 1), state.2 + 1))
    (List.range (right.length + 1), 0)).1

def editDistance (left right : List α) : ℕ := (lastRow same right left).getLastD 0

variable {same}

@[simp] theorem distance_nil_left (right : List α) : distance same [] right = right.length := by rw [distance]

@[simp] theorem distance_nil_right (left : List α) : distance same left [] = left.length := by
  cases left with
  | nil => exact distance_nil_left []
  | cons a left =>
    rw [distance]
    rfl

theorem distance_cons (a b : α) (left right : List α) :
    distance same (a :: left) (b :: right) = min (distance same left (b :: right) + 1)
      (min (distance same (a :: left) right + 1) (distance same left right + if same a b then 0 else 1)) := by
  rw [distance]

/-- **The distance is the same both ways.** -/
theorem distance_comm (hsame : ∀ a b, same a b = same b a) (left right : List α) :
    distance same left right = distance same right left := by
  induction left generalizing right with
  | nil => rw [distance_nil_left, distance_nil_right]
  | cons a left ih =>
    induction right with
    | nil => rw [distance_nil_left, distance_nil_right]
    | cons b right ih' =>
      rw [distance_cons, distance_cons, ih (b :: right), ih', ih right, hsame a b, min_left_comm]

/-- The distances from a list to the beginnings of another that go on from `done`, both read backwards. -/
def distances (same : α → α → Bool) (left done right : List α) : List ℕ :=
  right.inits.map fun r => distance same left.reverse (done ++ r).reverse

theorem distances_cons (left done : List α) (b : α) (right : List α) :
    distances same left done (b :: right) =
      distance same left.reverse done.reverse :: distances same left (done ++ [b]) right := by
  simp only [distances, List.inits_cons, List.map_cons, List.map_map, List.append_nil, List.cons.injEq, true_and]
  refine List.map_congr_left fun r _ => ?_
  rw [Function.comp_apply, List.append_cons]

theorem exists_distances (left done right : List α) :
    ∃ rest, distances same left done right = distance same left.reverse done.reverse :: rest := by
  cases right with
  | nil => exact ⟨[], by simp [distances]⟩
  | cons b right => exact ⟨_, distances_cons left done b right⟩

/-- The next row holds the distances from one element more. -/
theorem nextRow_distances (left : List α) (a : α) (done right : List α) :
    nextRow same a right (distances same left done right) (distance same (left ++ [a]).reverse done.reverse) =
      distances same (left ++ [a]) done right := by
  induction right generalizing done with
  | nil => simp [nextRow, distances]
  | cons b right ih =>
    obtain ⟨rest, hrest⟩ := exists_distances left (done ++ [b]) right
    have hstep : distance same (left ++ [a]).reverse (done ++ [b]).reverse =
        min (distance same left.reverse (done ++ [b]).reverse + 1)
          (min (distance same (left ++ [a]).reverse done.reverse + 1)
            (distance same left.reverse done.reverse + if same a b then 0 else 1)) := by
      rw [List.reverse_append, List.reverse_append, List.reverse_singleton, List.reverse_singleton,
        List.singleton_append, List.singleton_append, distance_cons]
    rw [distances_cons, hrest, nextRow, ← hstep, ← hrest, ih, ← distances_cons]

theorem lastRow_eq (right left : List α) : lastRow same right left = distances same left [] right := by
  have hrows : left.foldl (fun state a => (nextRow same a right state.1 (state.2 + 1), state.2 + 1))
      (List.range (right.length + 1), 0) = (distances same left [] right, left.length) := by
    induction left using List.reverseRecOn with
    | nil =>
      have hlengths : right.inits.map List.length = List.range (right.length + 1) := by
        refine List.ext_getElem (by simp) fun n h _ => ?_
        have hn : n ≤ right.length := by
          rw [List.length_map, List.length_inits] at h
          omega
        simp [List.getElem_inits, hn]
      simp [distances, ← hlengths]
    | append_singleton left a ih =>
      have hfirst : distance same (left ++ [a]).reverse ([] : List α).reverse = left.length + 1 := by simp
      rw [List.foldl_append, ih, List.foldl_cons, List.foldl_nil, List.length_append, List.length_singleton, ← hfirst,
        nextRow_distances]
  rw [lastRow, hrows]

/-- The rows compute the distance of the lists read backwards. -/
theorem editDistance_eq (left right : List α) :
    editDistance same left right = distance same left.reverse right.reverse := by
  rw [editDistance, lastRow_eq, distances]
  rcases right.eq_nil_or_concat' with rfl | ⟨right, b, rfl⟩
  · simp
  · rw [List.inits_append]
    simp

/-- **The rows compute the same both ways.** -/
theorem editDistance_comm (hsame : ∀ a b, same a b = same b a) (left right : List α) :
    editDistance same left right = editDistance same right left := by
  rw [editDistance_eq, editDistance_eq, distance_comm hsame]

end Speecher
