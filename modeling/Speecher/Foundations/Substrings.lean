import Mathlib.Data.List.TakeWhile
import Mathlib.Tactic.Common

/-!
# The text before and after a character

How Kotlin takes a text apart at the first of a character: `substringBefore` and `substringAfter`.
-/

namespace Speecher

/-- The text before the first such character, all of it where there is none. -/
def substringBefore (c : Char) (text : List Char) : List Char := text.takeWhile (· ≠ c)

/-- The text after the first such character. -/
def substringAfter (c : Char) (text missing : List Char) : List Char :=
  if c ∈ text then (text.dropWhile (· ≠ c)).drop 1 else missing

variable {c : Char} {before : List Char}

theorem substringBefore_append (h : c ∉ before) (after : List Char) :
    substringBefore c (before ++ c :: after) = before := by
  have hfree : ∀ d ∈ before, decide (d ≠ c) = true := fun d hd => decide_eq_true fun heq => h (heq ▸ hd)
  rw [substringBefore, List.takeWhile_append_of_pos hfree, List.takeWhile_cons_of_neg (by simp), List.append_nil]

theorem substringBefore_eq_self (h : c ∉ before) : substringBefore c before = before :=
  List.takeWhile_eq_self_iff.mpr fun _ hd => decide_eq_true fun heq => h (heq ▸ hd)

theorem substringAfter_append (h : c ∉ before) (after missing : List Char) :
    substringAfter c (before ++ c :: after) missing = after := by
  have hfree : ∀ d ∈ before, decide (d ≠ c) = true := fun d hd => decide_eq_true fun heq => h (heq ▸ hd)
  rw [substringAfter, if_pos (List.mem_append.mpr (.inr List.mem_cons_self)), List.dropWhile_append_of_pos hfree,
    List.dropWhile_cons_of_neg (by simp)]
  rfl

end Speecher
