import Mathlib.Data.List.Infix
import Mathlib.Tactic.Common

/-!
# One pass that keeps some items

A pass over a list keeps some of its items, cleaned, and decides each from a state it carries along: what it kept, how
much room is left. `OnePass.kept` is what it keeps.

* `kept_append`, `kept_isPrefix`: what comes later never displaces what came before.
* `kept_sublist`: what is kept is a subsequence of the cleaned items.
* `preserves`: what holds of the state and what is kept at the start and is preserved by each item kept holds at the end.
-/

namespace Speecher

/-- How a pass decides about an item: what it keeps of it and its state from there on, or neither. -/
abbrev OnePass (σ α β : Type*) := σ → α → Option (β × σ)

namespace OnePass

variable {σ α β : Type*} (choose : OnePass σ α β)

/-- What the pass keeps of a list. -/
def kept : σ → List α → List β
  | _, [] => []
  | s, a :: l =>
    match choose s a with
    | none => kept s l
    | some (b, s') => b :: kept s' l

/-- The state after a list. -/
def after : σ → List α → σ
  | s, [] => s
  | s, a :: l =>
    match choose s a with
    | none => after s l
    | some (_, s') => after s' l

variable {choose} {s s' : σ} {a : α} {b : β}

theorem kept_cons_none (h : choose s a = none) (l : List α) : kept choose s (a :: l) = kept choose s l := by
  rw [kept, h]

theorem kept_cons_some (h : choose s a = some (b, s')) (l : List α) :
    kept choose s (a :: l) = b :: kept choose s' l := by
  rw [kept, h]

theorem after_cons_none (h : choose s a = none) (l : List α) : after choose s (a :: l) = after choose s l := by
  rw [after, h]

theorem after_cons_some (h : choose s a = some (b, s')) (l : List α) :
    after choose s (a :: l) = after choose s' l := by
  rw [after, h]

theorem kept_append (l l' : List α) :
    kept choose s (l ++ l') = kept choose s l ++ kept choose (after choose s l) l' := by
  induction l generalizing s with
  | nil => rfl
  | cons a l ih =>
    rw [List.cons_append]
    cases h : choose s a with
    | none => rw [kept_cons_none h, kept_cons_none h, after_cons_none h, ih]
    | some step => rw [kept_cons_some h, kept_cons_some h, after_cons_some h, ih, List.cons_append]

/-- **What comes later displaces nothing.** -/
theorem kept_isPrefix (l l' : List α) : kept choose s l <+: kept choose s (l ++ l') := by
  rw [kept_append]
  exact List.prefix_append ..

/-- What is kept of an item is the item cleaned. -/
def Cleans (choose : OnePass σ α β) (clean : α → β) : Prop := ∀ s a b s', choose s a = some (b, s') → b = clean a

theorem kept_sublist {clean : α → β} (h : Cleans choose clean) (l : List α) :
    (kept choose s l).Sublist (l.map clean) := by
  induction l generalizing s with
  | nil => exact List.Sublist.slnil
  | cons a l ih =>
    rw [List.map_cons]
    cases hstep : choose s a with
    | none =>
      rw [kept_cons_none hstep]
      exact ih.cons _
    | some step =>
      rw [kept_cons_some hstep, h _ _ _ _ hstep]
      exact ih.cons_cons _

/-- A pass that keeps nothing in a state keeps nothing from there on. -/
theorem kept_of_full (h : ∀ a, choose s a = none) (l : List α) : kept choose s l = [] := by
  induction l with
  | nil => rfl
  | cons a l ih => rw [kept_cons_none (h a), ih]

variable (choose) in
/-- The invariant of a pass: it holds of the state and what was kept before, and each item kept preserves it. -/
theorem preserves {P : σ → List β → Prop}
    (hstep : ∀ s a b s' before, P s before → choose s a = some (b, s') → P s' (before ++ [b]))
    {before : List β} (h : P s before) (l : List α) : P (after choose s l) (before ++ kept choose s l) := by
  induction l generalizing s before with
  | nil => simpa [kept, after] using h
  | cons a l ih =>
    cases hchoose : choose s a with
    | none =>
      rw [kept_cons_none hchoose, after_cons_none hchoose]
      exact ih h
    | some step =>
      rw [kept_cons_some hchoose, after_cons_some hchoose, List.append_cons]
      exact ih (hstep _ _ _ _ _ h hchoose)

end OnePass

end Speecher
