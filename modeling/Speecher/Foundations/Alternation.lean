import Mathlib.Data.List.Chain
import Mathlib.Tactic.Common

/-!
# What opens and closes in turn

Of the entries of a history some open, some close and the rest do neither: `side a` is `some true`, `some false` or
`none`. `Alternates side history` says that those that do take turns, an opening one first, and `opened` whether the
last of them opened. `Alternates.count_opens` counts them.
-/

namespace Speecher

variable {α : Type*} (side : α → Option Bool)

/-- Whether the last entry that opens or closes opened. -/
def opened (history : List α) : Bool := (history.filterMap side).getLast?.getD false

/-- The entries that open and close take turns, an opening one first. -/
structure Alternates (history : List α) : Prop where
  turns : (history.filterMap side).IsChain (· ≠ ·)
  first : (history.filterMap side).head? ≠ some false

variable {side} {history : List α} {a : α} {b : Bool}

theorem opened_of_none (ha : side a = none) : opened side (history ++ [a]) = opened side history := by
  rw [opened, List.filterMap_append, List.filterMap_cons_none ha, List.filterMap_nil, List.append_nil, opened]

theorem opened_of_some (ha : side a = some b) : opened side (history ++ [a]) = b := by
  rw [opened, List.filterMap_append, List.filterMap_cons_some ha, List.filterMap_nil, List.getLast?_concat,
    Option.getD_some]

namespace Alternates

theorem nil : Alternates side [] where
  turns := .nil
  first := by simp

theorem of_none (h : Alternates side history) (ha : side a = none) : Alternates side (history ++ [a]) := by
  have hsame : (history ++ [a]).filterMap side = history.filterMap side := by
    rw [List.filterMap_append, List.filterMap_cons_none ha, List.filterMap_nil, List.append_nil]
  exact ⟨hsame ▸ h.turns, hsame ▸ h.first⟩

/-- An entry that opens what is closed, or closes what is open. -/
theorem of_some (h : Alternates side history) (ha : side a = some b) (hb : opened side history = !b) :
    Alternates side (history ++ [a]) := by
  have hmore : (history ++ [a]).filterMap side = history.filterMap side ++ [b] := by
    rw [List.filterMap_append, List.filterMap_cons_some ha, List.filterMap_nil]
  refine ⟨hmore ▸ List.isChain_append.mpr ⟨h.turns, .singleton _, fun c hc d hd => ?_⟩, ?_⟩
  · obtain rfl : b = d := by simpa using hd
    rw [opened, Option.mem_def.mp hc, Option.getD_some] at hb
    exact Bool.eq_not.mp hb
  · rw [hmore]
    cases hcalls : history.filterMap side with
    | nil =>
      rw [opened, hcalls] at hb
      cases b <;> simp_all
    | cons c calls =>
      have hfirst := h.first
      rw [hcalls] at hfirst
      exact hfirst

/-- As many entries closed as opened, but for the one still open. -/
theorem count_opens (h : Alternates side history) :
    (history.filterMap side).count true = (history.filterMap side).count false + (opened side history).toNat := by
  obtain ⟨turns, first⟩ := h
  rw [opened]
  generalize history.filterMap side = calls at turns first
  induction calls using List.reverseRecOn with
  | nil => rfl
  | append_singleton calls b ih =>
    obtain ⟨hcalls, -, hlast⟩ := List.isChain_append.mp turns
    rw [List.getLast?_concat, Option.getD_some, List.count_append, List.count_append]
    rcases List.eq_nil_or_concat calls with rfl | ⟨calls, c, rfl⟩
    · cases b with
      | false => exact absurd rfl first
      | true => rfl
    · rw [List.concat_eq_append] at ih hlast first hcalls ⊢
      have hne : c ≠ b := hlast c (List.getLast?_concat ..) b rfl
      have hfirst : (calls ++ [c]).head? ≠ some false := by
        rwa [List.head?_append_of_ne_nil _ (by simp)] at first
      have hcount := ih hcalls hfirst
      rw [List.getLast?_concat, Option.getD_some] at hcount
      cases b <;> cases c <;> simp_all

end Alternates

end Speecher
