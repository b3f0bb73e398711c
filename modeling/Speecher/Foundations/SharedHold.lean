import Mathlib.Data.List.Chain
import Mathlib.Data.List.Basic
import Mathlib.Tactic.Common

/-!
# Something held by several holders

Holders take hold of one thing and let go of it. What was shown, newest first, says who holds it (`holders`) and when
it went from free to held and back (`transitions`, newest first). The transitions alternate (`isChain_transitions`),
the first one is down (`getLast?_transitions`), and the last one says whether anyone holds it (`head?_transitions`),
that is whether anyone's last word is down (`mem_holders`).
-/

namespace Speecher

variable {κ : Type*} [DecidableEq κ]

/-- Who holds it, in the order they took hold, after what was shown. -/
def holders : List (κ × Bool) → List κ
  | [] => []
  | (k, true) :: earlier => if k ∈ holders earlier then holders earlier else holders earlier ++ [k]
  | (k, false) :: earlier => (holders earlier).erase k

/-- When it became held or free, newest first. -/
def transitions : List (κ × Bool) → List Bool
  | [] => []
  | (_, true) :: earlier => if holders earlier = [] then true :: transitions earlier else transitions earlier
  | (k, false) :: earlier => if holders earlier = [k] then false :: transitions earlier else transitions earlier

/-- What a holder showed last. -/
def lastShown (k : κ) (shown : List (κ × Bool)) : Option Bool := (shown.find? (·.1 = k)).map (·.2)

theorem nodup_holders (shown : List (κ × Bool)) : (holders shown).Nodup := by
  fun_induction holders shown with
  | case1 => exact .nil
  | case2 k earlier hmem ih => exact ih
  | case3 k earlier hmem ih =>
    exact (List.perm_append_singleton k _).nodup_iff.mpr (List.nodup_cons.mpr ⟨hmem, ih⟩)
  | case4 k earlier ih => exact ih.erase k

/-- **Who holds it**: those whose last word is down. -/
theorem mem_holders {k : κ} {shown : List (κ × Bool)} : k ∈ holders shown ↔ lastShown k shown = some true := by
  induction shown with
  | nil => simp [holders, lastShown]
  | cons last earlier ih =>
    obtain ⟨other, down⟩ := last
    have hlast : lastShown k ((other, down) :: earlier) = if other = k then some down else lastShown k earlier := by
      by_cases hk : other = k <;> simp [lastShown, hk]
    rw [hlast]
    cases down with
    | true =>
      rw [holders]
      by_cases hk : other = k
      · subst hk
        rw [if_pos rfl]
        split_ifs with hmem <;> simp [hmem]
      · have hk' : k ≠ other := fun h => hk h.symm
        split_ifs <;> simp [ih, hk']
    | false =>
      rw [holders, (nodup_holders earlier).mem_erase_iff, ih]
      by_cases hk : other = k
      · simp [hk]
      · simp [hk, Ne.symm hk]

/-- **The last transition says whether anyone holds it.** -/
theorem head?_transitions (shown : List (κ × Bool)) :
    (transitions shown).head? = some true ↔ holders shown ≠ [] := by
  induction shown with
  | nil => simp [transitions, holders]
  | cons last earlier ih =>
    obtain ⟨k, down⟩ := last
    cases down with
    | true =>
      rw [transitions, holders]
      by_cases hfree : holders earlier = []
      · simp [hfree]
      · rw [if_neg hfree]
        split_ifs <;> simp [ih, hfree]
    | false =>
      rw [transitions, holders]
      by_cases honly : holders earlier = [k]
      · simp [honly]
      · rw [if_neg honly, ih]
        rw [Ne, Ne, List.erase_eq_nil_iff, not_or]
        exact ⟨fun hheld => ⟨hheld, honly⟩, fun h => h.1⟩

/-- **The transitions alternate.** -/
theorem isChain_transitions (shown : List (κ × Bool)) : List.IsChain (· ≠ ·) (transitions shown) := by
  induction shown with
  | nil => exact .nil
  | cons last earlier ih =>
    obtain ⟨k, down⟩ := last
    have hlast := head?_transitions earlier
    cases down with
    | true =>
      rw [transitions]
      split_ifs with hfree
      · refine List.isChain_cons.mpr ⟨fun b hb => ?_, ih⟩
        rintro rfl
        exact hlast.mp hb hfree
      · exact ih
    | false =>
      rw [transitions]
      split_ifs with honly
      · refine List.isChain_cons.mpr ⟨fun b hb => ?_, ih⟩
        rintro rfl
        have hheld := hlast.mpr (by simp [honly])
        rw [hb] at hheld
        cases hheld
      · exact ih

/-- **The first transition is down.** -/
theorem getLast?_transitions (shown : List (κ × Bool)) : ∀ b ∈ (transitions shown).getLast?, b = true := by
  induction shown with
  | nil => simp [transitions]
  | cons last earlier ih =>
    obtain ⟨k, down⟩ := last
    have hfirst : ∀ b, transitions earlier ≠ [] → ∀ c ∈ (b :: transitions earlier).getLast?, c = true := by
      intro b hne c hc
      rw [List.getLast?_cons_of_ne_nil hne] at hc
      exact ih c hc
    by_cases hne : transitions earlier = []
    · have hfree : holders earlier = [] := by
        by_contra hheld
        have := (head?_transitions earlier).mpr hheld
        rw [hne] at this
        cases this
      cases down <;> simp [transitions, hfree, hne]
    · cases down with
      | true =>
        rw [transitions]
        split_ifs
        · exact hfirst true hne
        · exact ih
      | false =>
        rw [transitions]
        split_ifs
        · exact hfirst false hne
        · exact ih

end Speecher
