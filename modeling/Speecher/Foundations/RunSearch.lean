import Mathlib.Data.Int.Notation
import Mathlib.Order.Bounds.Defs
import Mathlib.Tactic.Common
import Mathlib.Tactic.Positivity.Basic
import Mathlib.Tactic.Ring

/-!
# Where a run of whole numbers ends

The search for the first number above a given one that is not like it: `extend` doubles until one is unlike, up to a
greatest number, and `narrow` halves what is between. The numbers are machine integers: a sum or a product that leaves
their range is no result, and neither is a search that runs out of steps.

* `search_spec`: when the numbers alike are one unbroken run, the search ends within its range and finds the run's end.
-/

namespace Speecher

namespace RunSearch

variable (most : ℤ)

/-- A result that fits. -/
def checked (n : ℤ) : Option ℤ := if -most - 1 ≤ n ∧ n ≤ most then some n else none

theorem checked_of_le {n : ℤ} (h₀ : 0 ≤ n) (h : n ≤ most) : checked most n = some n := if_pos ⟨by omega, h⟩

variable (alike : ℤ → Prop) [DecidablePred alike]

/-- The last number known to be alike and one known not to be, or neither where all to the greatest are. -/
def extend : ℕ → ℤ → ℤ → Option (Option (ℤ × ℤ))
  | 0, _, _ => none
  | fuel + 1, same, other =>
    if alike other then
      if other = most then some none
      else if other > most / 2 then extend fuel other most
      else (checked most (other * 2)).bind (extend fuel other)
    else some (some (same, other))

/-- The first number that is not alike, between one that is and one that is not. -/
def narrow : ℕ → ℤ → ℤ → Option ℤ
  | 0, _, _ => none
  | fuel + 1, same, other =>
    (checked most (other - same)).bind fun distance =>
      if distance > 1 then
        (checked most (same + distance / 2)).bind fun middle =>
          if alike middle then narrow fuel middle other else narrow fuel same middle
      else some other

/-- What `extend` finds. -/
def Found (from' : ℤ) : Option (ℤ × ℤ) → Prop
  | none => alike most
  | some (same, other) => from' ≤ same ∧ same < other ∧ other ≤ most ∧ alike same ∧ ¬ alike other

variable {most alike}

/-- **Doubling ends at the greatest number or at one that is not alike.** -/
theorem extend_spec {from' : ℤ} : ∀ {fuel : ℕ} {same other : ℤ}, 0 ≤ from' → from' ≤ same → same < other →
    other ≤ most → alike same → other = most ∨ most < other * 2 ^ fuel →
      ∃ found, extend most alike (fuel + 1) same other = some found ∧ Found most alike from' found
  | fuel, same, other, hfrom, hsame, hlt, hle, halike, hfuel => by
    rw [extend]
    by_cases hother : alike other
    · rw [if_pos hother]
      by_cases hmost : other = most
      · rw [if_pos hmost]
        exact ⟨none, rfl, hmost ▸ hother⟩
      · rw [if_neg hmost]
        have hbound := hfuel.resolve_left hmost
        cases fuel with
        | zero => omega
        | succ fuel =>
          by_cases hhalf : other > most / 2
          · rw [if_pos hhalf]
            exact extend_spec hfrom (by omega) (by omega) le_rfl hother (.inl rfl)
          · rw [if_neg hhalf, checked_of_le most (by omega) (by omega), Option.bind_some]
            refine extend_spec hfrom (by omega) (by omega) (by omega) hother (.inr ?_)
            calc most < other * 2 ^ (fuel + 1) := hbound
              _ = other * 2 * 2 ^ fuel := by ring
    · rw [if_neg hother]
      exact ⟨some (same, other), rfl, hsame, hlt, hle, halike, hother⟩

/-- **Halving ends at the first number that is not alike, next to one that is.** -/
theorem narrow_spec {from' : ℤ} : ∀ {fuel : ℕ} {same other : ℤ}, 0 ≤ from' → from' ≤ same → same < other →
    other ≤ most → alike same → ¬ alike other → other - same ≤ 2 ^ fuel →
      ∃ result, narrow most alike (fuel + 1) same other = some result ∧ from' < result ∧ result ≤ most ∧
        alike (result - 1) ∧ ¬ alike result
  | fuel, same, other, hfrom, hsame, hlt, hle, halike, hunlike, hfuel => by
    rw [narrow, checked_of_le most (by omega) (by omega), Option.bind_some]
    by_cases hgap : other - same > 1
    · rw [if_pos hgap, checked_of_le most (by omega) (by omega), Option.bind_some]
      cases fuel with
      | zero =>
        rw [pow_zero] at hfuel
        omega
      | succ fuel =>
        have hhalf : other - same ≤ 2 * 2 ^ fuel := by
          rw [pow_succ] at hfuel
          omega
        by_cases hmiddle : alike (same + (other - same) / 2)
        · rw [if_pos hmiddle]
          exact narrow_spec hfrom (by omega) (by omega) hle hmiddle hunlike (by omega)
        · rw [if_neg hmiddle]
          exact narrow_spec hfrom hsame (by omega) (by omega) halike hmiddle (by omega)
    · rw [if_neg hgap]
      have hnext : other - 1 = same := by omega
      exact ⟨other, rfl, by omega, hle, hnext ▸ halike, hunlike⟩

variable (most alike)

/-- The search from a number on: the first that is not alike, or nothing. -/
def search (fuel : ℕ) (from' : ℤ) : Option ℤ :=
  (checked most (from' + 1)).bind fun other =>
    (extend most alike fuel from' other).bind fun found =>
      found.elim (some 0) fun ends => narrow most alike fuel ends.1 ends.2

variable {most alike}

/-- **Where the numbers alike are one unbroken run, the search finds its end.** -/
theorem search_spec {from' : ℤ} (h₀ : 0 ≤ from') (h : from' < most)
    (hrun : ∀ a b c, a ≤ b → b ≤ c → alike a → alike c → alike b) (halike : alike from') {fuel : ℕ}
    (hfuel : most < 2 ^ fuel) :
    ∃ result, search most alike (fuel + 1) from' = some result ∧
      (result = 0 ↔ ∀ n, from' < n → n ≤ most → alike n) ∧
      (result ≠ 0 → IsLeast {n | from' < n ∧ n ≤ most ∧ ¬ alike n} result) := by
  have hgrow : most < (from' + 1) * 2 ^ fuel := by
    have hone : (1 : ℤ) * 2 ^ fuel ≤ (from' + 1) * 2 ^ fuel := Int.mul_le_mul_of_nonneg_right (by omega) (by positivity)
    omega
  obtain ⟨found, hextend, hfound⟩ : ∃ found, extend most alike (fuel + 1) from' (from' + 1) = some found ∧
      Found most alike from' found :=
    extend_spec h₀ le_rfl (by omega) (by omega) halike (.inr hgrow)
  rw [search, checked_of_le most (by omega) (by omega), Option.bind_some, hextend, Option.bind_some]
  cases found with
  | none =>
    refine ⟨0, rfl, iff_of_true rfl fun n hn hle => ?_, fun hne => absurd rfl hne⟩
    exact hrun from' n most (by omega) hle halike hfound
  | some ends =>
    obtain ⟨same, other⟩ := ends
    obtain ⟨hsame, hlt, hle, hsameAlike, hunlike⟩ := hfound
    obtain ⟨result, hnarrow, hresult, hresultLe, hbefore, hafter⟩ :=
      narrow_spec h₀ hsame hlt hle hsameAlike hunlike (by omega : other - same ≤ 2 ^ fuel)
    refine ⟨result, hnarrow, iff_of_false (by omega) fun hall => hafter (hall result hresult hresultLe), fun _ => ?_⟩
    refine ⟨⟨hresult, hresultLe, hafter⟩, ?_⟩
    rintro n ⟨hn, hnLe, hnUnlike⟩
    by_contra hlow
    exact hnUnlike (hrun from' n (result - 1) (by omega) (by omega) halike hbefore)

end RunSearch

end Speecher
