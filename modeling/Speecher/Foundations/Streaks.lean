import Mathlib.Data.Set.Insert
import Mathlib.Tactic.Common

/-!
# Runs of consecutive days

A set of days, as integers. `StreakTo S last n` says that the `n` days up to `last` are all in it, and `WholeStreak` that
the run goes no further back. `Longest` says what the longest run is and where the earliest of that length ends;
`Longest.insert` keeps both as days after all others join the set.
-/

namespace Speecher

/-- The `n` days up to `last` are in the set. -/
def StreakTo (S : Set ℤ) (last : ℤ) (n : ℕ) : Prop := ∀ k : ℕ, k < n → last - k ∈ S

/-- The maximal run of days of the set that ends at `last`. -/
structure WholeStreak (S : Set ℤ) (last : ℤ) (n : ℕ) : Prop where
  within : StreakTo S last n
  begins : last - n ∉ S

variable {S T : Set ℤ} {last : ℤ} {m n : ℕ}

namespace StreakTo

theorem zero (S : Set ℤ) (last : ℤ) : StreakTo S last 0 := fun _ h => absurd h (Nat.not_lt_zero _)

theorem mono (h : StreakTo S last n) (hsub : S ⊆ T) : StreakTo T last n := fun k hk => hsub (h k hk)

theorem last_mem (h : StreakTo S last n) (hn : 0 < n) : last ∈ S := by
  have hlast := h 0 hn
  rwa [Int.ofNat_zero, Int.sub_zero] at hlast

/-- A day more. -/
theorem succ (hlast : last ∈ S) (h : StreakTo S (last - 1) n) : StreakTo S last (n + 1) := by
  rintro (_ | k) hk
  · rwa [Int.ofNat_zero, Int.sub_zero]
  · have hbefore := h k (Nat.lt_of_succ_lt_succ hk)
    rwa [show last - ((k + 1 : ℕ) : ℤ) = last - 1 - (k : ℤ) by omega]

/-- No run is longer than the maximal one. -/
theorem le_whole (h : StreakTo S last n) (hwhole : WholeStreak S last m) : n ≤ m := by
  by_contra hlt
  exact hwhole.begins (h m (by omega))

/-- A later day is no part of an earlier run. -/
theorem of_insert {day : ℤ} (h : StreakTo (insert day S) last n) (hlast : last < day) : StreakTo S last n := by
  intro k hk
  rcases h k hk with heq | hmem
  · omega
  · exact hmem

end StreakTo

namespace WholeStreak

theorem zero (h : last ∉ S) : WholeStreak S last 0 := ⟨.zero S last, by simpa using h⟩

/-- A day more. -/
theorem succ (hlast : last ∈ S) (h : WholeStreak S (last - 1) n) : WholeStreak S last (n + 1) := by
  refine ⟨.succ hlast h.within, ?_⟩
  rw [show last - ((n + 1 : ℕ) : ℤ) = last - 1 - (n : ℤ) by omega]
  exact h.begins

/-- A later day leaves the run as it was. -/
theorem insert_later (h : WholeStreak S last n) {day : ℤ} (hday : last < day) : WholeStreak (insert day S) last n := by
  refine ⟨h.within.mono (Set.subset_insert day S), ?_⟩
  rintro (heq | hmem)
  · omega
  · exact h.begins hmem

end WholeStreak

/-- The longest run, and the last day of the earliest of its length. -/
structure Longest (S : Set ℤ) (best : ℕ) (bestEnd : Option ℤ) : Prop where
  longest : ∀ last n, StreakTo S last n → n ≤ best
  noEnd : best = 0 → bestEnd = none
  reached : 0 < best → ∃ last, bestEnd = some last ∧ StreakTo S last best ∧ ∀ later, StreakTo S later best → last ≤ later

namespace Longest

variable {best : ℕ} {bestEnd : Option ℤ}

theorem empty : Longest ∅ 0 none where
  longest last n h := by
    by_contra hn
    exact h.last_mem (by omega)
  noEnd _ := rfl
  reached h := absurd h (Nat.not_lt_zero 0)

/-- **A day after all others.** The run that ends at it is the longest if it is longer than all before. -/
theorem insert (h : Longest S best bestEnd) {day : ℤ} (hday : ∀ d ∈ S, d < day) {run : ℕ}
    (hrun : WholeStreak (insert day S) day run) (hpos : 0 < run) :
    Longest (insert day S) (if best < run then run else best) (if best < run then some day else bestEnd) := by
  -- a run that ends elsewhere is one of the days before
  have helse : ∀ last n, 0 < n → StreakTo (Insert.insert day S) last n → last ≠ day → StreakTo S last n := by
    intro last n hn hstreak hne
    rcases hstreak.last_mem hn with heq | hmem
    · exact absurd heq hne
    · exact hstreak.of_insert (hday last hmem)
  have hbound : ∀ last n, StreakTo (Insert.insert day S) last n → n ≤ run ∨ n ≤ best := by
    intro last n hstreak
    by_cases hn : n = 0
    · exact .inl (hn ▸ Nat.zero_le run)
    by_cases heq : last = day
    · exact .inl ((heq ▸ hstreak).le_whole hrun)
    · exact .inr (h.longest last n (helse last n (by omega) hstreak heq))
  split
  · rename_i hlonger
    refine ⟨fun last n hstreak => ?_, fun hzero => absurd hzero (by omega), fun _ => ⟨day, rfl, hrun.within, ?_⟩⟩
    · rcases hbound last n hstreak with hle | hle <;> omega
    · intro later hlater
      by_contra hlt
      have hbefore := h.longest later run (helse later run hpos hlater (by omega))
      omega
  · rename_i hshorter
    refine ⟨fun last n hstreak => ?_, fun hzero => absurd hzero (by omega), fun hbest => ?_⟩
    · rcases hbound last n hstreak with hle | hle <;> omega
    · obtain ⟨last, hend, hstreak, hfirst⟩ := h.reached hbest
      refine ⟨last, hend, hstreak.mono (Set.subset_insert day S), fun later hlater => ?_⟩
      by_cases heq : later = day
      · exact heq ▸ Int.le_of_lt (hday last (hstreak.last_mem hbest))
      · exact hfirst later (helse later best hbest hlater heq)

end Longest

end Speecher
