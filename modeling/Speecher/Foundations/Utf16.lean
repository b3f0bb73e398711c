import Mathlib.Data.List.Basic
import Mathlib.Tactic.Common

/-!
# Texts in UTF-16

`utf16Units` writes a text in UTF-16 code units, a character beyond the basic plane as a surrogate pair. What it writes
can be cut anywhere but inside a pair (`utf16Units_cut`), and in it a high surrogate is followed by a low one
(`low_of_high`).
-/

namespace Speecher

def isHighSurrogate (n : ℕ) : Bool := 0xd800 ≤ n && n < 0xdc00

def isLowSurrogate (n : ℕ) : Bool := 0xdc00 ≤ n && n < 0xe000

/-- The code units of a character. -/
def charUnits (c : Char) : List ℕ :=
  if c.toNat < 0x10000 then [c.toNat]
  else [0xd800 + (c.toNat - 0x10000) / 0x400, 0xdc00 + (c.toNat - 0x10000) % 0x400]

/-- A text in UTF-16. -/
def utf16Units (text : List Char) : List ℕ := text.flatMap charUnits

@[simp] theorem utf16Units_nil : utf16Units [] = [] := rfl

@[simp] theorem utf16Units_cons (c : Char) (text : List Char) :
    utf16Units (c :: text) = charUnits c ++ utf16Units text := rfl

@[simp] theorem utf16Units_append (s t : List Char) : utf16Units (s ++ t) = utf16Units s ++ utf16Units t :=
  List.flatMap_append

theorem toNat_not_surrogate (c : Char) : c.toNat < 0xd800 ∨ 0xe000 ≤ c.toNat := by
  have hvalid := c.valid
  rcases hvalid with h | ⟨h, -⟩
  · exact .inl h
  · exact .inr h

theorem toNat_lt (c : Char) : c.toNat < 0x110000 := by
  have hvalid := c.valid
  rcases hvalid with h | ⟨-, h⟩
  · exact Nat.lt_trans h (by decide)
  · exact h

/-- The units of a character: one that is no surrogate, or a pair. -/
theorem charUnits_cases (c : Char) :
    (c.toNat < 0x10000 ∧ charUnits c = [c.toNat] ∧ isHighSurrogate c.toNat = false ∧ isLowSurrogate c.toNat = false) ∨
      (0x10000 ≤ c.toNat ∧ ∃ high low, charUnits c = [high, low] ∧ isHighSurrogate high = true ∧
        isLowSurrogate low = true ∧ c.toNat = 0x10000 + (high - 0xd800) * 0x400 + (low - 0xdc00)) := by
  have hlt := toNat_lt c
  have hsurrogate := toNat_not_surrogate c
  simp only [isHighSurrogate, isLowSurrogate, Bool.and_eq_true, decide_eq_true_eq, Bool.and_eq_false_iff,
    decide_eq_false_iff_not]
  by_cases hc : c.toNat < 0x10000
  · refine .inl ⟨hc, if_pos hc, by omega, by omega⟩
  · exact .inr ⟨by omega, _, _, if_neg hc, by omega, by omega, by omega⟩

theorem charUnits_ne_nil (c : Char) : charUnits c ≠ [] := by
  rcases charUnits_cases c with ⟨-, h, -⟩ | ⟨-, high, low, h, -⟩ <;> simp [h]

theorem high_or_low {n : ℕ} (h : isHighSurrogate n = true) : isLowSurrogate n = false := by
  simp only [isHighSurrogate, isLowSurrogate, Bool.and_eq_true, decide_eq_true_eq, Bool.and_eq_false_iff,
    decide_eq_false_iff_not] at *
  omega

/-- The units at the head of a text tell its first character. -/
theorem charUnits_append_inj {c d : Char} {x y : List ℕ} (h : charUnits c ++ x = charUnits d ++ y) : c = d ∧ x = y := by
  rcases charUnits_cases c with ⟨-, hc, hhigh, -⟩ | ⟨-, high, low, hc, hhigh, -, hcode⟩ <;>
    rcases charUnits_cases d with ⟨-, hd, hhigh', -⟩ | ⟨-, high', low', hd, hhigh', -, hcode'⟩ <;>
    rw [hc, hd] at h
  · obtain ⟨hcode, rfl⟩ := List.cons.inj h
    exact ⟨Char.ext (UInt32.toNat_inj.mp hcode), rfl⟩
  · obtain ⟨rfl, -⟩ := List.cons.inj h
    exact absurd (hhigh'.symm.trans hhigh) Bool.noConfusion
  · obtain ⟨rfl, -⟩ := List.cons.inj h
    exact absurd (hhigh.symm.trans hhigh') Bool.noConfusion
  · obtain ⟨rfl, hrest⟩ := List.cons.inj h
    obtain ⟨rfl, rfl⟩ := List.cons.inj hrest
    exact ⟨Char.ext (UInt32.toNat_inj.mp (hcode.trans hcode'.symm)), rfl⟩

/-- A text that begins with the units of another begins with it. -/
theorem utf16Units_prefix {s t : List Char} {y : List ℕ} (h : utf16Units s = utf16Units t ++ y) :
    ∃ u, s = t ++ u ∧ utf16Units u = y := by
  induction t generalizing s with
  | nil => exact ⟨s, rfl, h⟩
  | cons d t ih =>
    cases s with
    | nil =>
      rw [utf16Units_cons, List.append_assoc] at h
      exact absurd h.symm (List.append_ne_nil_of_left_ne_nil (charUnits_ne_nil d) _)
    | cons c s =>
      rw [utf16Units_cons, utf16Units_cons, List.append_assoc] at h
      obtain ⟨rfl, hrest⟩ := charUnits_append_inj h
      obtain ⟨u, rfl, hu⟩ := ih hrest
      exact ⟨u, rfl, hu⟩

theorem utf16Units_injective {s t : List Char} (h : utf16Units s = utf16Units t) : s = t := by
  obtain ⟨u, rfl, hu⟩ := utf16Units_prefix (h.trans (List.append_nil _).symm)
  cases u with
  | nil => exact List.append_nil t
  | cons c u => exact absurd hu (List.append_ne_nil_of_left_ne_nil (charUnits_ne_nil c) _)

/-- **A text can be cut anywhere but before a low surrogate.** -/
theorem utf16Units_cut {s : List Char} {x y : List ℕ} (h : utf16Units s = x ++ y)
    (hy : y.head?.any isLowSurrogate = false) : ∃ t u, s = t ++ u ∧ utf16Units t = x ∧ utf16Units u = y := by
  induction s generalizing x with
  | nil =>
    obtain ⟨rfl, rfl⟩ := List.append_eq_nil_iff.mp h.symm
    exact ⟨[], [], rfl, rfl, rfl⟩
  | cons c s ih =>
    cases x with
    | nil => exact ⟨[], c :: s, rfl, rfl, h⟩
    | cons n x =>
      rw [utf16Units_cons] at h
      rcases charUnits_cases c with ⟨-, hc, -⟩ | ⟨-, high, low, hc, -, hlow, -⟩ <;> rw [hc] at h
      · obtain ⟨rfl, hrest⟩ := List.cons.inj h
        obtain ⟨t, u, rfl, rfl, rfl⟩ := ih hrest
        exact ⟨c :: t, u, rfl, by rw [utf16Units_cons, hc]; rfl, rfl⟩
      · obtain ⟨rfl, hrest⟩ := List.cons.inj h
        cases x with
        | nil =>
          rw [← show low :: utf16Units s = y from hrest] at hy
          exact absurd (hlow.symm.trans hy) Bool.noConfusion
        | cons m x =>
          obtain ⟨rfl, hrest'⟩ := List.cons.inj hrest
          obtain ⟨t, u, rfl, rfl, rfl⟩ := ih hrest'
          exact ⟨c :: t, u, rfl, by rw [utf16Units_cons, hc]; rfl, rfl⟩

/-- A text ends with no high surrogate. -/
theorem utf16Units_getLast? (s : List Char) : (utf16Units s).getLast?.any isHighSurrogate = false := by
  rcases s.eq_nil_or_concat' with rfl | ⟨s, c, rfl⟩
  · rfl
  · rw [utf16Units_append, List.getLast?_append_of_ne_nil _ (by simpa using charUnits_ne_nil c), utf16Units_cons,
      utf16Units_nil, List.append_nil]
    rcases charUnits_cases c with ⟨-, hc, hhigh, -⟩ | ⟨-, high, low, hc, -, hlow, -⟩ <;> rw [hc]
    · exact hhigh
    · cases hhigh : isHighSurrogate low with
      | false => exact hhigh
      | true => exact absurd ((high_or_low hhigh).symm.trans hlow) Bool.noConfusion

/-- A text starts with no low surrogate. -/
theorem utf16Units_head? (s : List Char) : (utf16Units s).head?.any isLowSurrogate = false := by
  cases s with
  | nil => rfl
  | cons c s =>
    rw [utf16Units_cons]
    rcases charUnits_cases c with ⟨-, hc, -, hlow⟩ | ⟨-, high, low, hc, hhigh, -⟩ <;> rw [hc]
    · exact hlow
    · exact high_or_low hhigh

/-- In a text, a low surrogate stands where a high one is before it, and nowhere else. -/
theorem low_iff_high {s : List Char} {x y : List ℕ} (h : utf16Units s = x ++ y) :
    x.getLast?.any isHighSurrogate = true ↔ y.head?.any isLowSurrogate = true := by
  constructor
  · intro hx
    by_contra hy
    obtain ⟨t, u, -, rfl, -⟩ := utf16Units_cut h (Bool.eq_false_iff.mpr hy)
    exact absurd (hx.symm.trans (utf16Units_getLast? t)) Bool.noConfusion
  · intro hy
    induction s generalizing x with
    | nil =>
      obtain ⟨-, rfl⟩ := List.append_eq_nil_iff.mp h.symm
      cases hy
    | cons c s ih =>
      cases x with
      | nil =>
        have := utf16Units_head? (c :: s)
        rw [h, List.nil_append] at this
        exact absurd (hy.symm.trans this) Bool.noConfusion
      | cons n x =>
        rw [utf16Units_cons] at h
        rcases charUnits_cases c with ⟨-, hc, -⟩ | ⟨-, high, low, hc, hhigh, -⟩ <;> rw [hc] at h
        · obtain ⟨rfl, hrest⟩ := List.cons.inj h
          have := ih hrest
          cases x with
          | nil =>
            have hhead := utf16Units_head? s
            rw [show utf16Units s = y from hrest] at hhead
            exact absurd (hy.symm.trans hhead) Bool.noConfusion
          | cons m x => rwa [List.getLast?_cons_cons]
        · obtain ⟨rfl, hrest⟩ := List.cons.inj h
          cases x with
          | nil => exact hhigh
          | cons m x =>
            obtain ⟨rfl, hrest'⟩ := List.cons.inj hrest
            have := ih hrest'
            cases x with
            | nil =>
              have hhead := utf16Units_head? s
              rw [show utf16Units s = y from hrest'] at hhead
              exact absurd (hy.symm.trans hhead) Bool.noConfusion
            | cons k x => rwa [List.getLast?_cons_cons, List.getLast?_cons_cons]

end Speecher
