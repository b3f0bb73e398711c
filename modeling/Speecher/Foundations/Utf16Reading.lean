import Speecher.Foundations.Utf16

/-!
# Reading UTF-16

`utf16Text half` is the text that code units spell, with the character `half` for each half of a pair that stands alone.
It reads back what `utf16Units` writes (`utf16Text_utf16Units`), and it can be read in two parts wherever the second
does not begin with the second half of a pair (`utf16Text_append`).
-/

namespace Speecher

/-- The character of a pair. -/
def pairChar (high low : ℕ) : Char := Char.ofNat (0x10000 + (high - 0xd800) * 0x400 + (low - 0xdc00))

/-- The character of a unit by itself. -/
def unitChar (half : Char) (unit : ℕ) : Char :=
  if isHighSurrogate unit || isLowSurrogate unit then half else Char.ofNat unit

def utf16Text (half : Char) : List ℕ → List Char
  | [] => []
  | [unit] => [unitChar half unit]
  | high :: low :: units =>
    if isHighSurrogate high && isLowSurrogate low then pairChar high low :: utf16Text half units
    else unitChar half high :: utf16Text half (low :: units)

variable {half : Char}

@[simp] theorem utf16Text_nil : utf16Text half [] = [] := rfl

@[simp] theorem utf16Text_singleton (unit : ℕ) : utf16Text half [unit] = [unitChar half unit] := rfl

theorem utf16Text_pair {high low : ℕ} (hhigh : isHighSurrogate high = true) (hlow : isLowSurrogate low = true)
    (units : List ℕ) : utf16Text half (high :: low :: units) = pairChar high low :: utf16Text half units := by
  rw [utf16Text, hhigh, hlow]
  rfl

/-- A unit that begins no pair is read by itself. -/
theorem utf16Text_cons {unit : ℕ} {units : List ℕ}
    (h : (isHighSurrogate unit && units.head?.any isLowSurrogate) = false) :
    utf16Text half (unit :: units) = unitChar half unit :: utf16Text half units := by
  cases units with
  | nil => rfl
  | cons low units =>
    rw [utf16Text, if_neg (by simpa using h)]

/-- **What begins with no second half can be read apart.** -/
theorem utf16Text_append {front back : List ℕ} (h : back.head?.any isLowSurrogate = false) :
    utf16Text half (front ++ back) = utf16Text half front ++ utf16Text half back := by
  fun_induction utf16Text half front with
  | case1 => rfl
  | case2 unit =>
    rw [List.singleton_append, utf16Text_cons (by rw [h, Bool.and_false])]
    rfl
  | case3 high low units hpair ih =>
    obtain ⟨hhigh, hlow⟩ := Bool.and_eq_true_iff.mp hpair
    rw [List.cons_append, List.cons_append, utf16Text_pair hhigh hlow, ih]
    rfl
  | case4 high low units hpair ih =>
    rw [List.cons_append, utf16Text_cons (by simpa using hpair), ih]
    rfl

theorem utf16Text_charUnits (c : Char) : utf16Text half (charUnits c) = [c] := by
  rcases charUnits_cases c with ⟨-, hc, hhigh, hlow⟩ | ⟨-, high, low, hc, hhigh, hlow, hcode⟩ <;> rw [hc]
  · rw [utf16Text_singleton, unitChar, hhigh, hlow]
    exact congrArg (fun d => [d]) (Char.ofNat_toNat c)
  · rw [utf16Text_pair hhigh hlow, pairChar, ← hcode, Char.ofNat_toNat]
    rfl

/-- **A text is read back.** -/
theorem utf16Text_utf16Units (text : List Char) : utf16Text half (utf16Units text) = text := by
  induction text with
  | nil => rfl
  | cons c text ih =>
    rw [utf16Units_cons, utf16Text_append (utf16Units_head? text), utf16Text_charUnits, ih]
    rfl

/-- A character read is a half's, a unit's or one beyond the basic plane. -/
theorem mem_utf16Text {units : List ℕ} {c : Char} (hc : c ∈ utf16Text half units) :
    c = half ∨ (∃ unit ∈ units, c = Char.ofNat unit) ∨ ∃ high low, isHighSurrogate high = true ∧
      isLowSurrogate low = true ∧ c = pairChar high low := by
  have hunit : ∀ unit, unitChar half unit = half ∨ unitChar half unit = Char.ofNat unit := by
    intro unit
    rw [unitChar]
    split_ifs
    · exact .inl rfl
    · exact .inr rfl
  fun_induction utf16Text half units with
  | case1 => cases hc
  | case2 unit =>
    obtain rfl := List.mem_singleton.mp hc
    exact (hunit unit).imp_right fun h => .inl ⟨unit, List.mem_cons_self, h⟩
  | case3 high low units hpair ih =>
    obtain ⟨hhigh, hlow⟩ := Bool.and_eq_true_iff.mp hpair
    rcases List.mem_cons.mp hc with hchar | hc
    · exact .inr (.inr ⟨high, low, hhigh, hlow, hchar⟩)
    · refine (ih hc).imp_right (.imp_left ?_)
      rintro ⟨unit, hmem, rfl⟩
      exact ⟨unit, List.mem_cons_of_mem _ (List.mem_cons_of_mem _ hmem), rfl⟩
  | case4 high low units hpair ih =>
    rcases List.mem_cons.mp hc with rfl | hc
    · exact (hunit high).imp_right fun h => .inl ⟨high, List.mem_cons_self, h⟩
    · refine (ih hc).imp_right (.imp_left ?_)
      rintro ⟨unit, hmem, rfl⟩
      exact ⟨unit, List.mem_cons_of_mem _ hmem, rfl⟩

end Speecher
