import Speecher.Foundations.PercentEncoding

/-!
# Text of bytes that need not be UTF-8

`decodedUtf8` reads bytes as a decoder does that replaces what is not UTF-8: a character whose bytes are not all there,
and a byte that starts none, is the replacement character.

* `decodedUtf8_utf8`: UTF-8 reads back.
* `decodedUtf8_newline`: what comes after a line break is read apart from what comes before, however that ends.
-/

namespace Speecher

namespace Utf8

def replacement : Char := Char.ofNat 0xFFFD

/-- A character whose next byte is between two bounds, with the number of bytes that follow that one. -/
structure Pending where
  later : ℕ
  value : ℕ
  lower : ℕ
  upper : ℕ
  tail : 0x80 ≤ lower

/-- The first byte of a character: the text that is known, and what is still to come. -/
def first (b : ℕ) : List Char × Option Pending :=
  if b < 0x80 then ([Char.ofNat b], none)
  else if 0xC2 ≤ b ∧ b ≤ 0xDF then ([], some ⟨0, b - 0xC0, 0x80, 0xBF, Nat.le_refl _⟩)
  else if b = 0xE0 then ([], some ⟨1, 0, 0xA0, 0xBF, by omega⟩)
  else if b = 0xED then ([], some ⟨1, 0xD, 0x80, 0x9F, Nat.le_refl _⟩)
  else if 0xE1 ≤ b ∧ b ≤ 0xEF then ([], some ⟨1, b - 0xE0, 0x80, 0xBF, Nat.le_refl _⟩)
  else if b = 0xF0 then ([], some ⟨2, 0, 0x90, 0xBF, by omega⟩)
  else if 0xF1 ≤ b ∧ b ≤ 0xF3 then ([], some ⟨2, b - 0xF0, 0x80, 0xBF, Nat.le_refl _⟩)
  else if b = 0xF4 then ([], some ⟨2, 4, 0x80, 0x8F, Nat.le_refl _⟩)
  else ([replacement], none)

/-- A byte of a character that is not complete. -/
def Pending.next (p : Pending) (b : ℕ) : List Char × Option Pending :=
  if p.lower ≤ b ∧ b ≤ p.upper then
    match p.later with
    | 0 => ([Char.ofNat (p.value * 64 + (b - 0x80))], none)
    | later + 1 => ([], some ⟨later, p.value * 64 + (b - 0x80), 0x80, 0xBF, Nat.le_refl _⟩)
  else (replacement :: (first b).1, (first b).2)

def decoded : Option Pending → List UInt8 → List Char
  | none, [] => []
  | some _, [] => [replacement]
  | none, b :: bytes => (first b.toNat).1 ++ decoded (first b.toNat).2 bytes
  | some p, b :: bytes => (p.next b.toNat).1 ++ decoded (p.next b.toNat).2 bytes

/-! ## Line breaks -/

theorem decoded_newline (more : List UInt8) : ∀ (bytes : List UInt8) (pending : Option Pending),
    decoded pending (bytes ++ 10 :: more) = decoded pending bytes ++ '\n' :: decoded none more
  | [], none => rfl
  | [], some p => by
    have hlower : ¬ (p.lower ≤ (10 : UInt8).toNat ∧ (10 : UInt8).toNat ≤ p.upper) := fun h =>
      absurd (Nat.le_trans p.tail h.1) (by decide)
    have hnext : p.next (10 : UInt8).toNat = ([replacement, '\n'], none) := if_neg hlower
    show (p.next (10 : UInt8).toNat).1 ++ decoded (p.next (10 : UInt8).toNat).2 more = _
    rw [hnext]
    rfl
  | b :: bytes, none => by
    rw [List.cons_append, decoded, decoded, decoded_newline more bytes, List.append_assoc]
  | b :: bytes, some p => by
    rw [List.cons_append, decoded, decoded, decoded_newline more bytes, List.append_assoc]

/-! ## Reading UTF-8 back -/

theorem first_ascii {b : ℕ} (h : b < 0x80) : first b = ([Char.ofNat b], none) := if_pos h

theorem first_two {b : ℕ} (h : 0xC2 ≤ b ∧ b ≤ 0xDF) :
    first b = ([], some ⟨0, b - 0xC0, 0x80, 0xBF, Nat.le_refl _⟩) := by
  rw [first, if_neg (by omega), if_pos h]

/-- The least second byte of a character of three bytes or more. -/
theorem first_three {b : ℕ} (h : 0xE0 ≤ b ∧ b ≤ 0xEF) : ∃ lower upper htail,
    first b = ([], some ⟨1, b - 0xE0, lower, upper, htail⟩) ∧ (lower = 0x80 ∨ b = 0xE0 ∧ lower = 0xA0) ∧
      (upper = 0xBF ∨ b = 0xED ∧ upper = 0x9F) := by
  by_cases he0 : b = 0xE0
  · subst he0
    exact ⟨0xA0, 0xBF, by omega, rfl, .inr ⟨rfl, rfl⟩, .inl rfl⟩
  by_cases hed : b = 0xED
  · subst hed
    exact ⟨0x80, 0x9F, Nat.le_refl _, rfl, .inl rfl, .inr ⟨rfl, rfl⟩⟩
  · refine ⟨0x80, 0xBF, Nat.le_refl _, ?_, .inl rfl, .inl rfl⟩
    rw [first, if_neg (by omega), if_neg (by omega), if_neg he0, if_neg hed, if_pos (by omega)]

theorem first_four {b : ℕ} (h : 0xF0 ≤ b ∧ b ≤ 0xF4) : ∃ lower upper htail,
    first b = ([], some ⟨2, b - 0xF0, lower, upper, htail⟩) ∧ (lower = 0x80 ∨ b = 0xF0 ∧ lower = 0x90) ∧
      (upper = 0xBF ∨ b = 0xF4 ∧ upper = 0x8F) := by
  by_cases hf0 : b = 0xF0
  · subst hf0
    exact ⟨0x90, 0xBF, by omega, rfl, .inr ⟨rfl, rfl⟩, .inl rfl⟩
  by_cases hf4 : b = 0xF4
  · subst hf4
    exact ⟨0x80, 0x8F, Nat.le_refl _, rfl, .inl rfl, .inr ⟨rfl, rfl⟩⟩
  · refine ⟨0x80, 0xBF, Nat.le_refl _, ?_, .inl rfl, .inl rfl⟩
    rw [first, if_neg (by omega), if_neg (by omega), if_neg (by omega), if_neg (by omega), if_neg (by omega),
      if_neg hf0, if_pos (by omega)]

theorem next_last {value lower upper b : ℕ} {htail : 0x80 ≤ lower} (h : lower ≤ b ∧ b ≤ upper) :
    Pending.next ⟨0, value, lower, upper, htail⟩ b = ([Char.ofNat (value * 64 + (b - 0x80))], none) := if_pos h

theorem next_later {later value lower upper b : ℕ} {htail : 0x80 ≤ lower} (h : lower ≤ b ∧ b ≤ upper) :
    Pending.next ⟨later + 1, value, lower, upper, htail⟩ b =
      ([], some ⟨later, value * 64 + (b - 0x80), 0x80, 0xBF, Nat.le_refl _⟩) := if_pos h

theorem toNat_byte {n : ℕ} (h : n < 256) : (UInt8.ofNat n).toNat = n := by
  rw [UInt8.toNat_ofNat']
  exact Nat.mod_eq_of_lt h

/-- A character of two bytes, its number given by what the bytes carry. -/
theorem decoded_two {a b : ℕ} (rest : List UInt8) (ha : 2 ≤ a ∧ a < 32) (hb : b < 64) :
    decoded none (UInt8.ofNat (a + 0xC0) :: UInt8.ofNat (b + 0x80) :: rest) =
      Char.ofNat (a * 64 + b) :: decoded none rest := by
  rw [decoded, toNat_byte (by omega), first_two (by omega), decoded, toNat_byte (by omega), next_last (by omega),
    Nat.add_sub_cancel, Nat.add_sub_cancel]
  rfl

theorem decoded_three {a b c : ℕ} (rest : List UInt8) (ha : a < 16) (hb : b < 64) (hc : c < 64)
    (hlong : a = 0 → 32 ≤ b) (hsurrogate : a = 13 → b < 32) :
    decoded none (UInt8.ofNat (a + 0xE0) :: UInt8.ofNat (b + 0x80) :: UInt8.ofNat (c + 0x80) :: rest) =
      Char.ofNat ((a * 64 + b) * 64 + c) :: decoded none rest := by
  obtain ⟨lower, upper, htail, hfirst, hlower, hupper⟩ := first_three (b := a + 0xE0) (by omega)
  rw [decoded, toNat_byte (by omega), hfirst, decoded, toNat_byte (by omega), next_later (by omega), decoded,
    toNat_byte (by omega), next_last (by omega), Nat.add_sub_cancel, Nat.add_sub_cancel, Nat.add_sub_cancel]
  rfl

theorem decoded_four {a b c d : ℕ} (rest : List UInt8) (ha : a ≤ 4) (hb : b < 64) (hc : c < 64) (hd : d < 64)
    (hlong : a = 0 → 16 ≤ b) (hlast : a = 4 → b < 16) :
    decoded none (UInt8.ofNat (a + 0xF0) :: UInt8.ofNat (b + 0x80) :: UInt8.ofNat (c + 0x80) ::
      UInt8.ofNat (d + 0x80) :: rest) = Char.ofNat (((a * 64 + b) * 64 + c) * 64 + d) :: decoded none rest := by
  obtain ⟨lower, upper, htail, hfirst, hlower, hupper⟩ := first_four (b := a + 0xF0) (by omega)
  rw [decoded, toNat_byte (by omega), hfirst, decoded, toNat_byte (by omega), next_later (by omega), decoded,
    toNat_byte (by omega), next_later (by omega), decoded, toNat_byte (by omega), next_last (by omega),
    Nat.add_sub_cancel, Nat.add_sub_cancel, Nat.add_sub_cancel, Nat.add_sub_cancel]
  rfl

theorem decoded_char (c : Char) (rest : List UInt8) :
    decoded none (String.utf8EncodeChar c ++ rest) = c :: decoded none rest := by
  have hvalid : c.toNat < 0xD800 ∨ 0xDFFF < c.toNat ∧ c.toNat < 0x110000 := c.valid
  have hchar (n : ℕ) (h : n = c.toNat) : Char.ofNat n = c := by rw [h, Char.ofNat_toNat]
  rw [String.utf8EncodeChar, show c.val.toNat = c.toNat from rfl]
  split_ifs with hone htwo hthree
  · rw [List.singleton_append, decoded, toNat_byte (by omega), first_ascii (by omega), Char.ofNat_toNat]
    rfl
  · exact (decoded_two rest (by omega) (by omega)).trans (by rw [hchar _ (by omega)])
  · exact (decoded_three rest (by omega) (by omega) (by omega) (by omega) (by omega)).trans
      (by rw [hchar _ (by omega)])
  · have hhigh : c.toNat / 262144 % 8 = c.toNat / 262144 := by omega
    exact (decoded_four rest (by omega) (by omega) (by omega) (by omega) (by omega) (by omega)).trans
      (by rw [hchar _ (by omega)])

theorem decoded_utf8 : ∀ text, decoded none (utf8 text) = text
  | [] => rfl
  | c :: text => by
    rw [utf8, List.flatMap_cons, decoded_char, ← utf8, decoded_utf8 text]

end Utf8

/-- The text of bytes. -/
def decodedUtf8 (bytes : List UInt8) : List Char := Utf8.decoded none bytes

/-- **UTF-8 is read back.** -/
theorem decodedUtf8_utf8 (text : List Char) : decodedUtf8 (utf8 text) = text := Utf8.decoded_utf8 text

/-- **Lines are read apart.** -/
theorem decodedUtf8_newline (front more : List UInt8) :
    decodedUtf8 (front ++ 10 :: more) = decodedUtf8 front ++ '\n' :: decodedUtf8 more :=
  Utf8.decoded_newline more front none

/-- A line break is a byte of its own. -/
theorem newline_mem_utf8 {text : List Char} (h : '\n' ∉ text) : 10 ∉ utf8 text := by
  intro hmem
  obtain ⟨c, hc, hb⟩ := List.mem_flatMap.mp hmem
  rcases Nat.lt_or_ge c.toNat 128 with hlt | hge
  · rw [utf8EncodeChar_of_lt hlt, List.mem_singleton] at hb
    have hnat : c.toNat = 10 := by
      have hbyte := congrArg UInt8.toNat hb
      rw [Utf8.toNat_byte (by omega)] at hbyte
      exact hbyte.symm
    rw [← Char.ofNat_toNat c, hnat] at hc
    exact h hc
  · exact absurd (le_of_mem_utf8EncodeChar hge 10 hb) (by decide)

end Speecher
