import Mathlib.Data.List.Basic
import Mathlib.Tactic.Common

/-!
# Percent encoding

Text in a link: `toPercentEncoding` keeps letters, digits, `-`, `.`, `_` and `~` and writes every other byte of the
text's UTF-8 as `%` and two digits; `decodeForm` reads it as a form decoder does, where a `+` is a space and the bytes
of a run of escapes are text together.

* `utf8Text_utf8`: UTF-8 reads back.
* `decodeForm_toPercentEncoding`: so does percent encoding, whatever the text.
-/

namespace Speecher

/-! ## UTF-8 -/

def utf8 (text : List Char) : List UInt8 := text.flatMap String.utf8EncodeChar

/-- The text of bytes, when they are UTF-8. -/
def utf8Text (bytes : List UInt8) : Option (List Char) := bytes.toByteArray.utf8Decode?.map Array.toList

/-- **UTF-8 is read back.** -/
theorem utf8Text_utf8 (text : List Char) : utf8Text (utf8 text) = some text := by
  rw [utf8Text, utf8, ← List.utf8Encode, List.utf8Decode?_utf8Encode, Option.map_some]

theorem utf8_append (text text' : List Char) : utf8 (text ++ text') = utf8 text ++ utf8 text' := List.flatMap_append

theorem utf8_singleton (c : Char) : utf8 [c] = String.utf8EncodeChar c := List.flatMap_singleton ..

theorem utf8EncodeChar_of_lt {c : Char} (h : c.toNat < 128) : String.utf8EncodeChar c = [UInt8.ofNat c.toNat] := by
  have hval : c.val.toNat ≤ 127 := Nat.le_of_lt_succ h
  rw [String.utf8EncodeChar]
  exact if_pos hval

/-- Every byte of a character beyond ASCII is beyond ASCII. -/
theorem le_of_mem_utf8EncodeChar {c : Char} (h : 128 ≤ c.toNat) : ∀ b ∈ String.utf8EncodeChar c, 128 ≤ b.toNat := by
  have hval : ¬ c.val.toNat ≤ 127 := Nat.not_le.mpr h
  intro b hb
  simp only [String.utf8EncodeChar, if_neg hval] at hb
  split_ifs at hb <;> simp only [List.mem_cons, List.not_mem_nil, or_false] at hb <;>
    rcases hb with rfl | rfl | rfl | rfl <;> simp only [UInt8.toNat_ofNat'] <;> omega

/-! ## Writing -/

def isUnreserved (c : Char) : Bool := c.isAlphanum || c = '-' || c = '.' || c = '_' || c = '~'

/-- A digit to the base of sixteen. -/
def hexDigit (n : ℕ) : Char := "0123456789ABCDEF".toList.getD n '0'

def percentByte (b : UInt8) : List Char := ['%', hexDigit (b.toNat / 16), hexDigit (b.toNat % 16)]

/-- A byte as it is written: itself where it is an unreserved character, or an escape. -/
def percentEncoded (b : UInt8) : List Char :=
  if isUnreserved (Char.ofNat b.toNat) then [Char.ofNat b.toNat] else percentByte b

def toPercentEncoding (text : List Char) : List Char := (utf8 text).flatMap percentEncoded

/-! ## Reading -/

/-- The value of a digit to the base of sixteen, upper or lower case. -/
def hexValue (c : Char) : Option ℕ :=
  if c.isDigit then some (c.toNat - '0'.toNat)
  else if 'A' ≤ c ∧ c ≤ 'F' then some (c.toNat - 'A'.toNat + 10)
  else if 'a' ≤ c ∧ c ≤ 'f' then some (c.toNat - 'a'.toNat + 10)
  else none

/-- The escaped bytes and the other characters of an encoded text, unless an escape is broken. -/
def formTokens : List Char → Option (List (UInt8 ⊕ Char))
  | [] => some []
  | '%' :: a :: b :: rest =>
    (hexValue a).bind fun high =>
      (hexValue b).bind fun low => (formTokens rest).map (.inl (UInt8.ofNat (16 * high + low)) :: ·)
  | '%' :: _ => none
  | '+' :: rest => (formTokens rest).map (.inr ' ' :: ·)
  | c :: rest => (formTokens rest).map (.inr c :: ·)

section Decoding

variable (decode : List UInt8 → List Char)

/-- The text of tokens, the escaped bytes before them not yet decoded. -/
def formText (escaped : List UInt8) : List (UInt8 ⊕ Char) → List Char
  | [] => decode escaped
  | .inl b :: rest => formText (escaped ++ [b]) rest
  | .inr c :: rest => decode escaped ++ c :: formText [] rest

/-- An encoded text read, `decode` reading the bytes of each run of escapes. -/
def decodeForm (text : List Char) : Option (List Char) := (formTokens text).map (formText decode [])

end Decoding

/-! ## Reading back -/

theorem hexValue_hexDigit : ∀ n < 16, hexValue (hexDigit n) = some n := by decide

/-- The token a byte is read as. -/
def byteToken (b : UInt8) : UInt8 ⊕ Char :=
  if isUnreserved (Char.ofNat b.toNat) then .inr (Char.ofNat b.toNat) else .inl b

theorem formTokens_char {c : Char} (hpercent : c ≠ '%') (hplus : c ≠ '+') (rest : List Char) :
    formTokens (c :: rest) = (formTokens rest).map (.inr c :: ·) := by
  rw [formTokens]
  · exact fun _ _ _ h _ => hpercent h
  all_goals first | exact hpercent | exact hplus

theorem formTokens_percentByte (b : UInt8) (rest : List Char) :
    formTokens (percentByte b ++ rest) = (formTokens rest).map (.inl b :: ·) := by
  have hlt := b.toNat_lt
  rw [percentByte, List.cons_append, List.cons_append, List.cons_append, List.nil_append, formTokens,
    hexValue_hexDigit _ (by omega), hexValue_hexDigit _ (by omega), Option.bind_some, Option.bind_some,
    Nat.div_add_mod, UInt8.ofNat_toNat]

theorem formTokens_percentEncoded (b : UInt8) (rest : List Char) :
    formTokens (percentEncoded b ++ rest) = (formTokens rest).map (byteToken b :: ·) := by
  rw [percentEncoded, byteToken]
  by_cases hb : isUnreserved (Char.ofNat b.toNat) = true
  · rw [if_pos hb, if_pos hb, List.singleton_append, formTokens_char]
    · rintro h
      rw [h] at hb
      exact absurd hb (by decide)
    · rintro h
      rw [h] at hb
      exact absurd hb (by decide)
  · rw [if_neg hb, if_neg hb, formTokens_percentByte]

theorem formTokens_toPercentEncoding (text : List Char) :
    formTokens (toPercentEncoding text) = some ((utf8 text).map byteToken) := by
  rw [toPercentEncoding]
  induction utf8 text with
  | nil => rfl
  | cons b bytes ih => rw [List.flatMap_cons, formTokens_percentEncoded, ih, Option.map_some, List.map_cons]

theorem toNat_of_isUnreserved {c : Char} (h : isUnreserved c = true) : c.toNat < 128 := by
  delta isUnreserved Char.isAlphanum Char.isAlpha Char.isUpper Char.isLower Char.isDigit at h
  simp only [Bool.or_eq_true, Bool.and_eq_true, decide_eq_true_eq, UInt32.le_iff_toNat_le, ge_iff_le] at h
  rcases h with ((((((⟨-, h⟩ | ⟨-, h⟩) | ⟨-, h⟩) | rfl) | rfl) | rfl) | rfl)
  · exact Nat.lt_of_le_of_lt h (by decide)
  · exact Nat.lt_of_le_of_lt h (by decide)
  · exact Nat.lt_of_le_of_lt h (by decide)
  all_goals decide

theorem toNat_ofNat : ∀ n < 256, (Char.ofNat n).toNat = n := by decide +kernel

/-- The bytes of a character that is not kept are escapes. -/
theorem byteToken_of_mem {c : Char} (h : isUnreserved c = false) :
    ∀ b ∈ String.utf8EncodeChar c, byteToken b = .inl b := by
  intro b hb
  refine if_neg fun hkept => ?_
  by_cases hc : c.toNat < 128
  · rw [utf8EncodeChar_of_lt hc, List.mem_singleton] at hb
    have hsame : Char.ofNat b.toNat = c := by
      rw [hb, UInt8.toNat_ofNat', Nat.mod_eq_of_lt (Nat.lt_trans hc (by decide)), Char.ofNat_toNat]
    rw [hsame, h] at hkept
    exact absurd hkept Bool.false_ne_true
  · have hb' := le_of_mem_utf8EncodeChar (Nat.le_of_not_lt hc) b hb
    have hlt := toNat_of_isUnreserved hkept
    rw [toNat_ofNat b.toNat b.toNat_lt] at hlt
    omega

section Decoding

variable {decode : List UInt8 → List Char}

theorem formText_append {bytes : List UInt8} (h : ∀ b ∈ bytes, byteToken b = .inl b) (rest : List (UInt8 ⊕ Char)) :
    ∀ escaped, formText decode escaped (bytes.map byteToken ++ rest) = formText decode (escaped ++ bytes) rest := by
  induction bytes with
  | nil => exact fun escaped => by rw [List.map_nil, List.nil_append, List.append_nil]
  | cons b bytes ih =>
    intro escaped
    rw [List.map_cons, List.cons_append, h b List.mem_cons_self, formText,
      ih fun b' hb' => h b' (List.mem_cons_of_mem b hb'), List.append_assoc, List.singleton_append]

variable (hdecode : ∀ text, decode (utf8 text) = text)

include hdecode

/-- The escaped bytes of some text, and the tokens of more, are the two one after the other. -/
theorem formText_utf8 (text : List Char) : ∀ before : List Char,
    formText decode (utf8 before) ((utf8 text).map byteToken) = before ++ text := by
  induction text with
  | nil => exact fun before => (hdecode before).trans (List.append_nil before).symm
  | cons c text ih =>
    intro before
    rw [← List.singleton_append, utf8_append, utf8_singleton, List.map_append]
    by_cases hc : isUnreserved c = true
    · have hlt := toNat_of_isUnreserved hc
      have hsame : Char.ofNat (UInt8.ofNat c.toNat).toNat = c := by
        rw [UInt8.toNat_ofNat', Nat.mod_eq_of_lt (Nat.lt_trans hlt (by decide)), Char.ofNat_toNat]
      have htoken : byteToken (UInt8.ofNat c.toNat) = .inr c := by rw [byteToken, hsame, if_pos hc]
      rw [utf8EncodeChar_of_lt hlt, List.map_singleton, htoken, List.singleton_append, formText, hdecode]
      exact congrArg (before ++ c :: ·) (ih [])
    · rw [formText_append (byteToken_of_mem (Bool.eq_false_iff.mpr hc)), ← utf8_singleton, ← utf8_append, ih,
        List.append_assoc]

/-- Text without the decoder's marks reads as it stands. -/
theorem decodeForm_plain {text : List Char} (h : ∀ c ∈ text, c ≠ '%' ∧ c ≠ '+') : decodeForm decode text = some text := by
  have htokens : formTokens text = some (text.map .inr) := by
    induction text with
    | nil => rfl
    | cons c text ih =>
      have hc := h c List.mem_cons_self
      rw [formTokens_char hc.1 hc.2, ih fun d hd => h d (List.mem_cons_of_mem c hd)]
      rfl
  have htext : ∀ text : List Char, formText decode [] (text.map .inr) = text := by
    intro text
    induction text with
    | nil => exact hdecode []
    | cons c text ih => rw [List.map_cons, formText, ih, show decode [] = [] from hdecode [], List.nil_append]
  rw [decodeForm, htokens, Option.map_some, htext]

/-- **Percent encoding is read back.** -/
theorem decodeForm_toPercentEncoding (text : List Char) : decodeForm decode (toPercentEncoding text) = some text := by
  rw [decodeForm, formTokens_toPercentEncoding, Option.map_some]
  exact congrArg some (formText_utf8 hdecode text [])

end Decoding

end Speecher
