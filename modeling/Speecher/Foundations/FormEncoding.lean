import Speecher.Foundations.Blocks
import Speecher.Foundations.PercentEncoding

/-!
# Form encoding

The parameters of a link's query: names and values in pairs, each encoded on its own, with `=` between the two and `&`
between one pair and the next. Encoders differ in the characters they keep and in how they write a space; a
`FormEncoding` is any one of them.

* `decodeForm_encode`: what any encoder writes is read back.
* `splitOn_query`: a query is taken apart into the pairs it was put together from.
-/

namespace Speecher

/-- Whether a character takes a query apart, or stands outside of it. -/
def isQueryMark (c : Char) : Bool := "\"#%&+=?".toList.contains c || c.toNat ≤ 32 || 127 ≤ c.toNat

/-- How an encoder writes a query. -/
structure FormEncoding where
  /-- The characters written as they are. -/
  keeps : Char → Bool
  /-- Whether a space is a `+`, or an escape like the rest. -/
  plus : Bool
  alphanum : ∀ c, c.isAlphanum = true → keeps c = true
  unmarked : ∀ c, keeps c = true → isQueryMark c = false

/-- A letter or digit is no mark. -/
theorem isQueryMark_of_isAlphanum {c : Char} (h : c.isAlphanum = true) : isQueryMark c = false := by
  have hrange : (65 ≤ c.toNat ∧ c.toNat ≤ 90) ∨ (97 ≤ c.toNat ∧ c.toNat ≤ 122) ∨ (48 ≤ c.toNat ∧ c.toNat ≤ 57) := by
    delta Char.isAlphanum Char.isAlpha Char.isUpper Char.isLower Char.isDigit at h
    simpa [UInt32.le_iff_toNat_le, or_assoc] using h
  have hne : ∀ d ∈ "\"#%&+=?".toList, c ≠ d := by
    rintro d hd rfl
    have hmarks : "\"#%&+=?".toList.all (!·.isAlphanum) = true := rfl
    have hc := List.all_eq_true.mp hmarks c hd
    rw [h] at hc
    exact Bool.false_ne_true hc
  simp only [isQueryMark, Bool.or_eq_false_iff, decide_eq_false_iff_not, Nat.not_le]
  refine ⟨⟨?_, by omega⟩, by omega⟩
  rw [← Bool.not_eq_true, List.contains_iff_mem]
  exact fun hmem => hne c hmem rfl

namespace FormEncoding

/-- Letters and digits kept, a space as a `+`. -/
def alphanumeric : FormEncoding where
  keeps := Char.isAlphanum
  plus := true
  alphanum _ h := h
  unmarked _ h := isQueryMark_of_isAlphanum h

variable (e : FormEncoding)

def encodeChar (c : Char) : List Char :=
  if e.keeps c then [c]
  else if e.plus ∧ c = ' ' then ['+']
  else (String.utf8EncodeChar c).flatMap percentByte

def encode (text : List Char) : List Char := text.flatMap e.encodeChar

/-- A name and its value. -/
def pair (p : List Char × List Char) : List Char := e.encode p.1 ++ '=' :: e.encode p.2

def query (params : List (List Char × List Char)) : List Char := ['&'].intercalate (params.map e.pair)

/-! ## What is written -/

theorem isAlphanum_hexDigit : ∀ n < 16, (hexDigit n).isAlphanum = true := by decide

theorem mem_percentByte {b : UInt8} : ∀ c ∈ percentByte b, isQueryMark c = false ∨ c = '%' := by
  have hlt := b.toNat_lt
  intro c hc
  simp only [percentByte, List.mem_cons, List.not_mem_nil, or_false] at hc
  rcases hc with rfl | rfl | rfl
  · exact .inr rfl
  · exact .inl (isQueryMark_of_isAlphanum (isAlphanum_hexDigit _ (by omega)))
  · exact .inl (isQueryMark_of_isAlphanum (isAlphanum_hexDigit _ (by omega)))

/-- Nothing written takes a query apart. -/
theorem mem_encode {text : List Char} : ∀ c ∈ e.encode text, isQueryMark c = false ∨ c = '%' ∨ c = '+' := by
  intro c hc
  obtain ⟨d, -, hd⟩ := List.mem_flatMap.mp hc
  rw [encodeChar] at hd
  split_ifs at hd with hkeep hplus
  · rw [List.mem_singleton.mp hd]
    exact .inl (e.unmarked d hkeep)
  · exact .inr (.inr (List.mem_singleton.mp hd))
  · obtain ⟨b, -, hb⟩ := List.mem_flatMap.mp hd
    exact (mem_percentByte c hb).imp_right .inl

theorem not_mem_encode {c : Char} (h : isQueryMark c = true) (hpercent : c ≠ '%') (hplus : c ≠ '+')
    (text : List Char) : c ∉ e.encode text := by
  intro hc
  rcases e.mem_encode c hc with hmark | rfl | rfl
  · exact absurd (hmark.symm.trans h) Bool.false_ne_true
  · exact hpercent rfl
  · exact hplus rfl

/-- The characters of a query. -/
theorem mem_query {params : List (List Char × List Char)} :
    ∀ c ∈ e.query params, isQueryMark c = false ∨ c ∈ "%+&=".toList := by
  intro c hc
  have hcode : ∀ {text}, c ∈ e.encode text → isQueryMark c = false ∨ c ∈ "%+&=".toList := by
    intro text h
    rcases e.mem_encode c h with h | rfl | rfl
    · exact .inl h
    · exact .inr (by decide)
    · exact .inr (by decide)
  rcases mem_of_mem_intercalate hc with hc | ⟨piece, hpiece, hc⟩
  · rw [List.mem_singleton.mp hc]
    exact .inr (by decide)
  · obtain ⟨p, -, rfl⟩ := List.mem_map.mp hpiece
    rcases List.mem_append.mp hc with hc | hc
    · exact hcode hc
    · rcases List.mem_cons.mp hc with rfl | hc
      · exact .inr (by decide)
      · exact hcode hc

/-! ## Taking a query apart -/

theorem splitOn_query {params : List (List Char × List Char)} (h : params ≠ []) :
    (e.query params).splitOn '&' = params.map e.pair := by
  refine List.splitOn_intercalate '&' ?_ (by simpa using h)
  intro piece hpiece hmem
  obtain ⟨p, -, rfl⟩ := List.mem_map.mp hpiece
  have hfree : ∀ text, '&' ∉ e.encode text := e.not_mem_encode rfl (by decide) (by decide)
  rcases List.mem_append.mp hmem with hmem | hmem
  · exact hfree _ hmem
  · rcases List.mem_cons.mp hmem with heq | hmem
    · exact absurd heq (by decide)
    · exact hfree _ hmem

theorem takeWhile_pair (p : List Char × List Char) : (e.pair p).takeWhile (· ≠ '=') = e.encode p.1 := by
  have hfree := e.not_mem_encode (c := '=') rfl (by decide) (by decide) p.1
  rw [pair, List.takeWhile_append_of_pos (by
    intro c hc
    exact decide_eq_true fun h => hfree (h ▸ hc)), List.takeWhile_cons_of_neg (by decide), List.append_nil]

theorem drop_pair (p : List Char × List Char) : ((e.pair p).dropWhile (· ≠ '=')).drop 1 = e.encode p.2 := by
  have hfree := e.not_mem_encode (c := '=') rfl (by decide) (by decide) p.1
  rw [pair, List.dropWhile_append_of_pos (by
    intro c hc
    exact decide_eq_true fun h => hfree (h ▸ hc)), List.dropWhile_cons_of_neg (by decide)]
  rfl

/-! ## Reading back -/

/-- The tokens a character is read as. -/
def charTokens (c : Char) : List (UInt8 ⊕ Char) :=
  if e.keeps c ∨ (e.plus ∧ c = ' ') then [.inr c] else (String.utf8EncodeChar c).map .inl

theorem formTokens_flatMap_percentByte (bytes : List UInt8) (rest : List Char) :
    formTokens (bytes.flatMap percentByte ++ rest) = (formTokens rest).map (bytes.map .inl ++ ·) := by
  induction bytes with
  | nil => exact Option.map_id'.symm
  | cons b bytes ih =>
    rw [List.flatMap_cons, List.append_assoc, formTokens_percentByte, ih, Option.map_map]
    rfl

theorem formTokens_encodeChar (c : Char) (rest : List Char) :
    formTokens (e.encodeChar c ++ rest) = (formTokens rest).map (e.charTokens c ++ ·) := by
  rw [encodeChar, charTokens]
  by_cases hkeep : e.keeps c = true
  · have hmark := e.unmarked c hkeep
    rw [if_pos hkeep, if_pos (.inl hkeep), List.singleton_append, formTokens_char]
    · rfl
    · rintro rfl
      exact absurd hmark (by decide)
    · rintro rfl
      exact absurd hmark (by decide)
  · by_cases hplus : e.plus = true ∧ c = ' '
    · rw [if_neg hkeep, if_pos hplus, if_pos (.inr hplus), hplus.2]
      rfl
    · rw [if_neg hkeep, if_neg hplus, if_neg (by tauto), formTokens_flatMap_percentByte]

theorem formTokens_encode (text : List Char) : formTokens (e.encode text) = some (text.flatMap e.charTokens) := by
  induction text with
  | nil => rfl
  | cons c text ih => rw [encode, List.flatMap_cons, formTokens_encodeChar, ← encode, ih]; rfl

variable {decode : List UInt8 → List Char}

theorem formText_inl (bytes : List UInt8) (rest : List (UInt8 ⊕ Char)) :
    ∀ escaped, formText decode escaped (bytes.map .inl ++ rest) = formText decode (escaped ++ bytes) rest := by
  induction bytes with
  | nil => exact fun escaped => by rw [List.map_nil, List.nil_append, List.append_nil]
  | cons b bytes ih =>
    intro escaped
    rw [List.map_cons, List.cons_append, formText, ih, List.append_assoc, List.singleton_append]

/-- The escaped bytes of some text, and the tokens of more, are the two one after the other. -/
theorem formText_charTokens (hdecode : ∀ text, decode (utf8 text) = text) (text : List Char) :
    ∀ before, formText decode (utf8 before) (text.flatMap e.charTokens) = before ++ text := by
  induction text with
  | nil => exact fun before => (hdecode before).trans (List.append_nil before).symm
  | cons c text ih =>
    intro before
    rw [List.flatMap_cons, charTokens]
    split
    · rw [List.singleton_append, formText, hdecode]
      exact congrArg (before ++ c :: ·) (ih [])
    · rw [formText_inl, ← utf8_singleton, ← utf8_append, ih, List.append_assoc]
      rfl

/-- **What any encoder writes is read back.** -/
theorem decodeForm_encode (hdecode : ∀ text, decode (utf8 text) = text) (text : List Char) :
    decodeForm decode (e.encode text) = some text := by
  rw [decodeForm, formTokens_encode, Option.map_some]
  exact congrArg some (e.formText_charTokens hdecode text [])

end FormEncoding

end Speecher
