import Mathlib.Data.List.DropRight
import Speecher.Foundations.Splice

/-!
# The words of a text

Replacement rules match words, not characters: a transcript is cut into runs of letters and
numbers, each case-folded, with the span it covers. A text is a list of characters; those beyond
the basic plane, two code units in the source, are letters or numbers to neither port.

`Unicode` is what the code asks of its platform about words, with what it relies on as fields.
`tokenizeWithSpans` is the scanner and `isToken_of_mem` says all there is to know about a token:
it is a maximal run of letters and numbers, and tokens stand apart (`tokens_apart`).
-/

namespace Speecher

/-- A text, character by character. -/
abbrev Text := List Char

instance : LawfulBEq Text := inferInstance

/-- `QChar::isSpace`: the ASCII white space, NEL, and the Unicode separators. -/
def isSpace (c : Char) : Bool :=
  let n := c.toNat
  n = 0x20 || (0x09 ≤ n && n ≤ 0x0d) || n = 0x85 || n = 0xa0 || n = 0x1680 ||
    (0x2000 ≤ n && n ≤ 0x200a) || n = 0x2028 || n = 0x2029 || n = 0x202f || n = 0x205f || n = 0x3000

/-- What the code asks of its platform about words. -/
structure Unicode where
  /-- `QChar::isLetterOrNumber`. -/
  isLetterOrNumber : Char → Bool
  /-- `QString::toCaseFolded`. -/
  toCaseFolded : Text → Text
  ascii : ∀ c : Char, c.toNat < 128 → isLetterOrNumber c = c.isAlphanum
  space : ∀ c, isSpace c = true → isLetterOrNumber c = false
  folded_ne_nil : ∀ w, w ≠ [] → toCaseFolded w ≠ []
  folded_space : ∀ w, ' ' ∉ w → ' ' ∉ toCaseFolded w

theorem toNat_of_isAlphanum {c : Char} (h : c.isAlphanum = true) : 48 ≤ c.toNat ∧ c.toNat ≤ 122 := by
  delta Char.isAlphanum Char.isAlpha Char.isUpper Char.isLower Char.isDigit at h
  simp only [Bool.or_eq_true, Bool.and_eq_true, decide_eq_true_eq, ge_iff_le, UInt32.le_iff_toNat_le] at h
  change ((65 ≤ c.toNat ∧ c.toNat ≤ 90) ∨ (97 ≤ c.toNat ∧ c.toNat ≤ 122)) ∨
    (48 ≤ c.toNat ∧ c.toNat ≤ 57) at h
  omega

/-- Words of ASCII letters and of ASCII and Arabic digits, on which the platforms agree. -/
def Unicode.basic : Unicode where
  isLetterOrNumber c := c.isAlphanum || (0x660 ≤ c.toNat && c.toNat ≤ 0x669)
  toCaseFolded w := w.map Char.toLower
  ascii := by
    intro c hc
    have : ¬ 0x660 ≤ c.toNat := by omega
    simp [this]
  space := by
    intro c hc
    simp only [isSpace, Bool.or_eq_true, Bool.and_eq_true, decide_eq_true_eq] at hc
    refine Bool.or_eq_false_iff.mpr ⟨?_, ?_⟩
    · by_contra hw
      have := toNat_of_isAlphanum (Bool.not_eq_false _ ▸ hw)
      omega
    · simp only [Bool.and_eq_false_iff, decide_eq_false_iff_not]
      omega
  folded_ne_nil := by simp
  folded_space := by
    intro w hw h
    obtain ⟨c, hc, hl⟩ := List.mem_map.mp h
    delta Char.toLower at hl
    split at hl
    · rename_i hup
      have hval : c.val = ' '.val - ('a'.val - 'A'.val) := by
        rw [← congrArg Char.val hl]
        exact (UInt32.add_sub_cancel ..).symm
      rw [hval] at hup
      exact absurd hup (by decide)
    · exact hw (hl ▸ hc)

/-- One word of a text, case-folded, and the span it covers there. -/
structure Token where
  text : Text
  start : ℕ
  stop : ℕ
  deriving DecidableEq, Inhabited

variable (u : Unicode)

/-- The token that ends at `stop`, if any characters of one were read. -/
def flushToken (current : Text) (tokenStart stop : ℕ) : List Token :=
  if current.isEmpty then [] else [⟨u.toCaseFolded current, tokenStart, stop⟩]

/-- The tokens of the rest of a text, `current` being read since `tokenStart`. -/
def tokenizeFrom : Text → ℕ → Text → ℕ → List Token
  | [], index, current, tokenStart => flushToken u current tokenStart index
  | ch :: rest, index, current, tokenStart =>
    if u.isLetterOrNumber ch then
      tokenizeFrom rest (index + 1) (current ++ [ch]) (if current.isEmpty then index else tokenStart)
    else flushToken u current tokenStart index ++ tokenizeFrom rest (index + 1) [] 0

/-- The words of a text with their spans. -/
def tokenizeWithSpans (text : Text) : List Token := tokenizeFrom u text 0 [] 0

/-- The case-folded words of a text. -/
def normalizedTokens (text : Text) : List Text := (tokenizeWithSpans u text).map Token.text

/-- Words joined by single spaces. -/
def joinWords (words : List Text) : Text := [' '].intercalate words

/-- How a phrase matches: its words, case-folded, with single spaces between them. -/
def normalizedPhrase (text : Text) : Text := joinWords (normalizedTokens u text)

/-- A text without the characters of a class at its two ends. -/
def stripped (p : Char → Bool) (text : Text) : Text := (text.dropWhile p).rdropWhile p

/-- `QString::trimmed`. -/
def trimmed (text : Text) : Text := stripped isSpace text

/-- A text without outer spaces ends in none. -/
theorem getLast?_of_trimmed {text : Text} (h : trimmed text = text) : ∀ c ∈ text.getLast?, isSpace c = false := by
  have hfront : text.dropWhile isSpace = text := by
    refine (List.dropWhile_suffix isSpace).eq_of_length (Nat.le_antisymm (List.dropWhile_suffix isSpace).length_le ?_)
    have hlength := (List.rdropWhile_prefix isSpace (l := text.dropWhile isSpace)).length_le
    rwa [show List.rdropWhile isSpace (text.dropWhile isSpace) = text from h] at hlength
  rw [trimmed, stripped, hfront, List.rdropWhile_eq_self_iff] at h
  intro c hc
  obtain ⟨hne, rfl⟩ := List.mem_getLast?_eq_getLast hc
  exact Bool.eq_false_iff.mpr (h hne)

/-- A text without white space at its ends. -/
theorem trimmed_eq_self {text : Text} (hhead : ∀ c ∈ text.head?, isSpace c = false)
    (hlast : ∀ c ∈ text.getLast?, isSpace c = false) : trimmed text = text := by
  have hdrop : text.dropWhile isSpace = text := by
    cases text with
    | nil => rfl
    | cons c rest => exact List.dropWhile_cons_of_neg (by simp [hhead c rfl])
  rw [trimmed, stripped, hdrop, List.rdropWhile_eq_self_iff]
  intro hne
  rw [hlast _ (List.getLast?_eq_some_getLast hne)]
  exact Bool.false_ne_true

theorem isSpace_head_trimmed (text : Text) : ∀ c ∈ (trimmed text).head?, isSpace c = false := by
  intro c hc
  obtain ⟨tail, htail⟩ := List.rdropWhile_prefix (p := isSpace) (l := text.dropWhile isSpace)
  have hhead : (text.dropWhile isSpace).head? = some c := by
    rw [← htail, List.head?_append, show (List.rdropWhile isSpace (text.dropWhile isSpace)).head? = some c from hc]
    rfl
  simpa [hhead] using List.head?_dropWhile_not isSpace text

theorem isSpace_last_trimmed (text : Text) : ∀ c ∈ (trimmed text).getLast?, isSpace c = false := by
  intro c hc
  have hne : trimmed text ≠ [] := by
    intro hnil
    rw [hnil] at hc
    cases hc
  have hlast := List.rdropWhile_last_not (p := isSpace) (text.dropWhile isSpace) hne
  rw [Option.mem_def, List.getLast?_eq_some_getLast hne, Option.some.injEq] at hc
  rw [← hc]
  exact Bool.eq_false_iff.mpr hlast

theorem stripped_eq_nil {p : Char → Bool} {t : Text} : stripped p t = [] ↔ ∀ c ∈ t, p c = true := by
  rw [stripped, List.rdropWhile_eq_nil_iff]
  refine ⟨fun h => ?_, fun h c hc => h c ((List.dropWhile_suffix p).subset hc)⟩
  have hnil : t.dropWhile p = [] := by
    by_contra hne
    have := List.head_dropWhile_not p hne
    rw [h _ (List.head_mem hne)] at this
    cases this
  exact List.dropWhile_eq_nil_iff.mp hnil

/-- What is left of a trimmed text holds a character that is no white space. -/
theorem exists_of_stripped_ne_nil {p : Char → Bool} {t : Text} (h : stripped p t ≠ []) :
    ∃ c ∈ stripped p t, p c = false :=
  ⟨_, List.getLast_mem h, Bool.eq_false_iff.mpr (List.rdropWhile_last_not p _ h)⟩

theorem stripped_stripped_ne_nil {p : Char → Bool} {t : Text} (h : stripped p t ≠ []) :
    stripped p (stripped p t) ≠ [] := by
  intro hnil
  obtain ⟨c, hc, hp⟩ := exists_of_stripped_ne_nil h
  rw [stripped_eq_nil.mp hnil c hc] at hp
  cases hp

/-! ## What a token is -/

/-- A maximal run of letters and numbers of a text, case-folded. -/
structure IsToken (t : Text) (k : Token) : Prop where
  start_lt : k.start < k.stop
  stop_le : k.stop ≤ t.length
  text_eq : k.text = u.toCaseFolded (t.extract k.start k.stop)
  word : ∀ c ∈ t.extract k.start k.stop, u.isLetterOrNumber c = true
  before : (t.take k.start).getLast?.any u.isLetterOrNumber = false
  after : (t.drop k.stop).head?.any u.isLetterOrNumber = false

/-- Tokens in a row stand apart. -/
abbrev Apart (l : List Token) : Prop := l.Pairwise fun k k' => k.stop < k'.start

theorem isToken_flush {pre current : Text} (rest : Text) {tokenStart : ℕ}
    (hstart : current ≠ [] → tokenStart = pre.length)
    (hw : ∀ c ∈ current, u.isLetterOrNumber c = true)
    (hpre : pre.getLast?.any u.isLetterOrNumber = false)
    (hrest : rest.head?.any u.isLetterOrNumber = false) :
    ∀ k ∈ flushToken u current tokenStart (pre.length + current.length),
      IsToken u (pre ++ (current ++ rest)) k ∧ pre.length ≤ k.start ∧
        k.stop ≤ pre.length + current.length := by
  intro k hk
  rw [flushToken] at hk
  split at hk
  · cases hk
  · rename_i hne
    obtain rfl := List.mem_singleton.mp hk
    have hne : current ≠ [] := by simpa using hne
    have := List.length_pos_of_ne_nil hne
    obtain rfl := hstart hne
    refine ⟨⟨by simpa using this, by simp, ?_, ?_, ?_, ?_⟩, Nat.le_refl _, Nat.le_refl _⟩
    · rw [extract_length_append]
    · rwa [extract_length_append]
    · rwa [List.take_left]
    · simpa [← List.append_assoc] using hrest

/-- The tokens found after `pre`, with `current` being read. -/
theorem tokenizeFrom_spec :
    ∀ (rest pre current : Text) (tokenStart : ℕ), (current ≠ [] → tokenStart = pre.length) →
      (∀ c ∈ current, u.isLetterOrNumber c = true) →
      pre.getLast?.any u.isLetterOrNumber = false →
      let l := tokenizeFrom u rest (pre.length + current.length) current tokenStart
      (∀ k ∈ l, IsToken u (pre ++ (current ++ rest)) k ∧ pre.length ≤ k.start) ∧ Apart l := by
  intro rest
  induction rest with
  | nil =>
    intro pre current tokenStart hs hw hpre
    refine ⟨fun k hk => ?_, ?_⟩
    · have := isToken_flush u [] hs hw hpre rfl k hk
      exact ⟨this.1, this.2.1⟩
    · simp only [tokenizeFrom, flushToken]
      split <;> simp
  | cons ch rest ih =>
    intro pre current tokenStart hs hw hpre
    simp only [tokenizeFrom]
    by_cases hch : u.isLetterOrNumber ch = true
    · have := ih pre (current ++ [ch]) (if current.isEmpty then pre.length + current.length else tokenStart)
        (by
          intro _
          cases current with
          | nil => rfl
          | cons c l => exact hs (List.cons_ne_nil c l))
        (by
          intro c hc
          rcases List.mem_append.mp hc with hc | hc
          · exact hw c hc
          · rwa [List.mem_singleton.mp hc])
        hpre
      rw [List.length_append, ← Nat.add_assoc, List.append_assoc current] at this
      simp only [hch, if_true]
      exact this
    · have hch : u.isLetterOrNumber ch = false := by simpa using hch
      have hflush := isToken_flush u (ch :: rest) hs hw hpre (by simpa using hch)
      obtain ⟨hmem, hapart⟩ := ih (pre ++ (current ++ [ch])) [] 0 (absurd rfl) (by simp) (by simpa using hch)
      simp only [hch, Bool.false_eq_true, if_false]
      simp only [List.length_append, List.length_cons, List.length_nil, List.append_assoc,
        List.nil_append, List.cons_append, Nat.zero_add, Nat.add_zero, ← Nat.add_assoc] at hmem hapart
      refine ⟨fun k hk => ?_, ?_⟩
      · rcases List.mem_append.mp hk with hk | hk
        · exact ⟨(hflush k hk).1, (hflush k hk).2.1⟩
        · exact ⟨(hmem k hk).1, by have := (hmem k hk).2; omega⟩
      · refine List.pairwise_append.mpr ⟨?_, hapart, fun k hk k' hk' => ?_⟩
        · simp only [flushToken]
          split <;> simp
        · have := (hflush k hk).2.2
          have := (hmem k' hk').2
          omega

/-- **A token is a maximal run of letters and numbers.** -/
theorem isToken_of_mem {t : Text} {k : Token} (hk : k ∈ tokenizeWithSpans u t) : IsToken u t k :=
  ((tokenizeFrom_spec u t [] [] 0 (absurd rfl) (by simp) rfl).1 k hk).1

/-- Tokens come in order, and a character that is no letter or number lies between two. -/
theorem tokens_apart (t : Text) : Apart (tokenizeWithSpans u t) :=
  (tokenizeFrom_spec u t [] [] 0 (absurd rfl) (by simp) rfl).2

end Speecher
