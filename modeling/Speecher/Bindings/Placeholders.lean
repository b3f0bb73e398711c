import Mathlib.Algebra.Ring.Nat
import Speecher.Bindings.Matcher

/-!
# Placeholders in refined text

Refinement sees a numbered placeholder where a replacement goes in, and its answer is searched for
the placeholders: those written exactly are replaced, and what is left over must hold no
placeholder-like text but the source's own. The patterns are those of the source, written out.

* `run_exactPlaceholder` and `exactPlaceholder_spec`: the exact pattern matches `SPEECHER_BINDING_`
  and digits with no letter, digit or underscore on either side, and nothing else.
* `mem_exactRuns` : every maximal run of word characters that holds `SPEECHER_BINDING` is one of the
  placeholder-like runs of a text.
-/

namespace Speecher

open Pattern Piece

/-- `[A-Za-z0-9_]`. -/
def wordChar (c : Char) : Bool := c.isAlphanum || c = '_'

/-- `[0-9]`. -/
def digit (c : Char) : Bool := c.isDigit

/-- `[A-Za-z0-9_]` ignoring case: the long s and the Kelvin sign are cases of `s` and `k`. -/
def wordCharAnyCase (c : Char) : Bool := wordChar c || c = 'ſ' || c = '\u212a'

/-- A lower case letter of a pattern and a character of the text are cases of one letter. -/
def sameAnyCase (p c : Char) : Bool :=
  c.toLower = p || (p = 's' && c = 'ſ') || (p = 'k' && c = '\u212a')

/-- `\s` of the desktop's patterns: white space in ASCII. -/
def asciiSpace (c : Char) : Bool := c = ' ' || (0x09 ≤ c.toNat && c.toNat ≤ 0x0d)

/-- `(?<![A-Za-z0-9_])SPEECHER_BINDING_[0-9]+(?![A-Za-z0-9_])` -/
def exactPlaceholderRegex : Pattern Char :=
  .notBehind wordChar :: (literal (· = ·) placeholderStem ++
    [.one digit, .many digit, .notAhead wordChar])

/-- `(?<![A-Za-z0-9_])[A-Za-z0-9_]*SPEECHER_BINDING[A-Za-z0-9_]*` -/
def exactRunRegex : Pattern Char :=
  .notBehind wordChar :: .many wordChar ::
    (literal (· = ·) speecherBinding ++ [.many wordChar])

/-- `[\s_-]`, given `\s`. -/
def separator (space : Char → Bool) (c : Char) : Bool := space c || c = '_' || c = '-'

/-- `(?<![A-Za-z0-9_])[A-Za-z0-9_]*speecher[\s_-]*binding[\s_-]*[0-9]+[A-Za-z0-9_]*` ignoring case,
given `\s`. -/
def rewordedRunRegex (space : Char → Bool) : Pattern Char :=
  .notBehind wordCharAnyCase :: .many wordCharAnyCase ::
    (literal sameAnyCase "speecher".toList ++ .many (separator space) ::
      (literal sameAnyCase "binding".toList ++
        [.many (separator space), .one digit, .many digit, .many wordCharAnyCase]))

/-- `QString::toLower`, on the characters a run can hold. -/
def toLower (text : Text) : Text := text.map fun c => if c = '\u212a' then 'k' else c.toLower

/-- The placeholder-like text in a text, each with the word characters around it: runs as written,
and reworded ones in lower case. -/
def placeholderLikeRuns (text : Text) : List Text :=
  exactRunRegex.captures text ++ ((rewordedRunRegex asciiSpace).captures text).map toLower

/-- `QString::toInt` of a word. -/
def toInt (word : Text) : Option ℕ :=
  if word.isEmpty || !word.all digit then none
  else
    let n := word.foldl (fun n c => 10 * n + (c.toNat - 48)) 0
    if n < 2 ^ 31 then some n else none

/-- The words for the digits. -/
def numberWords : List Text :=
  ["zero", "one", "two", "three", "four", "five", "six", "seven", "eight", "nine"].map String.toList

/-- A word is a number or names a digit. -/
def isPlaceholderIndexToken (token : Text) : Bool := (toInt token).isSome || numberWords.contains token

/-- The words after "speecher binding" that `isIndex` takes for an index. -/
def indexesAfter (isIndex : Text → Bool) : List Text → List Text
  | first :: second :: third :: rest =>
    let more := indexesAfter isIndex (second :: third :: rest)
    if first = "speecher".toList && second = "binding".toList && isIndex third then third :: more
    else more
  | _ => []

variable (u : Unicode)

/-- The index of each "speecher binding" and index in a text's words. -/
def spokenPlaceholderIndexes (text : Text) : List Text :=
  indexesAfter isPlaceholderIndexToken (normalizedTokens u text)

/-- The replacement of a placeholder, if it is known; of two alike, the later's. -/
def replacementsByPlaceholder (placeholders : List BindingPlaceholder) (w : Text) : Option Text :=
  (placeholders.reverse.find? (·.placeholder = w)).map (·.replacement)

/-- The text with the rules applied, its placeholders left alone. -/
def applyOutsidePlaceholders (text : Text) (rules : List BindingRule) : Text :=
  if text.isEmpty || rules.isEmpty then text
  else
    splice (fun part => (process u part rules).boundText) text 0
      ((exactPlaceholderRegex.globalMatch text).map fun s => (s, text.extract s.start s.stop))

/-- A refined text with its placeholders restored, unless it was refused. -/
structure BindingRestoreResult where
  ok : Bool
  text : Text
  deriving DecidableEq

/-- The refined text with the known placeholders replaced. -/
def restoredText (refinedText : Text) (placeholders : List BindingPlaceholder) : Text :=
  splice id refinedText 0
    (known (replacementsByPlaceholder placeholders) refinedText (exactPlaceholderRegex.globalMatch refinedText))

/-- The refined text with the known placeholders cut out. -/
def residueText (refinedText : Text) (placeholders : List BindingPlaceholder) : Text :=
  splice id refinedText 0
    (known (fun w => (replacementsByPlaceholder placeholders w).map fun _ => []) refinedText
      (exactPlaceholderRegex.globalMatch refinedText))

/-- The refined text with its placeholders restored; refused when it holds placeholder-like text
that the source does not, or when a placeholder is the source's own text. -/
def restorePlaceholders (refinedText : Text) (placeholders : List BindingPlaceholder)
    (sourceText : Text) : BindingRestoreResult :=
  let sourceRuns := placeholderLikeRuns sourceText
  if placeholders.any fun p => sourceRuns.contains p.placeholder then ⟨false, []⟩
  else
    let residue := residueText refinedText placeholders
    if !(placeholderLikeRuns residue).all sourceRuns.contains then ⟨false, []⟩
    else if !(spokenPlaceholderIndexes u residue).all (spokenPlaceholderIndexes u sourceText).contains then
      ⟨false, []⟩
    else ⟨true, restoredText refinedText placeholders⟩

/-! ## When a refined text is accepted -/

/-- **A refined text is accepted** when no placeholder is the source's own text, and what is left of
it without the known placeholders holds no placeholder-like text but the source's. -/
theorem restore_ok_iff {refined source : Text} {placeholders : List BindingPlaceholder} :
    (restorePlaceholders u refined placeholders source).ok = true ↔
      (∀ p ∈ placeholders, p.placeholder ∉ placeholderLikeRuns source) ∧
        (∀ w ∈ placeholderLikeRuns (residueText refined placeholders), w ∈ placeholderLikeRuns source) ∧
        ∀ i ∈ spokenPlaceholderIndexes u (residueText refined placeholders),
          i ∈ spokenPlaceholderIndexes u source := by
  simp only [restorePlaceholders]
  split_ifs with h₁ h₂ h₃
  · simp only [List.any_eq_true, List.contains_iff_mem] at h₁
    obtain ⟨p, hp, hmem⟩ := h₁
    exact ⟨nofun, fun h => absurd hmem (h.1 p hp)⟩
  · simp only [Bool.not_eq_true', List.all_eq_false, List.contains_iff_mem] at h₂
    obtain ⟨w, hw, hmem⟩ := h₂
    exact ⟨nofun, fun h => absurd (h.2.1 w hw) hmem⟩
  · simp only [Bool.not_eq_true', List.all_eq_false, List.contains_iff_mem] at h₃
    obtain ⟨i, hi, hmem⟩ := h₃
    exact ⟨nofun, fun h => absurd (h.2.2 i hi) hmem⟩
  · simp only [Bool.not_eq_true, List.any_eq_false, List.contains_iff_mem] at h₁
    simp only [Bool.not_eq_true', Bool.not_eq_false, List.all_eq_true, List.contains_iff_mem] at h₂ h₃
    exact ⟨fun _ => ⟨h₁, h₂, h₃⟩, fun _ => rfl⟩

theorem restore_text {refined source : Text} {placeholders : List BindingPlaceholder}
    (h : (restorePlaceholders u refined placeholders source).ok = true) :
    (restorePlaceholders u refined placeholders source).text = restoredText refined placeholders := by
  simp only [restorePlaceholders] at h ⊢
  split_ifs at h ⊢
  rfl

theorem restoredText_eq (refined : Text) (placeholders : List BindingPlaceholder) :
    restoredText refined placeholders = substitute (replacementsByPlaceholder placeholders)
      (exactPlaceholderRegex.pieces none refined) :=
  splice_globalMatch ..

theorem residueText_eq (refined : Text) (placeholders : List BindingPlaceholder) :
    residueText refined placeholders =
      substitute (fun w => (replacementsByPlaceholder placeholders w).map fun _ => [])
        (exactPlaceholderRegex.pieces none refined) :=
  splice_globalMatch ..

/-! ## What the patterns match -/

theorem wordChar_of_digit {c : Char} (h : digit c = true) : wordChar c = true := by
  simp only [digit] at h
  simp [wordChar, Char.isAlphanum, h]

theorem exactPlaceholder_edged : Edged wordChar exactPlaceholderRegex := by
  refine ⟨?_, .inr rfl⟩
  rw [exactPlaceholderRegex, Within, List.forall_mem_cons, List.forall_mem_append]
  refine ⟨trivial, within_literal (List.all_eq_true.mp (by decide)), ?_⟩
  simp only [List.forall_mem_cons, Atom.Within, List.not_mem_nil, false_implies, implies_true, and_true]
  exact ⟨fun _ => wordChar_of_digit, fun _ => wordChar_of_digit⟩

theorem exactRun_edged : Edged wordChar exactRunRegex := by
  refine ⟨?_, .inl rfl⟩
  rw [exactRunRegex, Within, List.forall_mem_cons, List.forall_mem_cons, List.forall_mem_append]
  refine ⟨trivial, fun _ h => h, within_literal (List.all_eq_true.mp (by decide)), ?_⟩
  exact List.forall_mem_singleton.mpr fun _ h => h

/-- The exact pattern matches `SPEECHER_BINDING_` and digits, no word character on either side. -/
theorem exactPlaceholder_matches {b : Option Char} {t : Text} {n : ℕ} :
    Matches exactPlaceholderRegex b t n ↔ b.any wordChar = false ∧
      ∃ ds t', ds ≠ [] ∧ (∀ c ∈ ds, digit c = true) ∧ t = placeholderStem ++ (ds ++ t') ∧
        t'.head?.any wordChar = false ∧ n = (placeholderStem ++ ds).length := by
  rw [exactPlaceholderRegex, matches_notBehind, matches_literal]
  refine and_congr_right fun _ => ⟨?_, ?_⟩
  · rintro ⟨t₁, m, rfl, rfl, h⟩
    obtain ⟨c, t₂, m, rfl, rfl, hc, h₁⟩ := matches_one.mp h
    obtain ⟨ds, t', k, rfl, hds, rfl, h₂⟩ := matches_many.mp h₁
    obtain ⟨ht, h₃⟩ := matches_notAhead.mp h₂
    obtain rfl := matches_nil.mp h₃
    refine ⟨c :: ds, t', List.cons_ne_nil _ _, List.forall_mem_cons.mpr ⟨hc, hds⟩, rfl, ht, ?_⟩
    rw [List.length_append, List.length_cons, Nat.add_zero]
  · rintro ⟨ds, t', hne, hds, rfl, ht, rfl⟩
    cases ds with
    | nil => exact absurd rfl hne
    | cons c ds =>
      obtain ⟨hc, hds⟩ := List.forall_mem_cons.mp hds
      refine ⟨_, ds.length + 1, rfl, by rw [List.length_append, List.length_cons], ?_⟩
      exact .one hc (matches_many.mpr ⟨ds, t', 0, rfl, hds, rfl, .notAhead ht (.nil _ _)⟩)

/-- A placeholder that nothing glues is found. -/
theorem run_exactPlaceholder (ds : Text) {t : Text} {b : Option Char} (hb : b.any wordChar = false)
    (hne : ds ≠ []) (hds : ∀ c ∈ ds, digit c = true) (ht : t.head?.any wordChar = false) :
    exactPlaceholderRegex.run b (placeholderStem ++ ds ++ t) =
      some (placeholderStem ++ ds).length := by
  have hall : ∀ c ∈ placeholderStem ++ ds, wordChar c = true :=
    List.forall_mem_append.mpr ⟨List.all_eq_true.mp (by decide), fun c hc => wordChar_of_digit (hds c hc)⟩
  exact RunAt.run_eq exactPlaceholder_edged ⟨hb, hall, ht⟩ <| exactPlaceholder_matches.mpr
    ⟨hb, ds, t, hne, hds, List.append_assoc _ _ _, ht, rfl⟩

/-- A run of word characters that holds `SPEECHER_BINDING` is matched where it stands. -/
theorem exactRun_matches {w t : Text} (hall : ∀ c ∈ w, wordChar c = true)
    (hw : speecherBinding <:+: w) (b : Option Char) (hb : b.any wordChar = false) :
    ∃ n, Matches exactRunRegex b (w ++ t) n := by
  obtain ⟨v, v', rfl⟩ := hw
  have hv : ∀ c ∈ v, wordChar c = true := fun c hc => hall c (by simp [hc])
  have hv' : ∀ c ∈ v', wordChar c = true := fun c hc => hall c (by simp [hc])
  refine ⟨_, .notBehind hb (matches_many.mpr ⟨v, _, _, ?_, hv, rfl, matches_literal.mpr
    ⟨v' ++ t, v'.length, rfl, rfl, matches_many.mpr ⟨v', t, 0, rfl, hv', rfl, .nil _ _⟩⟩⟩)⟩
  simp only [List.append_assoc]

/-- **Every maximal run of word characters that holds `SPEECHER_BINDING` is placeholder-like.** -/
theorem mem_exactRuns {v w t : Text} (h : RunAt wordChar v.getLast? w t)
    (hw : speecherBinding <:+: w) : w ∈ exactRunRegex.captures (v ++ (w ++ t)) := by
  have hne : w ≠ [] := by
    rintro rfl
    exact absurd (List.infix_nil.mp hw) (by decide)
  rw [captures_eq]
  refine hit_of_runAt exactRun_edged hne (exactRun_matches h.all hw) ?_
  cases v with
  | nil => exact h
  | cons c v => rwa [behind_eq (List.cons_ne_nil c v)]

/-- A text that holds `SPEECHER_BINDING` holds placeholder-like text. -/
theorem placeholderLikeRuns_ne_nil {t : Text} (h : speecherBinding <:+: t) :
    placeholderLikeRuns t ≠ [] := by
  obtain ⟨v, v', rfl⟩ := h
  obtain ⟨v₁, v₂, v₃, v₄, rfl, rfl, hrun⟩ :=
    exists_runAt wordChar (w := speecherBinding) (List.all_eq_true.mp (by decide)) v v'
  have := mem_exactRuns hrun ⟨v₂, v₃, rfl⟩
  simp only [List.append_assoc] at this ⊢
  exact List.ne_nil_of_mem (List.mem_append_left _ this)

end Speecher
