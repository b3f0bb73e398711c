import Mathlib.Algebra.Ring.Nat
import Speecher.Bindings.Pipeline

/-!
# Replacements on Android

The Android port of the replacement steps, as its own code has them: `findMatches`, the directives,
`replaceSpoken` and the result's `restore`. The two ports share the word predicate and the case
folding (`Unicode`); what Kotlin and the platform's regular expressions do themselves, trimming,
reading a number and `\s`, is modelled as they do it.
-/

namespace Speecher.Android

open Pattern

/-- `Char.isWhitespace`: the Unicode separators, the ASCII white space and the four ASCII
information separators, but not NEL. -/
def isWhitespace (c : Char) : Bool :=
  let n := c.toNat
  n = 0x20 || (0x09 ≤ n && n ≤ 0x0d) || (0x1c ≤ n && n ≤ 0x1f) || n = 0xa0 || n = 0x1680 ||
    (0x2000 ≤ n && n ≤ 0x200a) || n = 0x2028 || n = 0x2029 || n = 0x202f || n = 0x205f || n = 0x3000

/-- `String.trim`. -/
def trim (text : Text) : Text := stripped isWhitespace text

/-- `String.isBlank`. -/
def isBlank (text : Text) : Bool := text.all isWhitespace

/-- `\s` of the platform's regular expressions: Unicode white space, which is what `QChar` takes for
a space. -/
def regexSpace (c : Char) : Bool := isSpace c

/-- `Character.digit` in base ten: any Unicode decimal digit has a value. -/
structure Digits where
  digit : Char → Option ℕ
  ascii : ∀ c : Char, c.toNat < 128 → digit c = if c.isDigit then some (c.toNat - 48) else none
  lt_ten : ∀ c d, digit c = some d → d < 10

/-- The values of the ASCII and the Arabic digits. -/
def Digits.basic : Digits where
  digit c :=
    if c.isDigit then some (c.toNat - 48)
    else if 0x660 ≤ c.toNat ∧ c.toNat ≤ 0x669 then some (c.toNat - 0x660) else none
  ascii := by
    intro c hc
    have : ¬ (0x660 ≤ c.toNat ∧ c.toNat ≤ 0x669) := by omega
    simp [this]
  lt_ten := by
    intro c d h
    split_ifs at h with h₁ h₂
    · obtain rfl := Option.some.inj h
      simp only [Char.isDigit, Bool.and_eq_true, decide_eq_true_eq, ge_iff_le, UInt32.le_iff_toNat_le] at h₁
      change 48 ≤ c.toNat ∧ c.toNat ≤ 57 at h₁
      omega
    · obtain rfl := Option.some.inj h
      omega

variable (u : Unicode) (v : Digits)

/-- `String.toIntOrNull` of a word. -/
def toIntOrNull (word : Text) : Option ℕ :=
  if word.isEmpty then none
  else word.foldl (fun value c => do
    let n ← value
    let d ← v.digit c
    if 10 * n + d < 2 ^ 31 then some (10 * n + d) else none) (some 0)

/-- The words of the rest of a text, the word being read having begun at `start`. -/
def wordsFrom (text : Text) : Text → ℕ → Option ℕ → List Token
  | [], index, start =>
    start.toList.map fun start => ⟨u.toCaseFolded (text.extract start index), start, index⟩
  | c :: rest, index, start =>
    if u.isLetterOrNumber c then wordsFrom text rest (index + 1) (some (start.getD index))
    else
      (start.toList.map fun start => ⟨u.toCaseFolded (text.extract start index), start, index⟩) ++
        wordsFrom text rest (index + 1) none

/-- The words of a text with their spans. -/
def words (text : Text) : List Token := wordsFrom u text text 0 none

/-- How a phrase matches. -/
def normalizedPhrase (text : Text) : Text := joinWords ((words u text).map Token.text)

/-- The rules from `index` on that can apply, and why each other one cannot; `seen` are the phrases
taken and their rows. -/
def checkFrom : List BindingRule → ℕ → List (Text × ℕ) → List BindingRule × List String
  | [], _, _ => ([], [])
  | rule :: rest, index, seen =>
    let row := index + 1
    let phrase := trim rule.phrase
    let normalized := normalizedPhrase u phrase
    let duplicateOf := seen.lookup normalized
    if normalized.isEmpty then
      let result := checkFrom rest (index + 1) seen
      (result.1, ("Row " ++ toString row ++
        " needs a spoken phrase containing at least one letter or number.") :: result.2)
    else if isBlank rule.replacement then
      let result := checkFrom rest (index + 1) seen
      (result.1, ("Row " ++ toString row ++ " needs replacement text.") :: result.2)
    else
      match duplicateOf with
      | some duplicateOf =>
        let result := checkFrom rest (index + 1) seen
        (result.1, ("Row " ++ toString row ++ " duplicates the normalized spoken phrase from row " ++
          toString (duplicateOf + 1) ++ ".") :: result.2)
      | none =>
        let result := checkFrom rest (index + 1) ((normalized, index) :: seen)
        (⟨phrase, rule.replacement⟩ :: result.1, result.2)

/-- The rules that can apply, in order, and why each other one cannot. -/
def check (rules : List BindingRule) : List BindingRule × List String := checkFrom u rules 0 []

/-- Where the words of a phrase stand, as matches of its rule. -/
def matchesOf (found : List Token) (rule : BindingRule) : List BindingMatch :=
  let phrase := (normalizedPhrase u rule.phrase).splitOn ' '
  ((List.range (found.length + 1 - phrase.length)).filter fun start =>
    (List.range phrase.length).all fun i => (found[start + i]?).map Token.text == phrase[i]?).map fun start =>
      ⟨rule, start, phrase.length, (found.getD start default).start,
        (found.getD (start + phrase.length - 1) default).stop⟩

/-- The longer match comes first, then the earlier. -/
def longerFirst (left right : BindingMatch) : Bool :=
  if left.tokenCount ≠ right.tokenCount then right.tokenCount < left.tokenCount
  else left.startToken < right.startToken

/-- The candidates accepted in order, each unless one of its words is taken. -/
def acceptFree : List Bool → List BindingMatch → List BindingMatch
  | _, [] => []
  | taken, m :: rest =>
    let span := List.range' m.startToken m.tokenCount
    if span.any (taken.getD · false) then acceptFree taken rest
    else m :: acceptFree (span.foldl (fun taken i => taken.set i true) taken) rest

/-- Where the rules match a text, none overlapping, in text order. -/
def findMatches (text : Text) (rules : List BindingRule) : List BindingMatch :=
  let found := words u text
  let candidates := sortBy longerFirst ((check u rules).1.flatMap (matchesOf u found))
  sortBy (fun left right => left.start < right.start) (acceptFree (found.map fun _ => false) candidates)

/-- The text with each match replaced. -/
def replaceMatches (text : Text) (found : List BindingMatch) (replacement : ℕ → BindingMatch → Text) : Text :=
  splice id text 0 (found.mapIdx fun index m => (m.span, replacement index m))

/-- The placeholder-like text in a text. -/
def placeholderLikeRuns (text : Text) : List Text :=
  exactRunRegex.captures text ++ ((rewordedRunRegex regexSpace).captures text).map toLower

/-- The index of each "speecher binding" and index in a text's words. -/
def spokenPlaceholderIndexes (text : Text) : List Text :=
  indexesAfter (fun word => (toIntOrNull v word).isSome || numberWords.contains word)
    ((words u text).map Token.text)

/-- What a dictation inserts once `replaceSpoken` has run, and what refinement gets instead. -/
structure ReplacedTranscript where
  text : Text
  refinementInput : Text
  skipsRefinement : Bool
  transcript : Text
  placeholders : List BindingPlaceholder
  rules : List BindingRule
  replacesAfterRefinement : Bool
  deriving DecidableEq

/-- A refined text with the rules applied outside its placeholders. -/
def replaceOutsidePlaceholders (rules : List BindingRule) (refined : Text) : Text :=
  if rules.isEmpty then refined
  else
    splice (fun part => replaceMatches part (findMatches u part rules) fun _ m => m.rule.replacement) refined 0
      ((exactPlaceholderRegex.globalMatch refined).map fun s => (s, refined.extract s.start s.stop))

/-- A refined text with its placeholders restored, unless it lost, changed or invented one. -/
def restorePlaceholders (placeholders : List BindingPlaceholder) (refined source : Text) : Option Text :=
  let sourceRuns := placeholderLikeRuns source
  if placeholders.any fun p => sourceRuns.contains p.placeholder then none
  else
    let spans := exactPlaceholderRegex.globalMatch refined
    let replacement := replacementsByPlaceholder placeholders
    let restored := splice id refined 0 (known replacement refined spans)
    let left := splice id refined 0 (known (fun w => (replacement w).map fun _ => []) refined spans)
    if !(placeholderLikeRuns left).all sourceRuns.contains then none
    else if !(spokenPlaceholderIndexes u v left).all (spokenPlaceholderIndexes u v source).contains then none
    else some restored

/-- The refined text with phrases the model repaired replaced and the placeholders restored; `none`
when it is empty or refused. -/
def ReplacedTranscript.restore (r : ReplacedTranscript) (refined : Text) : Option Text :=
  let trimmed := trim refined
  if trimmed.isEmpty then none
  else
    restorePlaceholders u v r.placeholders
      (if r.replacesAfterRefinement then replaceOutsidePlaceholders u r.rules trimmed else trimmed) r.transcript

/-- Every letter or number of the text lies inside a match. -/
def coversEveryWord (text : Text) (found : List BindingMatch) : Bool :=
  (List.range text.length).all fun index =>
    !(text[index]?).any u.isLetterOrNumber || found.any fun m => m.start ≤ index && index < m.stop

/-- A spoken "don't replace", from its negation to its action word. -/
structure Directive where
  startWord : ℕ
  endWord : ℕ
  targetFollows : Bool

/-- The word at a place is one of a list. -/
def inSet (words : List Text) (set : List String) (index : ℕ) : Bool :=
  (words[index]?).any (set.map String.toList).contains

/-- "not", "never", "dont", "don t" or "do not" at a word, as its word count. -/
def negationLength (words : List Text) (index : ℕ) : Option ℕ :=
  if inSet words ["not", "never", "dont"] index then some 1
  else if inSet words ["don"] index && inSet words ["t"] (index + 1) then some 2
  else if inSet words ["do"] index && inSet words ["not"] (index + 1) then some 2
  else none

/-- The action word within twelve words of `start`. -/
def actionWord (words : List Text) (start : ℕ) : Option ℕ :=
  (wordRange start (min words.length (start + 12))).findSome? fun index =>
    if inSet words ["bind", "binding", "bindings", "replace", "replaces", "replacing", "replacement"] index then
      some index
    else if !inSet words ["turn"] index then none
    else
      match (wordRange (index + 1) (min words.length (index + 8))).find? (inSet words ["into"]) with
      | none => none
      | some into =>
        (wordRange (into + 1) (min words.length (into + 5))).find? (inSet words ["binding", "bindings"])

/-- The directives of a text. -/
def noBindDirectives (text : Text) : List Directive :=
  let words := (words u text).map Token.text
  (List.range words.length).filterMap fun index => do
    let negation ← negationLength words index
    let action ← actionWord words (index + negation)
    let anaphora := (wordRange (index + negation) (min (words.length - 1) (action + 1) + 1)).any
      (inSet words ["that", "this", "it"])
    some ⟨index, action + 1, action + 1 < words.length && !anaphora⟩

/-- The first of some matches with the least distance. -/
def minByOrNull (distance : BindingMatch → ℕ) : List BindingMatch → Option BindingMatch
  | [] => none
  | m :: rest =>
    match minByOrNull distance rest with
    | none => some m
    | some best => if distance best < distance m then some best else some m

/-- The matches a directive keeps literal. -/
def targets (found : List BindingMatch) (directive : Directive) : List BindingMatch :=
  let inside := found.filter fun m =>
    directive.startWord ≤ m.startToken && m.startToken + m.tokenCount ≤ directive.endWord
  if !inside.isEmpty then inside
  else if directive.targetFollows then
    (minByOrNull (fun m => m.startToken - directive.endWord)
      ((found.filter fun m => directive.endWord ≤ m.startToken).filter fun m =>
        m.startToken - directive.endWord ≤ 8)).toList
  else
    (minByOrNull (fun m => directive.startWord - (m.startToken + m.tokenCount))
      ((found.filter fun m => m.startToken + m.tokenCount ≤ directive.startWord).filter fun m =>
        directive.startWord - (m.startToken + m.tokenCount) ≤ 8)).toList

/-- The normalized phrases that directives keep literal. -/
def excludedPhrases (transcript : Text) (directives : List Directive) (rules : List BindingRule) : List Text :=
  if directives.isEmpty then []
  else
    (directives.flatMap (targets (findMatches u transcript rules))).map fun m => normalizedPhrase u m.rule.phrase

/-- The rules' texts with a date and a time filled in. -/
def withVariablesFilled (rules : List BindingRule) (date time : Text) : List BindingRule :=
  rules.map fun rule =>
    ⟨rule.phrase, replaceAll "\x7btime\x7d".toList time 0
      (replaceAll "\x7bdate\x7d".toList date 0 rule.replacement)⟩

/-- The replacement step of a dictation. -/
def replaceSpoken (transcript : Text) (rules : List BindingRule) : ReplacedTranscript :=
  let directives := noBindDirectives u transcript
  let excluded := excludedPhrases u transcript directives rules
  let active := rules.filter fun rule => !excluded.contains (normalizedPhrase u rule.phrase)
  let found := findMatches u transcript active
  { text := replaceMatches transcript found fun _ m => m.rule.replacement
    refinementInput := replaceMatches transcript found fun index _ => placeholder index
    skipsRefinement := !found.isEmpty && coversEveryWord u transcript found
    transcript
    placeholders := found.mapIdx fun index m => ⟨placeholder index, m.rule.replacement⟩
    rules := active
    replacesAfterRefinement := directives.isEmpty || !excluded.isEmpty }

end Speecher.Android
