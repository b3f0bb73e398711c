import Speecher.Bindings.NoBindDirectives
import Speecher.Bindings.Placeholders

/-!
# The replacement steps of a dictation

The desktop's `TranscriptPipeline`: `prepare` applies the rules to the transcript as heard, less the
phrases its directives keep literal, and `restoreRefinedResult` turns the refiner's answer into the
text to deliver, or refuses it. Of the pipeline's result the fields that decide what is replaced are
modelled; the refinement's settings and context are not.
-/

namespace Speecher

variable (u : Unicode)

/-- Why a rule cannot be used. -/
inductive BindingValidationIssueType
  | emptyPhrase
  | emptyReplacement
  | duplicatePhrase
  deriving DecidableEq

/-- A rule that cannot be used: its row, the row it duplicates, and what the user reads. -/
structure BindingValidationIssue where
  type : BindingValidationIssueType
  row : ℕ
  duplicateOf : Option ℕ
  message : String
  deriving DecidableEq

/-- The message of an issue; rows are counted from one. -/
def validationMessage (type : BindingValidationIssueType) (row : ℕ) (duplicateOf : Option ℕ) : String :=
  match type with
  | .emptyPhrase =>
    "Row " ++ toString (row + 1) ++ " needs a spoken phrase containing at least one letter or number."
  | .emptyReplacement => "Row " ++ toString (row + 1) ++ " needs replacement text."
  | .duplicatePhrase =>
    "Row " ++ toString (row + 1) ++ " duplicates the normalized spoken phrase from row " ++
      toString (duplicateOf.getD 0 + 1) ++ "."

/-- An issue of a row with its message. -/
def issueAt (type : BindingValidationIssueType) (row : ℕ) (duplicateOf : Option ℕ) : BindingValidationIssue :=
  ⟨type, row, duplicateOf, validationMessage type row duplicateOf⟩

/-- What validating rules yields: the issues and the usable rules. -/
structure BindingValidationResult where
  issues : List BindingValidationIssue
  rules : List BindingRule

/-- The rules from `row` on validated, `seen` being the phrases taken and their rows. -/
def validateFrom : List BindingRule → ℕ → List (Text × ℕ) → BindingValidationResult
  | [], _, _ => ⟨[], []⟩
  | rule :: rest, row, seen =>
    let phrase := trimmed rule.phrase
    let tokens := normalizedTokens u phrase
    let normalized := joinWords tokens
    if phrase.isEmpty || tokens.isEmpty then
      let result := validateFrom rest (row + 1) seen
      ⟨issueAt .emptyPhrase row none :: result.issues, result.rules⟩
    else if (trimmed rule.replacement).isEmpty then
      let result := validateFrom rest (row + 1) seen
      ⟨issueAt .emptyReplacement row none :: result.issues, result.rules⟩
    else
      match seen.lookup normalized with
      | some duplicateOf =>
        let result := validateFrom rest (row + 1) seen
        ⟨issueAt .duplicatePhrase row (some duplicateOf) :: result.issues, result.rules⟩
      | none =>
        let result := validateFrom rest (row + 1) ((normalized, row) :: seen)
        ⟨result.issues, ⟨phrase, rule.replacement⟩ :: result.rules⟩

/-- `BindingProcessor::validateRules`. -/
def validateRules (rules : List BindingRule) : BindingValidationResult := validateFrom u rules 0 []

/-- The phrases the directives keep literal among the usable rules. -/
def explicitNoBindPhrases (transcript : Text) (rules : List BindingRule) : List Text :=
  excludedPhrases u transcript (validateRules u rules).rules

/-- The rules whose phrases are not kept literal. -/
def withoutNoBindPhrases (rules : List BindingRule) (normalizedNoBindPhrases : List Text) :
    List BindingRule :=
  if normalizedNoBindPhrases.isEmpty then rules
  else rules.filter fun rule => !normalizedNoBindPhrases.contains (normalizedPhrase u rule.phrase)

/-- Every occurrence of a non-empty text replaced, left to right, as `QString::replace` does. -/
def replaceAll (before after : Text) : ℕ → Text → Text
  | _, [] => []
  | 0, c :: rest =>
    if before <+: c :: rest then after ++ replaceAll before after (before.length - 1) rest
    else c :: replaceAll before after 0 rest
  | skip + 1, _ :: rest => replaceAll before after skip rest

/-- A Snippet's `{date}` and `{time}`, filled with a date and a time. -/
def withVariablesFilled (date time : Text) (rules : List BindingRule) : List BindingRule :=
  rules.map fun rule =>
    ⟨rule.phrase, replaceAll "\x7btime\x7d".toList time 0
      (replaceAll "\x7bdate\x7d".toList date 0 rule.replacement)⟩

/-- A revised selection without the blank lines before it and the white space after it: the matches of
`^\s*\n|\s+$` removed. -/
def trimmedKeepingIndentation (text : Text) : Text :=
  let blank := text.takeWhile asciiSpace
  (blank.rtakeWhile (· ≠ '\n') ++ text.dropWhile asciiSpace).rdropWhile asciiSpace

/-- What a target tells of its selection. -/
structure Selection where
  secure : Bool
  editable : Bool
  selectionStart : ℤ
  selectionEnd : ℤ
  selectedText : Text

/-- `Target::hasSelection`. -/
def Selection.hasSelection (s : Selection) : Bool :=
  !s.secure && s.editable && 0 ≤ s.selectionStart && s.selectionStart < s.selectionEnd &&
    !s.selectedText.isEmpty

/-- A target without a selection. -/
def Selection.none : Selection := ⟨false, true, -1, -1, []⟩

/-- What preparing a transcript decides about replacing. -/
structure TranscriptPipelineResult where
  noBindPhrases : List Text
  allowPostRefinementBindings : Bool
  activeBindingRules : List BindingRule
  bindingResult : BindingProcessingResult
  editsSelection : Bool
  deliveryFallback : Text
  refinementInput : Text
  refinementSource : Text

/-- `TranscriptPipeline::prepare`, given the rules that apply in the target and its selection. -/
def prepare (rawTranscript : Text) (bindings : List BindingRule) (target : Selection) :
    TranscriptPipelineResult :=
  let noBindPhrases := explicitNoBindPhrases u rawTranscript bindings
  let activeBindingRules := withoutNoBindPhrases u bindings noBindPhrases
  let bindingResult := process u rawTranscript activeBindingRules
  let editsSelection := target.hasSelection
  { noBindPhrases
    allowPostRefinementBindings :=
      !editsSelection && (!hasDirective u rawTranscript || !noBindPhrases.isEmpty)
    activeBindingRules
    bindingResult
    editsSelection
    deliveryFallback := if editsSelection then target.selectedText else bindingResult.boundText
    refinementInput := bindingResult.placeholderText
    refinementSource :=
      if editsSelection then rawTranscript ++ '\n' :: target.selectedText else rawTranscript }

/-- `TranscriptPipeline::restoreRefinedResult`: the text to deliver, or `none` when the refined text
is empty or refused. -/
def restoreRefinedResult (pipeline : TranscriptPipelineResult) (refinedText : Text) : Option Text :=
  let refined := if pipeline.editsSelection then trimmedKeepingIndentation refinedText
    else trimmed refinedText
  if refined.isEmpty then none
  else
    let postBound := if pipeline.allowPostRefinementBindings then
      applyOutsidePlaceholders u refined pipeline.activeBindingRules else refined
    let restored :=
      restorePlaceholders u postBound pipeline.bindingResult.placeholders pipeline.refinementSource
    if restored.ok then some restored.text else none

end Speecher
