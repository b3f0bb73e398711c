import Speecher.Bindings.Matcher

/-!
# Spoken "don't replace" directives

The desktop's `NoBindDirectiveParser`. A directive runs from a negation to an action word within
twelve words of it; its target is a match inside it, else the nearest match within eight words
after it, or before it when it points back. `excludedPhrases` lists the normalized phrases the
directives of a transcript keep literal.
-/

namespace Speecher

/-- A spoken "don't replace", from its negation to its action word. -/
structure DirectiveSpan where
  startToken : ℕ
  endToken : ℕ
  start : ℕ
  stop : ℕ
  targetFollowsAction : Bool
  deriving DecidableEq

/-- The text of a word, if there is one. -/
def wordAt (tokens : List Token) (index : ℕ) : Option Text := (tokens[index]?).map Token.text

/-- The word is one of a list. -/
def wordIn (tokens : List Token) (words : List String) (index : ℕ) : Bool :=
  (wordAt tokens index).any (words.map String.toList).contains

/-- "not", "never", "dont", "don t" or "do not" at a word, as its word count. -/
def isNoBindNegationAt (tokens : List Token) (index : ℕ) : Option ℕ :=
  if wordIn tokens ["not", "never", "dont"] index then some 1
  else if wordIn tokens ["don"] index && wordIn tokens ["t"] (index + 1) then some 2
  else if wordIn tokens ["do"] index && wordIn tokens ["not"] (index + 1) then some 2
  else none

/-- The words from `start` up to, not including, `stop`. -/
def wordRange (start stop : ℕ) : List ℕ := List.range' start (stop - start)

/-- The action word within twelve words of `start`: an action, or "turn ... into ... binding". -/
def findBindingAction (tokens : List Token) (start : ℕ) : Option ℕ :=
  (wordRange start (min tokens.length (start + 12))).findSome? fun index =>
    if wordIn tokens
        ["bind", "binding", "bindings", "replace", "replaces", "replacing", "replacement"] index then
      some index
    else if !wordIn tokens ["turn"] index then none
    else
      match (wordRange (index + 1) (min tokens.length (index + 8))).find? (wordIn tokens ["into"]) with
      | none => none
      | some intoIndex =>
        (wordRange (intoIndex + 1) (min tokens.length (intoIndex + 5))).find?
          (wordIn tokens ["binding", "bindings"])

/-- The directives of a transcript. -/
def findNoBindDirectiveSpans (tokens : List Token) : List DirectiveSpan :=
  (List.range tokens.length).filterMap fun index =>
    match isNoBindNegationAt tokens index with
    | none => none
    | some negationTokenCount =>
      match findBindingAction tokens (index + negationTokenCount) with
      | none => none
      | some actionEndToken =>
        let anaphoraEnd := min (tokens.length - 1) (actionEndToken + 1)
        let actionHasAnaphora := (wordRange (index + negationTokenCount) (anaphoraEnd + 1)).any
          (wordIn tokens ["that", "this", "it"])
        some
          { startToken := index
            endToken := actionEndToken + 1
            start := (tokens.getD index default).start
            stop := (tokens.getD actionEndToken default).stop
            targetFollowsAction := actionEndToken + 1 < tokens.length && !actionHasAnaphora }

/-- The match lies inside the directive. -/
def matchIsInsideDirective (m : BindingMatch) (directive : DirectiveSpan) : Bool :=
  directive.startToken ≤ m.startToken && m.startToken + m.tokenCount ≤ directive.endToken

/-- The nearest of some matches within eight words by `distance`, the first of two as near;
`none` stands for a match on the wrong side. -/
def nearestMatch (distance : BindingMatch → Option ℕ) (found : List BindingMatch) : Option BindingMatch :=
  (found.foldl (fun (nearest : Option (BindingMatch × ℕ)) m =>
    match distance m with
    | none => nearest
    | some d => if d ≤ 8 && nearest.all (d < ·.2) then some (m, d) else nearest) none).map Prod.fst

/-- The nearest match within eight words before a directive. -/
def nearestMatchBeforeDirective (found : List BindingMatch) (directive : DirectiveSpan) :
    Option BindingMatch :=
  nearestMatch (fun m =>
    if directive.startToken < m.startToken + m.tokenCount then none
    else some (directive.startToken - (m.startToken + m.tokenCount))) found

/-- The nearest match within eight words after a directive. -/
def nearestMatchAfterDirective (found : List BindingMatch) (directive : DirectiveSpan) :
    Option BindingMatch :=
  nearestMatch (fun m =>
    if m.startToken < directive.endToken then none else some (m.startToken - directive.endToken)) found

/-- The matches a directive names. -/
def directiveTargets (found : List BindingMatch) (directive : DirectiveSpan) : List BindingMatch :=
  let inside := found.filter (matchIsInsideDirective · directive)
  if !inside.isEmpty then inside
  else if directive.targetFollowsAction then (nearestMatchAfterDirective found directive).toList
  else (nearestMatchBeforeDirective found directive).toList

variable (u : Unicode)

/-- A rule's phrase added to the phrases kept literal, once. -/
def appendNoBindPhrase (phrases : List Text) (rule : BindingRule) : List Text :=
  let normalized := normalizedPhrase u rule.phrase
  if !normalized.isEmpty && !phrases.contains normalized then phrases ++ [normalized] else phrases

/-- The transcript holds a directive. -/
def hasDirective (transcript : Text) : Bool :=
  !(findNoBindDirectiveSpans (tokenizeWithSpans u transcript)).isEmpty

/-- The normalized phrases that the directives of a transcript keep literal. -/
def excludedPhrases (transcript : Text) (rules : List BindingRule) : List Text :=
  let directives := findNoBindDirectiveSpans (tokenizeWithSpans u transcript)
  if directives.isEmpty then []
  else
    let found := findMatches u transcript rules
    (directives.flatMap (directiveTargets found)).foldl (fun phrases m => appendNoBindPhrase u phrases m.rule) []

end Speecher
