import Speecher.Bindings.Android
import Speecher.Foundations.JsonText
import Speecher.Foundations.PercentEncoding
import Speecher.Refinement.StreamingRefinement

/-!
# The events of a refinement stream

What each event of a refinement's reply means, on the desktop (`anthropicEvent`, `openAiEvent`: the decoders a
`StreamingRefinement` is given) and on Android (`appendEvent`, in the loop of `readRefinement`). Both read the event's
name and the JSON object it carries. The JSON library is a parameter, `fromJson`, the same for both.
-/

namespace Speecher

/-- `QJsonValue::toObject`. -/
def Json.toObject : Option Json → Json
  | some (.object fields) => .object fields
  | _ => .object []

/-- A primitive value as text, `null` as nothing. -/
def Json.primitiveText : Option Json → Text
  | some (.string text) => text
  | some (.number value) => Json.numberText value
  | some (.bool value) => (toString value).toList
  | _ => []

/-- The kind an error code or type names, if it names one. -/
def knownStreamedErrorKind (code : Text) : Option ProviderFailureKind :=
  if code ∈ ["authentication_error", "permission_error", "invalid_api_key", "401", "403"].map String.toList then
    some .authentication
  else if code ∈ ["rate_limit_error", "rate_limit_exceeded", "insufficient_quota", "429"].map String.toList then
    some .rateLimited
  else if "invalid".toList <:+: code || "not_found".toList <:+: code then some .other
  else none

/-- `streamedErrorKind`, of an error's code and type as text. -/
def streamedErrorKind (code type : Text) : ProviderFailureKind :=
  (knownStreamedErrorKind code).getD ((knownStreamedErrorKind type).getD .server)

section Desktop

open StreamingRefinement

variable (fromJson : Text → Option Json)

/-- `QJsonDocument::fromJson(data).object()`. -/
def documentObject (data : List UInt8) : Json := Json.toObject ((utf8Text data).bind fromJson)

/-- `streamedErrorKind` of the desktop. -/
def errorObjectKind (error : Json) : ProviderFailureKind :=
  streamedErrorKind (Json.primitiveText (error.value "code")) (Json.toText (error.value "type"))

/-- The message of an error event's object: its own text behind what labels it, or the fallback. -/
def errorMessage (label : String) (object : Json) (fallback : Text) : Text :=
  let error := Json.toObject (object.value "error")
  let message := Json.toText (error.value "message")
  let text := Json.toText (error.value label)
  if message.isEmpty then fallback else if text.isEmpty then message else text ++ ": ".toList ++ message

def anthropicErrorMessage (payload : List UInt8) (fallback : Text) : Text :=
  errorMessage "type" (documentObject fromJson payload) fallback

def openAiErrorMessage (payload : List UInt8) (fallback : Text) : Text :=
  errorMessage "code" (documentObject fromJson payload) fallback

def anthropicEvent (label : Text) (name data : List UInt8) : Event :=
  let object := documentObject fromJson data
  let delta := Json.toObject (object.value "delta")
  let stopReason := Json.toText (delta.value "stop_reason")
  if name = utf8 "message_delta".toList ∧ stopReason ≠ [] ∧ stopReason ≠ "end_turn".toList ∧
      stopReason ≠ "stop_sequence".toList then
    ⟨.failed, label ++ " refinement stopped: ".toList ++ stopReason, .invalidResult⟩
  else if name = utf8 "error".toList ∨ Json.toText (object.value "type") = "error".toList then
    ⟨.rejected, anthropicErrorMessage fromJson data (label ++ " refinement error".toList),
      errorObjectKind (Json.toObject (object.value "error"))⟩
  else if name = utf8 "content_block_delta".toList ∧ Json.toText (delta.value "type") = "text_delta".toList then
    ⟨.delta, Json.toText (delta.value "text"), .server⟩
  else if name = utf8 "message_stop".toList then ⟨.complete, [], .server⟩
  else if name ∈ ["message_start", "content_block_start", "content_block_delta", "content_block_stop",
      "message_delta"].map (utf8 ·.toList) then
    ⟨.progress, [], .server⟩
  else {}

/-- `QString::fromLatin1`. -/
def fromLatin1 (bytes : List UInt8) : Text := bytes.map fun b => Char.ofNat b.toNat

def openAiEvent (name data : List UInt8) : Event :=
  let object := documentObject fromJson data
  let terminalFailure := name = utf8 "response.failed".toList ∨ name = utf8 "response.incomplete".toList
  if name = utf8 "error".toList ∨ terminalFailure then
    let response := Json.toObject (object.value "response")
    let reason := Json.toText ((Json.toObject (response.value "incomplete_details")).value "reason")
    let fallback := if reason.isEmpty then "ChatGPT refinement error: ".toList ++ fromLatin1 name else reason
    let source := if terminalFailure then response else object
    let kind :=
      if name = utf8 "response.incomplete".toList then .invalidResult
      else
        errorObjectKind
          (match source.value "error" with
          | some (.object fields) => .object fields
          | _ => source)
    ⟨if terminalFailure then .failed else .rejected, errorMessage "code" source fallback, kind⟩
  else if name = utf8 "response.output_text.delta".toList then ⟨.delta, Json.toText (object.value "delta"), .server⟩
  else if name = utf8 "response.completed".toList then ⟨.complete, [], .server⟩
  else if utf8 "response.".toList <+: name then ⟨.progress, [], .server⟩
  else {}

end Desktop

namespace Android

inductive OAuthProvider
  | claude
  | chatGpt
  deriving DecidableEq

/-- Why a refinement failed: as a `ProviderFailure`, as the provider ended the response itself, or because a value is
no primitive. -/
inductive RefinementFailure
  | provider (kind : ProviderFailureKind) (message : String)
  | stopped (kind : ProviderFailureKind) (message : String)
  | notPrimitive
  deriving DecidableEq

variable (fromJson : Text → Option Json)

/-- `as? JsonObject`. -/
def asObject : Option Json → Option Json
  | some (.object fields) => some (.object fields)
  | _ => none

/-- `?.jsonPrimitive?.content`: the content of JSON's `null` is the text `null`. -/
def primitiveContent : Option Json → Except RefinementFailure (Option Text)
  | none => .ok none
  | some .null => .ok (some "null".toList)
  | some (.object _) | some (.array _) => .error .notPrimitive
  | some value => .ok (some (Json.primitiveText (some value)))

def errorKind (error : Json) : ProviderFailureKind :=
  streamedErrorKind (Json.primitiveText (error.value "code")) (Json.primitiveText (error.value "type"))

/-- The stop reason of a `message_delta` of Claude's. -/
def stopReason (provider : OAuthProvider) (name : Text) (json : Json) : Except RefinementFailure (Option Text) :=
  if provider = .claude ∧ name = "message_delta".toList then
    primitiveContent ((asObject (json.value "delta")).bind (Json.value "stop_reason"))
  else .ok none

/-- The text that an event adds to the output. -/
def deltaText (provider : OAuthProvider) (name : Text) (json : Json) : Except RefinementFailure (Option Text) :=
  if provider = .claude ∧ name = "content_block_delta".toList then
    primitiveContent ((asObject (json.value "delta")).bind (Json.value "text"))
  else if provider = .chatGpt ∧ name = "response.output_text.delta".toList then primitiveContent (json.value "delta")
  else .ok none

/-- The failure that an event reports, whichever the provider. -/
def reportedFailure (name : Text) (json : Json) : Option RefinementFailure :=
  if name = "error".toList then
    some (.provider (errorKind ((asObject (json.value "error")).getD json)) "Refinement provider rejected the request")
  else if name = "response.incomplete".toList then some (.stopped .invalidResult "Refinement was cut short")
  else if name = "response.failed".toList then
    let response := (asObject (json.value "response")).getD json
    some (.stopped (errorKind ((asObject (response.value "error")).getD response))
      "Refinement provider failed the response")
  else none

def completionName : OAuthProvider → Text
  | .claude => "message_stop".toList
  | .chatGpt => "response.completed".toList

/-- `appendEvent`: the output after an event, and whether the event completes it. -/
def appendEvent (provider : OAuthProvider) (name data output : Text) : Except RefinementFailure (Text × Bool) :=
  match asObject (fromJson data) with
  | none => .ok (output, false)
  | some json =>
    match reportedFailure name json with
    | some failure => .error failure
    | none => do
      let reason ← stopReason provider name json
      if reason ≠ none ∧ reason ≠ some "end_turn".toList ∧ reason ≠ some "stop_sequence".toList then
        .error (.stopped .invalidResult "Refinement stopped before completion")
      else do
        let text ← deltaText provider name json
        .ok (output ++ text.getD [], decide (name = completionName provider))

/-- `BufferedReader.readLine`, again and again; `current` is what was read of the line under way. -/
def readLines (current : Text) : Text → List Text
  | [] => if current = [] then [] else [current]
  | '\n' :: rest => current :: readLines [] rest
  | '\r' :: '\n' :: rest => current :: readLines [] rest
  | '\r' :: rest => current :: readLines [] rest
  | c :: rest => readLines (current ++ [c]) rest

/-- The loop of `readRefinement`: its variables, the texts it reported, and the failure that ended it. -/
structure Reading where
  output : Text := []
  event : Text := []
  data : Text := []
  complete : Bool := false
  reported : List Text := []
  failure : Option RefinementFailure := none
  deriving DecidableEq

/-- An event that the loop came to the end of. -/
def Reading.append (provider : OAuthProvider) (s : Reading) : Reading :=
  match appendEvent fromJson provider s.event s.data s.output with
  | .error failure => { s with failure := some failure }
  | .ok (output, complete) => { s with output := output, complete := complete }

/-- A line read by `readRefinement`, until it completes or fails. -/
def Reading.line (provider : OAuthProvider) (s : Reading) (line : Text) : Reading :=
  if s.complete || s.failure.isSome then s
  else if line = [] then
    if s.data = [] then { s with event := [] }
    else
      let s' := s.append fromJson provider
      if s'.failure.isSome then s'
      else
        { s' with
          reported := if s.output.length < s'.output.length then s'.reported ++ [s'.output] else s'.reported,
          event := [], data := [] }
  else if "event:".toList <+: line then { s with event := trim (line.drop 6) }
  else if "data:".toList <+: line then { s with data := s.data ++ trim (line.drop 5) }
  else s

/-- `readRefinement`, at the end of the stream: the refined text, or why there is none. -/
def Reading.result (provider : OAuthProvider) (s : Reading) : Except RefinementFailure Text :=
  let s := if !s.complete && s.failure.isNone && s.data ≠ [] then s.append fromJson provider else s
  match s.failure with
  | some failure => .error failure
  | none =>
    if !s.complete then .error (.provider .invalidResult "Refinement ended before completion")
    else if s.output = [] then .error (.provider .invalidResult "Refinement returned no text")
    else .ok s.output

end Android

end Speecher
