import Speecher.Foundations.JsonText
import Speecher.Settings.Corrections

/-!
# The messages between a command line and the running instance

A request or a response is a JSON object on a line of its own. The encoders write a field only when it
is set and the decoders read a missing one as unset, so a message that holds nothing the wire cannot
carry comes back as it was sent; what the wire does not carry is what `WellFormed` rules out.

* `request_round_trip`, `response_round_trip`, `messages_come_back`: decoding undoes encoding.
* `wellFormed_of_decoded`: what a request decodes to is well formed.
-/

namespace Speecher

inductive IpcCommand
  | toggle
  | start
  | stop
  | cancel
  | showMain
  | showSettings
  | showSetup
  | transcribe
  | recordStart
  | recordStatus
  | recordStop
  | status
  | watchStatus
  | last
  | providers
  | addVocabulary
  | quit
  deriving DecidableEq

/-- The names of the commands on the wire. -/
def kCommandNames : List (IpcCommand × String) :=
  [(.toggle, "toggle"), (.start, "start"), (.stop, "stop"), (.cancel, "cancel"), (.showMain, "showMain"),
    (.showSettings, "showSettings"), (.showSetup, "showSetup"), (.transcribe, "transcribe"),
    (.recordStart, "recordStart"), (.recordStatus, "recordStatus"), (.recordStop, "recordStop"),
    (.status, "status"), (.watchStatus, "watchStatus"), (.last, "last"), (.providers, "providers"),
    (.addVocabulary, "addVocabulary"), (.quit, "quit")]

def ipcCommandName (command : IpcCommand) : Text :=
  ((kCommandNames.lookup command).getD "").toList

def ipcCommandNamed (name : Text) : Option IpcCommand :=
  (kCommandNames.find? fun candidate => name = candidate.2.toList).map Prod.fst

inductive OutputFormat
  | plainText
  | html
  deriving DecidableEq

def outputFormatName : OutputFormat → Text
  | .plainText => "plain".toList
  | .html => "html".toList

def outputFormatFromString (fold : CaseFolding) (value : Text) : Option OutputFormat :=
  [OutputFormat.plainText, .html].find? fun format => sameText fold (trimmed value) (outputFormatName format)

/-- The codes Claude Voice and ChatGPT's dictation accept and those the local models list, and the
automatic choice. -/
def knownSpokenLanguages : List Text :=
  (["am", "ar", "be", "bg", "bn", "bs", "ca", "cs", "da", "de", "el", "en", "es", "et", "fa", "fi", "fr",
    "he", "hi", "hr", "hu", "id", "it", "ja", "kn", "ko", "lt", "lv", "mk", "mr", "ms", "nl", "no", "pl",
    "pt", "ro", "ru", "sk", "sl", "sr", "sv", "sw", "ta", "te", "th", "tl", "tr", "uk", "ur", "vi", "yue",
    "zh"] ++ ["af", "am", "ar", "az", "be", "bg", "bn", "bs", "ca", "cs", "cy", "da", "de", "el", "en",
    "es", "et", "fa", "fi", "fr", "gl", "gu", "he", "hi", "hr", "hu", "hy", "id", "is", "it", "ja", "ka",
    "kk", "kn", "ko", "lt", "lv", "mi", "mk", "ml", "mn", "mr", "ms", "my", "ne", "nl", "no", "pl", "pt",
    "ro", "ru", "sk", "sl", "so", "sr", "sv", "sw", "ta", "te", "th", "tl", "tr", "uk", "ur", "vi", "yue",
    "zh"] ++ ["bg", "hr", "cs", "da", "nl", "en", "et", "fi", "fr", "de", "el", "hu", "it", "lv", "lt",
    "mt", "pl", "pt", "ro", "ru", "sk", "sl", "es", "sv", "uk"] ++ ["af", "am", "ar", "as", "az", "ba",
    "be", "bg", "bn", "bo", "br", "bs", "ca", "cs", "cy", "da", "de", "el", "en", "es", "et", "eu", "fa",
    "fi", "fo", "fr", "gl", "gu", "haw", "ha", "he", "hi", "hr", "ht", "hu", "hy", "id", "is", "it", "ja",
    "jw", "ka", "kk", "km", "kn", "ko", "la", "lb", "ln", "lo", "lt", "lv", "mg", "mi", "mk", "ml", "mn",
    "mr", "ms", "mt", "my", "ne", "nl", "nn", "no", "oc", "pa", "pl", "ps", "pt", "ro", "ru", "sa", "sd",
    "si", "sk", "sl", "sn", "so", "sq", "sr", "su", "sv", "sw", "ta", "te", "tg", "th", "tk", "tl", "tr",
    "tt", "uk", "ur", "uz", "vi", "yi", "yo", "yue", "zh"] ++ ["zh", "en", "yue", "ar", "de", "fr", "es",
    "pt", "id", "it", "ko", "ru", "th", "vi", "ja", "tr", "hi", "ms", "nl", "sv", "da", "fi", "pl", "cs",
    "tl", "fa", "el", "ro", "hu", "mk"] ++ ["en", "fr", "de", "es", "it", "pt", "nl", "pl", "el", "ar",
    "ja", "zh", "vi", "ko"] ++ ["en", "fr", "de", "es", "it", "pt", "nl", "hi"] ++ ["auto"]).map String.toList

def isKnownSpokenLanguage (language : Text) : Bool := knownSpokenLanguages.contains language

/-- What one dictation uses in place of the settings. -/
structure SessionOverrides where
  outputFormat : Option OutputFormat
  writingProfile : Option Text
  spokenLanguage : Option Text
  deriving DecidableEq

structure IpcRequest where
  command : IpcCommand
  overrides : SessionOverrides
  files : List Text
  terms : List Text
  microphoneOnly : Bool
  deriving DecidableEq

inductive RecordingStreamState
  | recording
  | paused
  | reconnecting
  | stopped
  deriving DecidableEq

/-- One audio source of a recording. -/
structure RecordingStreamStatus where
  speaker : Text
  state : RecordingStreamState
  problem : Text
  lostAudioMs : ℤ
  deriving DecidableEq

structure RecordingStatus where
  recording : Bool
  path : Text
  durationMs : ℤ
  streams : List RecordingStreamStatus
  unwrittenLines : ℤ
  writeError : Text
  echoCancellationWarning : Text
  deriving DecidableEq

/-- The status of no recording. -/
def RecordingStatus.none : RecordingStatus := ⟨false, [], 0, [], 0, [], []⟩

@[ext] structure IpcResponse where
  ok : Bool
  state : Text
  message : Text
  writingProfile : Text
  spokenLanguage : Text
  text : Text
  skippedTerms : List Text
  recording : Option RecordingStatus
  unknownCommand : Bool
  deriving DecidableEq

/-- A response with nothing set. -/
def IpcResponse.empty : IpcResponse := ⟨false, [], [], [], [], [], [], none, false⟩

def kUnknownCommandMessage : Text := "Unknown command".toList

/-- A list of texts, left out when empty. -/
def unlessNone (texts : List Text) : Option Json := if texts.isEmpty then none else some (.ofTexts texts)

/-- A JSON array of strings, or nothing when a value is something else; an absent field is empty. -/
def stringList : Option Json → Option (List Text)
  | none => some []
  | some (.array items) => items.mapM Json.text?
  | some _ => none

/-! ## A recording's status -/

def recordingStreamStateName : RecordingStreamState → Text
  | .recording => "recording".toList
  | .paused => "paused".toList
  | .reconnecting => "reconnecting".toList
  | .stopped => "stopped".toList

def RecordingStreamStatus.toJson (stream : RecordingStreamStatus) : Json :=
  .ofFields
    [("speaker", some (.string stream.speaker)),
      ("state", some (.string (recordingStreamStateName stream.state))),
      ("problem", unlessEmpty stream.problem),
      ("lostAudioMs", if 0 < stream.lostAudioMs then some (.number stream.lostAudioMs) else none)]

def recordingStatusJson (status : RecordingStatus) : Json :=
  if !status.recording then .ofFields [("recording", some (.bool false))]
  else
    .ofFields
      [("recording", some (.bool true)), ("path", some (.string status.path)),
        ("durationMs", some (.number status.durationMs)),
        ("streams", some (.array (status.streams.map RecordingStreamStatus.toJson))),
        ("unwrittenLines", if 0 < status.unwrittenLines then some (.number status.unwrittenLines) else none),
        ("writeError", if 0 < status.unwrittenLines then some (.string status.writeError) else none),
        ("echoCancellationWarning", unlessEmpty status.echoCancellationWarning)]

def RecordingStreamStatus.ofJson (stream : Json) : RecordingStreamStatus where
  speaker := Json.toText (stream.value "speaker")
  state := ([RecordingStreamState.recording, .paused, .reconnecting, .stopped].find? fun known =>
    Json.toText (stream.value "state") = recordingStreamStateName known).getD .recording
  problem := Json.toText (stream.value "problem")
  lostAudioMs := Json.toInt 0 (stream.value "lostAudioMs")

def recordingStatusFromJson (object : Json) : RecordingStatus where
  recording := Json.toBool false (object.value "recording")
  path := Json.toText (object.value "path")
  durationMs := Json.toInt 0 (object.value "durationMs")
  streams := ((object.value "streams").elim [] Json.items).map RecordingStreamStatus.ofJson
  unwrittenLines := Json.toInt 0 (object.value "unwrittenLines")
  writeError := Json.toText (object.value "writeError")
  echoCancellationWarning := Json.toText (object.value "echoCancellationWarning")

/-! ## Requests -/

variable (json : JsonText) (fold : CaseFolding)

/-- The object a frame holds. -/
def jsonObject (frame : Text) : Option Json :=
  match json.fromJson frame with
  | some (.object fields) => some (.object fields)
  | _ => none

/-- An object on a line. -/
def frame (object : Json) : Text := json.toJson object ++ ['\n']

def IpcRequest.toJson (request : IpcRequest) : Json :=
  .ofFields
    [("command", some (.string (ipcCommandName request.command))),
      ("outputFormat", request.overrides.outputFormat.map fun format => .string (outputFormatName format)),
      ("writingProfile", request.overrides.writingProfile.map .string),
      ("spokenLanguage", request.overrides.spokenLanguage.map .string),
      ("files", unlessNone request.files), ("terms", unlessNone request.terms),
      ("microphoneOnly", if request.microphoneOnly then some (.bool true) else none)]

def ipcRequestFrame (request : IpcRequest) : Text := frame json request.toJson

/-- A refusal with a message. -/
def refuse (message : String) : Except IpcResponse IpcRequest := .error { IpcResponse.empty with message := message.toList }

/-- A field that reads as unset when empty. -/
def unlessBlank (text : Text) : Option Text := if text.isEmpty then none else some text

/-- A request frame without its newline; the refusal when it is not one. -/
def ipcRequestFromFrame (frame : Text) : Except IpcResponse IpcRequest :=
  match jsonObject json frame with
  | none => refuse "Invalid request"
  | some object =>
    match ipcCommandNamed (Json.toText (object.value "command")) with
    | none => .error { IpcResponse.empty with unknownCommand := true }
    | some command =>
      let outputFormat := Json.toText (object.value "outputFormat")
      let format := outputFormatFromString fold outputFormat
      if !outputFormat.isEmpty && format.isNone then refuse "Unknown output format"
      else
        let language := Json.toText (object.value "spokenLanguage")
        if !language.isEmpty && !isKnownSpokenLanguage language then refuse "Unknown spoken language"
        else
          match stringList (object.value "files"), stringList (object.value "terms") with
          | some files, some terms =>
            .ok
              { command
                overrides :=
                  { outputFormat := if outputFormat.isEmpty then none else format
                    writingProfile := unlessBlank (Json.toText (object.value "writingProfile"))
                    spokenLanguage := unlessBlank language }
                files
                terms
                microphoneOnly := Json.toBool false (object.value "microphoneOnly") }
          | _, _ => refuse "Invalid request"

/-! ## Responses -/

def IpcResponse.toJson (response : IpcResponse) : Json :=
  let message := if response.unknownCommand then kUnknownCommandMessage else response.message
  .ofFields
    [("ok", some (.bool response.ok)), ("state", some (.string response.state)),
      ("message", some (if message.isEmpty then .null else .string message)),
      ("writingProfile", unlessEmpty response.writingProfile),
      ("spokenLanguage", unlessEmpty response.spokenLanguage), ("text", unlessEmpty response.text),
      ("skippedTerms", unlessNone response.skippedTerms),
      ("recording", response.recording.map recordingStatusJson)]

def ipcResponseFrame (response : IpcResponse) : Text := frame json response.toJson

/-- A response frame without its newline. -/
def ipcResponseFromFrame (frame : Text) : Option IpcResponse :=
  (jsonObject json frame).map fun object =>
    let message := Json.toText (object.value "message")
    { ok := Json.toBool false (object.value "ok")
      state := Json.toText (object.value "state")
      message
      writingProfile := Json.toText (object.value "writingProfile")
      spokenLanguage := Json.toText (object.value "spokenLanguage")
      text := Json.toText (object.value "text")
      skippedTerms := (stringList (object.value "skippedTerms")).getD []
      recording := (object.value "recording").map recordingStatusFromJson
      unknownCommand := message = kUnknownCommandMessage }

/-! ## What the wire carries -/

/-- The wire carries the request: its profile is not empty, and its language is a known one. -/
structure IpcRequest.WellFormed (request : IpcRequest) : Prop where
  writingProfile : request.overrides.writingProfile ≠ some []
  spokenLanguage : ∀ language ∈ request.overrides.spokenLanguage, isKnownSpokenLanguage language = true

/-- The wire carries the status: that of a recording with what it lost and could not write counted from
zero, or of none. -/
structure RecordingStatus.WellFormed (status : RecordingStatus) : Prop where
  stopped : status.recording = false → status = .none
  lostAudioMs : ∀ stream ∈ status.streams, 0 ≤ stream.lostAudioMs
  unwrittenLines : 0 ≤ status.unwrittenLines
  writeError : status.unwrittenLines = 0 → status.writeError = []

/-- The wire carries the response, whose message does not pass for an unknown command's. -/
structure IpcResponse.WellFormed (response : IpcResponse) : Prop where
  message : response.unknownCommand = false → response.message ≠ kUnknownCommandMessage
  recording : ∀ status ∈ response.recording, status.WellFormed

/-- The response as the wire carries it: an unknown command's message is the one every release knows. -/
def IpcResponse.carried (response : IpcResponse) : IpcResponse :=
  { response with message := if response.unknownCommand then kUnknownCommandMessage else response.message }

@[simp] theorem stringList_unlessNone (texts : List Text) : stringList (unlessNone texts) = some texts := by
  rw [unlessNone]
  split
  · rename_i h
    rw [List.isEmpty_iff.mp h]
    rfl
  · exact Json.mapM_text?_ofTexts texts

@[simp] theorem toText_map_string (text : Option Text) : Json.toText (text.map .string) = text.getD [] := by
  cases text <;> rfl

@[simp] theorem toInt_unlessZero {n : ℤ} (h : 0 ≤ n) :
    Json.toInt 0 (if 0 < n then some (.number n) else none) = n := by
  split
  · exact Json.toInt_number 0 n
  · show 0 = n
    omega

theorem jsonObject_frame (object : List (String × Option Json)) :
    jsonObject json (frame json (.ofFields object)).dropLast = some (.ofFields object) := by
  rw [frame, List.dropLast_concat, jsonObject, Json.ofFields, json.fromJson_toJson]

@[simp] theorem ipcCommandNamed_name (command : IpcCommand) :
    ipcCommandNamed (ipcCommandName command) = some command := by
  cases command <;> decide

@[simp] theorem outputFormatFromString_name (format : OutputFormat) :
    outputFormatFromString fold (outputFormatName format) = some format := by
  have hplain : sameText fold (trimmed "html".toList) "plain".toList = false := by
    refine Bool.eq_false_iff.mpr fun h => ?_
    have hlength := congrArg List.length ((sameText_iff fold).mp h)
    rw [List.length_map, List.length_map] at hlength
    exact absurd hlength (by decide)
  have hsame : ∀ format, sameText fold (trimmed (outputFormatName format)) (outputFormatName format) = true := by
    intro format
    have : trimmed (outputFormatName format) = outputFormatName format := by
      cases format <;> decide
    rw [this, sameText_self]
  cases format with
  | plainText => exact List.find?_cons_of_pos (hsame .plainText)
  | html =>
    refine (List.find?_cons_of_neg ?_).trans (List.find?_cons_of_pos (hsame .html))
    rw [outputFormatName, outputFormatName, hplain]
    decide

theorem ne_nil_of_known {language : Text} (h : isKnownSpokenLanguage language = true) : language ≠ [] := by
  rintro rfl
  exact absurd h (by decide)

theorem eq_of_unlessBlank {text text' : Text} (h : unlessBlank text = some text') :
    text.isEmpty = false ∧ text' = text := by
  cases text with
  | nil => cases h
  | cons c text => exact ⟨rfl, (Option.some.inj h).symm⟩

theorem unlessBlank_getD {text : Option Text} (h : text ≠ some []) : unlessBlank (text.getD []) = text := by
  cases text with
  | none => rfl
  | some text =>
    have : text ≠ [] := fun h' => h (congrArg some h')
    rw [Option.getD_some, unlessBlank, List.isEmpty_eq_false_iff.mpr this]
    rfl

/-! ## Round trips -/

/-- **A well-formed request comes back as it was sent.** -/
theorem request_round_trip {request : IpcRequest} (h : request.WellFormed) :
    ipcRequestFromFrame json fold (ipcRequestFrame json request).dropLast = .ok request := by
  obtain ⟨command, ⟨format, profile, language⟩, files, terms, microphoneOnly⟩ := request
  have hcommand : Json.toText (some (.string (ipcCommandName command))) = ipcCommandName command := rfl
  have hmicrophone : Json.toBool false (if microphoneOnly then some (.bool true) else none) = microphoneOnly := by
    cases microphoneOnly <;> rfl
  have hformat : Json.toText (format.map fun f => .string (outputFormatName f)) =
      (format.map outputFormatName).getD [] := by
    cases format <;> rfl
  have hformats : (!((format.map outputFormatName).getD []).isEmpty &&
        (outputFormatFromString fold ((format.map outputFormatName).getD [])).isNone) = false ∧
      (if ((format.map outputFormatName).getD []).isEmpty then none
        else outputFormatFromString fold ((format.map outputFormatName).getD [])) = format := by
    cases format with
    | none => exact ⟨rfl, rfl⟩
    | some format =>
      have hname : (outputFormatName format).isEmpty = false := by cases format <;> decide
      simp only [Option.map_some, Option.getD_some, outputFormatFromString_name, hname, Option.isNone_some,
        Bool.and_false, Bool.false_eq_true, if_false, and_self]
  have hlanguage : (!(language.getD []).isEmpty && !isKnownSpokenLanguage (language.getD [])) = false := by
    cases language with
    | none => rfl
    | some language =>
      rw [Option.getD_some, h.spokenLanguage language rfl]
      exact Bool.and_false _
  have hblank : language ≠ some [] := fun hnil => ne_nil_of_known (h.spokenLanguage [] hnil) rfl
  rw [ipcRequestFromFrame, ipcRequestFrame, IpcRequest.toJson, jsonObject_frame]
  simp only [Json.value_ofFields_self, Json.value_ofFields_ne, Json.value_ofFields_nil, Option.or_none, ne_eq,
    String.reduceEq, not_false_eq_true, hcommand, ipcCommandNamed_name, hmicrophone, stringList_unlessNone,
    toText_map_string, hformat, hformats.1, hformats.2, hlanguage, Bool.false_eq_true, if_false,
    unlessBlank_getD h.writingProfile, unlessBlank_getD hblank]

/-- What a frame decodes to is a request the wire carries. -/
theorem wellFormed_of_decoded {frame : Text} {request : IpcRequest}
    (h : ipcRequestFromFrame json fold frame = .ok request) : request.WellFormed := by
  have hblank : ∀ text : Text, unlessBlank text ≠ some [] := by
    intro text hnil
    obtain ⟨hne, rfl⟩ := eq_of_unlessBlank hnil
    cases hne
  rw [ipcRequestFromFrame] at h
  split at h
  · cases h
  · split at h
    · cases h
    · simp only at h
      split at h
      · cases h
      · split at h
        · cases h
        · rename_i hknown
          split at h
          · obtain rfl := Except.ok.inj h
            refine ⟨hblank _, fun language hlanguage => ?_⟩
            obtain ⟨hne, rfl⟩ := eq_of_unlessBlank hlanguage
            simpa [hne] using hknown
          · cases h

theorem ofJson_toJson_stream {stream : RecordingStreamStatus} (h : 0 ≤ stream.lostAudioMs) :
    RecordingStreamStatus.ofJson stream.toJson = stream := by
  obtain ⟨speaker, state, problem, lostAudioMs⟩ := stream
  have hlost : 0 ≤ lostAudioMs := h
  have hstate : ([RecordingStreamState.recording, .paused, .reconnecting, .stopped].find? fun known =>
      recordingStreamStateName state = recordingStreamStateName known) = some state := by
    cases state <;> decide
  simp only [RecordingStreamStatus.ofJson, RecordingStreamStatus.toJson, Json.value_ofFields_self,
    Json.value_ofFields_ne, Json.value_ofFields_nil, Option.or_none, ne_eq, String.reduceEq, not_false_eq_true,
    hstate, Option.getD_some, toText_unlessEmpty, Json.toText_string, toInt_unlessZero hlost]

/-- A recording's status comes back as it was sent. -/
theorem status_round_trip {status : RecordingStatus} (h : status.WellFormed) :
    recordingStatusFromJson (recordingStatusJson status) = status := by
  rw [recordingStatusJson]
  split
  · rename_i hrecording
    rw [h.stopped (by simpa using hrecording)]
    rfl
  · rename_i hrecording
    obtain ⟨recording, path, durationMs, streams, unwrittenLines, writeError, warning⟩ := status
    obtain rfl : recording = true := by simpa using hrecording
    have hunwritten : 0 ≤ unwrittenLines := h.unwrittenLines
    have hstreams : (streams.map RecordingStreamStatus.toJson).map RecordingStreamStatus.ofJson = streams := by
      rw [List.map_map]
      exact (List.map_congr_left fun stream hs => ofJson_toJson_stream (h.lostAudioMs stream hs)).trans
        (List.map_id _)
    have herror : Json.toText (if 0 < unwrittenLines then some (.string writeError) else none) = writeError := by
      split
      · rfl
      · exact (h.writeError (show unwrittenLines = 0 by omega)).symm
    simp only [recordingStatusFromJson, Json.value_ofFields_self, Json.value_ofFields_ne, Json.value_ofFields_nil,
      Option.or_none, ne_eq, String.reduceEq, not_false_eq_true, Json.toBool_bool, Json.toText_string,
      Json.toInt_number, Option.elim_some, Json.items_array, hstreams, herror, toText_unlessEmpty,
      toInt_unlessZero hunwritten]

/-- **A well-formed response comes back as the wire carries it.** -/
theorem response_round_trip {response : IpcResponse} (h : response.WellFormed) :
    ipcResponseFromFrame json (ipcResponseFrame json response).dropLast = some response.carried := by
  obtain ⟨ok, state, message, writingProfile, spokenLanguage, text, skippedTerms, recording, unknownCommand⟩ :=
    response
  have hmessage : ∀ message : Text,
      Json.toText (some (if message.isEmpty then .null else .string message)) = message := by
    intro message
    cases message <;> rfl
  have hrecording : (recording.map recordingStatusJson).map recordingStatusFromJson = recording := by
    cases recording with
    | none => rfl
    | some status => exact congrArg some (status_round_trip (h.recording status rfl))
  have hunknown : decide ((if unknownCommand = true then kUnknownCommandMessage else message) =
      kUnknownCommandMessage) = unknownCommand := by
    cases unknownCommand with
    | true => exact decide_eq_true rfl
    | false => exact decide_eq_false (h.message rfl)
  rw [ipcResponseFromFrame, ipcResponseFrame, IpcResponse.toJson, jsonObject_frame]
  simp only [Option.map_some, Json.value_ofFields_self, Json.value_ofFields_ne, Json.value_ofFields_nil,
    Option.or_none, ne_eq, String.reduceEq, not_false_eq_true, Json.toBool_bool, Json.toText_string,
    toText_unlessEmpty, stringList_unlessNone, Option.getD_some, hmessage, hrecording, hunknown,
    IpcResponse.carried]

theorem carried_eq_iff (response : IpcResponse) :
    response.carried = response ↔ (response.unknownCommand = true → response.message = kUnknownCommandMessage) := by
  rw [IpcResponse.carried, IpcResponse.ext_iff]
  by_cases h : response.unknownCommand = true
  · simp [h, eq_comm]
  · simp [h]

/-- The newline of a frame is its last character. -/
theorem newline_frame (object : List (String × Option Json)) : '\n' ∉ (frame json (.ofFields object)).dropLast := by
  rw [frame, List.dropLast_concat]
  exact json.newline _

/-- **What one side writes on a line the other side reads back**: a well-formed request as it was, a
well-formed response as the wire carries it, and the request of any frame when it is written again. -/
theorem messages_come_back :
    (∀ request : IpcRequest, request.WellFormed →
      '\n' ∉ (ipcRequestFrame json request).dropLast ∧
        ipcRequestFromFrame json fold (ipcRequestFrame json request).dropLast = .ok request) ∧
    (∀ response : IpcResponse, response.WellFormed →
      '\n' ∉ (ipcResponseFrame json response).dropLast ∧
        ipcResponseFromFrame json (ipcResponseFrame json response).dropLast = some response.carried ∧
        (response.carried = response ↔
          (response.unknownCommand = true → response.message = kUnknownCommandMessage))) ∧
    (∀ (frame : Text) (request : IpcRequest), ipcRequestFromFrame json fold frame = .ok request →
      ipcRequestFromFrame json fold (ipcRequestFrame json request).dropLast = .ok request) := by
  refine ⟨fun request h => ⟨newline_frame json _, request_round_trip json fold h⟩, fun response h => ?_,
    fun frame request h => request_round_trip json fold (wellFormed_of_decoded json fold h)⟩
  exact ⟨newline_frame json _, response_round_trip json h, carried_eq_iff response⟩

/-- A request and a response whose texts hold what separates messages. -/
theorem messages_come_back_newlines :
    ipcRequestFromFrame .compact .ascii
        (ipcRequestFrame .compact
          ⟨.transcribe, ⟨some .html, some "wörk\n".toList, some "yue".toList⟩, ["a\n\"b\\".toList, []], [], true⟩).dropLast =
      .ok ⟨.transcribe, ⟨some .html, some "wörk\n".toList, some "yue".toList⟩, ["a\n\"b\\".toList, []], [], true⟩ ∧
    ipcResponseFromFrame .compact
        (ipcResponseFrame .compact { IpcResponse.empty with ok := true, text := "é\n\x7d".toList }).dropLast =
      some { IpcResponse.empty with ok := true, text := "é\n\x7d".toList } := by
  have h := messages_come_back .compact .ascii
  have hrequest : IpcRequest.WellFormed
      ⟨.transcribe, ⟨some .html, some "wörk\n".toList, some "yue".toList⟩, ["a\n\"b\\".toList, []], [], true⟩ := by
    refine ⟨by decide, fun language hlanguage => ?_⟩
    obtain rfl := Option.some.inj hlanguage
    decide
  have hresponse : IpcResponse.WellFormed { IpcResponse.empty with ok := true, text := "é\n\x7d".toList } :=
    ⟨fun _ => by decide, fun status hstatus => nomatch hstatus⟩
  exact ⟨(h.1 _ hrequest).2, (h.2.1 _ hresponse).2.1⟩

/-- The refusal the decoder builds for a command it does not know comes back with a message. -/
theorem refusal_comes_back_with_message :
    ({ IpcResponse.empty with unknownCommand := true } : IpcResponse).WellFormed ∧
      ipcResponseFromFrame .compact
          (ipcResponseFrame .compact { IpcResponse.empty with unknownCommand := true }).dropLast ≠
        some { IpcResponse.empty with unknownCommand := true } := by
  refine ⟨⟨fun h => (Bool.false_ne_true h.symm).elim, fun status hstatus => nomatch hstatus⟩, ?_⟩
  decide

end Speecher
