import Speecher.Bindings.Android
import Speecher.Foundations.History
import Speecher.Settings.Vocabulary

/-!
# The dictation engine of the phone

`DictationEngine` listens, streams what it hears to a speech service, has the words cleaned up and puts them into the
field. Its work comes from one queue: taps, chunks of audio, streams that open or fail to, what they report, and the
answers of the cleanup and the batch pass, in any order; each runs to its end before the next. A stream can report
inside the call that ends its input, and fail inside one that sends it audio, before the call returns: what it reports
there is part of the event (`emit`, `sendAudio`).

`step` is what the engine does with an event, and `Effect` what can be seen of it: the audio handed out, the ends told,
the requests made and given up, and the commits. What the panel is shown, the start and stop of the microphone, other
apps' media and the binding of the field have no bearing on these and are left out, with the texts of the failures.
-/

namespace Speecher.Android

inductive SpeechProvider
  | chatGpt
  | claude
  | endpoint
  deriving DecidableEq

inductive CleanupProvider
  | chatGpt
  | claude
  deriving DecidableEq

/-- Only ChatGPT has a batch speech-to-text pass. -/
def SpeechProvider.hasBatchTranscription (provider : SpeechProvider) : Bool := provider = .chatGpt

inductive ProviderFailureKind
  | other
  | unavailable
  | authentication
  | network
  | timeout
  | server
  | rateLimited
  | invalidResult
  | cancelled
  deriving DecidableEq

/-- Signing in fixes a failure of this kind. -/
def ProviderFailureKind.needsSignIn (kind : ProviderFailureKind) : Bool := kind = .authentication || kind = .unavailable

/-- What a speech stream reports. -/
inductive SpeechEvent
  | connected
  | interim (text : Text)
  | final (text : Text)
  | completed
  | failed (kind : ProviderFailureKind) (retryable : Bool)
  deriving DecidableEq

/-- The microphone while listening; stopped for an Insert, with the cleanup that then tidies. -/
inductive Mic
  | on
  | paused
  | stopped (cleanup : Option CleanupProvider)
  deriving DecidableEq

/-- What Retry repeats after a failure. -/
inductive Retry
  | commit (text : Text)
  | refine (cleanup : CleanupProvider)
  | restart
  deriving DecidableEq

inductive Phase
  | idle
  /-- A stream is open or opening; `finishingPause` while the one a pause stopped has not ended. -/
  | listening (mic : Mic) (finishingPause : Bool)
  /-- The batch pass, while no cleanup is named, or the cleanup runs, on words as heard. -/
  | refining (request : ℕ) (cleanup : Option CleanupProvider) (transcript : Text)
  | failed (retry : Retry) (transcript : Text)
  deriving DecidableEq

/-- A commit that went through. -/
structure Inserted where
  text : Text
  audioMillis : ℕ
  speech : SpeechProvider
  cleanups : List CleanupProvider
  dictated : Text
  deriving DecidableEq

/-- A chunk of audio: an array of the microphone's, told apart from any other with the same bytes. -/
structure Chunk where
  array : ℕ
  bytes : List UInt8
  deriving DecidableEq

/-- How a stream fails. -/
structure StreamFailure where
  kind : ProviderFailureKind
  retryable : Bool
  deriving DecidableEq

/-- What can be seen of the engine. -/
inductive Effect
  | started
  | cancelled
  /-- A chunk taken from the microphone. -/
  | captured (audio : Chunk)
  | sent (opening : ℕ) (audio : Chunk)
  /-- A client told that the input ended. -/
  | ended (opening : ℕ)
  /-- A request given up. -/
  | abandoned (request : ℕ)
  /-- A cleanup's answer taken, with the words it was asked to tidy and the selection it was to edit. -/
  | answered (request : ℕ) (replaced : ReplacedTranscript) (edited : Option Text) (text : Text)
  /-- A commit to the field: the selection the dictation edits, the one the field has, and whether the field took it. -/
  | commit (text : Text) (edited : Option Text) (selection : Option Text) (took : Bool)
  | committed (inserted : Inserted)
  deriving DecidableEq

/-- A stream to open, or opened, for a session. -/
structure Opening where
  session : ℕ
  opening : ℕ
  deriving DecidableEq

/-- A cleanup that runs: what it was asked with, for a session's words as heard. -/
structure Cleanup where
  request : ℕ
  session : ℕ
  provider : CleanupProvider
  raw : Text
  replaced : ReplacedTranscript
  edited : Option Text

/-- A batch pass that runs, and the cleanup after it. -/
structure Batch where
  request : ℕ
  cleanup : Option CleanupProvider
  streamed : Text

/-- The field and the user's replacements as an event finds them: the selection at the tap and at a commit. -/
structure Field where
  tapped : Option Text
  selection : Option Text
  takes : Text → Bool
  replacements : List BindingRule

structure DictationEngine where
  phase : Phase
  /-- The opening whose client is kept. -/
  client : Option ℕ
  /-- Audio captured while no client is open. -/
  unsent : List Chunk
  attempt : ℕ
  /-- This dictation has had a live stream. -/
  streamed : Bool
  reconnecting : Bool
  reconnectsLeft : ℕ
  finalText : Text
  interim : Text
  /-- Audio heard after a resume while the paused stream finishes. -/
  heardAfterResume : List Chunk
  /-- The stream opened, with the microphone off, only for audio a resume heard. -/
  heldAudioStream : ℕ
  prepared : Option ReplacedTranscript
  /-- The selection this dictation edits. -/
  selected : Option Text
  sourceProvider : SpeechProvider
  recorded : List UInt8
  recordedTooLong : Bool
  heardBytes : ℕ
  cleanupsCalled : List CleanupProvider
  session : ℕ
  /-- The streams still to open, the ones that were opened, and the requests that run, of any session. -/
  openings : List Opening
  connected : List Opening
  requests : ℕ
  cleanups : List Cleanup
  batches : List Batch
  log : List Effect

namespace DictationEngine

/-- The engine before its first start. -/
def initial : DictationEngine where
  phase := .idle
  client := none
  unsent := []
  attempt := 0
  streamed := false
  reconnecting := false
  reconnectsLeft := 0
  finalText := []
  interim := []
  heardAfterResume := []
  heldAudioStream := 0
  prepared := none
  selected := none
  sourceProvider := .chatGpt
  recorded := []
  recordedTooLong := false
  heardBytes := 0
  cleanupsCalled := []
  session := 0
  openings := []
  connected := []
  requests := 0
  cleanups := []
  batches := []
  log := []

/-- How many reconnects a dictation has: one for each of the waits before them. -/
def reconnectBackoffs : ℕ := 2

def PCM_BYTES_PER_MILLI : ℕ := 16 * 2

def MAX_RETRANSCRIBE_BYTES : ℕ := 80000 * PCM_BYTES_PER_MILLI

/-- The batch pass's words, unless it failed or they are far fewer than the streamed ones. -/
def preferredTranscript (batch : Option Text) (streamed : Text) : Text :=
  match batch with
  | none => streamed
  | some batch =>
    if batch = [] ∨ (codeUnits batch).length * 10 < (codeUnits streamed).length * 6 then streamed else batch

/-- A text put after another, with a space between the two. -/
def appended (text more : Text) : Text := if text = [] then more else text ++ ' ' :: more

variable (u : Unicode) (v : Digits)

/-- The blank lines before a revised selection and the white space after it are left out. -/
def withoutBlankEdges (text : Text) : Text :=
  let indent := text.takeWhile regexSpace
  (indent.rtakeWhile (· ≠ '\n') ++ text.dropWhile regexSpace).rdropWhile regexSpace

/-- A revision of the selected text with its placeholders restored. -/
def restoreEdit (r : ReplacedTranscript) (revised selected : Text) : Option Text :=
  let edit := withoutBlankEdges revised
  if edit = [] then none else restorePlaceholders u v r.placeholders edit (r.transcript ++ '\n' :: selected)

variable (s : DictationEngine)

def logged (effect : Effect) : DictationEngine := { s with log := s.log ++ [effect] }

/-- The words heard so far. -/
def transcript : Text :=
  if s.finalText = [] then s.interim
  else if s.interim = [] then s.finalText
  else s.finalText ++ ' ' :: s.interim

/-- The listening phase while an opening is still the stream this dictation waits on. -/
def listeningTo (current opening : ℕ) : Option (Mic × Bool) :=
  match s.phase with
  | .listening mic finishingPause =>
    if current = s.session ∧ opening = s.attempt then some (mic, finishingPause) else none
  | _ => none

/-! ## Ending, failing and committing -/

/-- Stops everything the dictation runs and leaves it idle. -/
def cancelSession : DictationEngine :=
  { s with
    phase := .idle
    client := none
    unsent := []
    heardAfterResume := []
    log := s.log ++
      match s.phase with
      | .refining request _ _ => [.abandoned request]
      | _ => [] }

def showFailure (raw : Text) (retry : Retry) : DictationEngine := { s.cancelSession with phase := .failed retry raw }

/-- Fails the dictation, unless it ended or failed already. -/
def fail (current : ℕ) (raw : Option Text) : DictationEngine :=
  if current ≠ s.session then s
  else
    match s.phase with
    | .idle => s
    | .failed _ _ => s
    | .listening _ _ => s.showFailure (raw.getD s.transcript) .restart
    | .refining _ cleanup _ => s.showFailure (raw.getD s.transcript) (cleanup.elim .restart .refine)

/-- The field did not take a text. -/
def failCommit (text : Text) : DictationEngine := s.showFailure text (.commit text)

/-- What a dictation that put a text in is reported with. -/
def inserted (text : Text) : Inserted where
  text
  audioMillis := s.heardBytes / PCM_BYTES_PER_MILLI
  speech := s.sourceProvider
  cleanups := s.cleanupsCalled
  dictated := if s.selected = none then text else (s.prepared.map ReplacedTranscript.text).getD text

/-- The dictation is done. -/
def report (text : Text) : DictationEngine := { s with phase := .idle }.logged (.committed (s.inserted text))

def commitTranscript (field : Field) (text : Text) : DictationEngine :=
  if s.selected ≠ none ∧ field.selection ≠ s.selected then s.failCommit text
  else if isBlank text then s.report text
  else
    let tried := s.logged (.commit text s.selected field.selection (field.takes text))
    if field.takes text then tried.report text else tried.failCommit text

/-- The replacement step, run once for a dictation. -/
def replaced (field : Field) (raw : Text) : ReplacedTranscript := s.prepared.getD (replaceSpoken u raw field.replacements)

/-- The engine once the replacement step has run. -/
def prepare (field : Field) (raw : Text) : DictationEngine := { s with prepared := some (s.replaced u field raw) }

/-- Commits words as heard, each spoken phrase replaced by its text. -/
def commitHeard (field : Field) (raw : Text) : DictationEngine :=
  (s.prepare u field raw).commitTranscript field (s.replaced u field raw).text

/-- Starts a cleanup of words as heard, unless they are all spoken phrases. -/
def refineTranscript (field : Field) (provider : CleanupProvider) (raw : Text) : DictationEngine :=
  let replaced := s.replaced u field raw
  let prepared := s.prepare u field raw
  if s.selected = none ∧ replaced.skipsRefinement then prepared.commitTranscript field replaced.text
  else
    { prepared with
      phase := .refining s.requests (some provider) raw
      requests := s.requests + 1
      cleanups := s.cleanups ++ [⟨s.requests, s.session, provider, raw, replaced, s.selected⟩] }

/-- The words, tidied where a cleanup is to and there are any. -/
def finish (field : Field) (cleanup : Option CleanupProvider) (text : Text) : DictationEngine :=
  match cleanup with
  | some provider => if isBlank text then s.commitHeard u field text else s.refineTranscript u field provider text
  | none => s.commitHeard u field text

/-- Both Insert buttons once the words are there: the batch pass, where the engine has one, and the cleanup. -/
def insertBest (transcribes : Bool) (field : Field) (cleanup : Option CleanupProvider) : DictationEngine :=
  if !transcribes || !s.sourceProvider.hasBatchTranscription || s.recorded = [] then
    s.finish u field cleanup s.transcript
  else
    { s with
      phase := .refining s.requests none s.transcript
      requests := s.requests + 1
      batches := s.batches ++ [⟨s.requests, cleanup, s.transcript⟩] }

/-! ## Streams -/

/-- Puts the opening of a stream into the queue; the wait before a reconnect is part of the opening. -/
def openStream (current : ℕ) : DictationEngine :=
  { s with attempt := s.attempt + 1, openings := s.openings ++ [⟨current, s.attempt + 1⟩] }

/-- Replaces the ended stream with a new one; the words in progress are kept, as no stream will finish them. -/
def reopen (current : ℕ) : DictationEngine :=
  openStream
    { s with
      finalText := if s.interim = [] then s.finalText else appended s.finalText s.interim
      interim := []
      client := none }
    current

/-- Opens a stream for the audio held back, which ends as it opens. -/
def sendHeldAudio (current : ℕ) : DictationEngine :=
  let reopened := s.reopen current
  { reopened with heldAudioStream := reopened.attempt }

variable (transcribes : Bool) (field : Field)

/-- The paused stream ended, or the one for what a resume heard could not open. -/
def pausedStreamEnded (current : ℕ) (mic : Mic) (openFailed : Bool) : DictationEngine :=
  let s := { s with client := none, unsent := s.unsent ++ s.heardAfterResume, heardAfterResume := [] }
  if openFailed = false ∧ mic ≠ .on ∧ s.unsent ≠ [] then s.sendHeldAudio current
  else
    match mic with
    | .stopped cleanup =>
      if openFailed ∧ s.unsent ≠ [] then s.fail current none
      else insertBest u { s with phase := .listening mic false } transcribes field cleanup
    | .on => reopen { s with phase := .listening mic false } current
    | .paused => { s with phase := .listening mic false }

/-- A stream failed, or could not open. -/
def streamFailed (current : ℕ) (mic : Mic) (retryable : Bool) (kind : ProviderFailureKind) : DictationEngine :=
  match mic with
  | .stopped cleanup =>
    if !kind.needsSignIn && !isBlank s.transcript then s.insertBest u transcribes field cleanup else s.fail current none
  | .on =>
    if retryable && s.streamed && 0 < s.reconnectsLeft then
      reopen { s with reconnectsLeft := s.reconnectsLeft - 1, reconnecting := true } current
    else s.fail current none
  | .paused => s.fail current none

def onSpeech (current opening : ℕ) (event : SpeechEvent) : DictationEngine :=
  match s.listeningTo current opening with
  | none => s
  | some (mic, finishingPause) =>
    match event with
    | .connected => { s with streamed := true, reconnecting := false }
    | .interim text => { s with interim := text }
    | .final text => { s with finalText := appended s.finalText text, interim := [] }
    | .completed =>
      if finishingPause then s.pausedStreamEnded u transcribes field current mic false
      else
        match mic with
        | .stopped cleanup => s.insertBest u transcribes field cleanup
        | .on => s.reopen current
        | .paused => s
    | .failed kind retryable =>
      if opening = s.heldAudioStream then s.fail current none
      else if finishingPause then s.pausedStreamEnded u transcribes field current mic false
      else s.streamFailed u transcribes field current mic retryable kind

/-- What a stream reports before a call to its client returns. -/
def emit (current opening : ℕ) (events : List SpeechEvent) : DictationEngine :=
  events.foldl (fun s event => s.onSpeech u transcribes field current opening event) s

/-- Sends a chunk to a client, which can fail as it is sent it. -/
def sendAudio (current opening : ℕ) (audio : Chunk) (failure : Option StreamFailure) : DictationEngine :=
  let sent := s.logged (.sent opening audio)
  match failure with
  | none => sent
  | some failure => sent.onSpeech u transcribes field current opening (.failed failure.kind failure.retryable)

/-- Tells the client that the input ended. -/
def endInput (events : List SpeechEvent) : DictationEngine :=
  match s.client with
  | none => s
  | some opening => (s.logged (.ended opening)).emit u transcribes field s.session opening events

/-- Hands the audio held back to the client that opened, one chunk at a time, while it stays the client: sent audio, it
can fail, and what is left is then not its to send. -/
def handUnsent (current opening : ℕ) : ℕ → List (Option StreamFailure) → DictationEngine → DictationEngine
  | 0, _, s => s
  | n + 1, failures, s =>
    match s.unsent with
    | [] => s
    | audio :: rest =>
      if s.client = some opening then
        handUnsent current opening n failures.tail
          ({ s with unsent := rest }.sendAudio u transcribes field current opening audio (failures.headD none))
      else s

/-- The stream is open: its client gets the audio held back, and the end of it where the microphone is off. -/
def opened (o : Opening) (failures : List (Option StreamFailure)) (atEnd : List SpeechEvent) : DictationEngine :=
  match s.listeningTo o.session o.opening with
  | none => s
  | some (mic, finishingPause) =>
    let s := { s with client := some o.opening, connected := s.connected ++ [o] }
    let s := handUnsent u transcribes field o.session o.opening s.unsent.length failures s
    if s.client = some o.opening ∧ (mic ≠ .on ∨ finishingPause) then s.endInput u transcribes field atEnd else s

/-- The stream could not open. -/
def openFailed (o : Opening) (kind : ProviderFailureKind) : DictationEngine :=
  match s.listeningTo o.session o.opening with
  | none => s
  | some (mic, finishingPause) =>
    if finishingPause && s.streamed && !kind.needsSignIn then s.pausedStreamEnded u transcribes field o.session mic true
    else s.streamFailed u transcribes field o.session mic (!kind.needsSignIn) kind

/-! ## Taps -/

def startSession (provider : SpeechProvider) (priorTranscript : Text) : DictationEngine :=
  let s := s.cancelSession
  openStream
    { s with
      session := s.session + 1
      finalText := priorTranscript
      interim := []
      prepared := none
      selected := none
      sourceProvider := provider
      streamed := false
      reconnecting := false
      reconnectsLeft := reconnectBackoffs
      phase := .listening .on false }
    (s.session + 1)

def start (provider : SpeechProvider) : DictationEngine :=
  (startSession { s with recorded := [], recordedTooLong := false, heardBytes := 0, cleanupsCalled := [] }
    provider []).logged .started

/-- Ends the listening, running or paused, for an Insert. -/
def stop (cleanup : Option CleanupProvider) (reports : List SpeechEvent) : DictationEngine :=
  match s.phase with
  | .listening .paused finishingPause =>
    let stopped := { s with phase := .listening (.stopped cleanup) finishingPause }
    if finishingPause then stopped
    else if s.unsent ≠ [] then
      sendHeldAudio { stopped with phase := .listening (.stopped cleanup) true } s.session
    else stopped.insertBest u transcribes field cleanup
  | .listening .on finishingPause =>
    let stopped := { s with phase := .listening (.stopped cleanup) finishingPause }
    -- a stream finishing a pause was already told
    if finishingPause then stopped else stopped.endInput u transcribes field reports
  | _ => s

def pause (reports : List SpeechEvent) : DictationEngine :=
  match s.phase with
  | .listening .on finishingPause =>
    let paused := { s with phase := .listening .paused true }
    if finishingPause then paused else paused.endInput u transcribes field reports
  | _ => s

def resume : DictationEngine :=
  match s.phase with
  | .listening .paused finishingPause =>
    let resumed := { s with phase := .listening .on finishingPause }
    if finishingPause then resumed else resumed.reopen s.session
  | _ => s

def cancel : DictationEngine :=
  ({ s with session := s.session + 1 }.cancelSession).logged .cancelled

def addCleanup (provider : CleanupProvider) : DictationEngine :=
  { s with
    cleanupsCalled := if provider ∈ s.cleanupsCalled then s.cleanupsCalled else s.cleanupsCalled ++ [provider] }

def insert (reports : List SpeechEvent) : DictationEngine :=
  match s.phase with
  | .listening _ _ => s.stop u transcribes field none reports
  | .refining _ cleanup transcript =>
    match cleanup with
    | none => s
    | some provider =>
      if s.selected ≠ none then s else (s.cancelSession.addCleanup provider).commitHeard u field transcript
  | .failed retry transcript =>
    if s.selected ≠ none then s
    else
      match retry with
      | .commit text => s.commitTranscript field text
      | _ => s.commitHeard u field transcript
  | .idle => s

def insertRefined (cleanup : Option CleanupProvider) (reports : List SpeechEvent) : DictationEngine :=
  match s.phase with
  | .listening (.stopped _) _ => s
  | .listening _ _ =>
    let tapped := if cleanup = none then s else { s with selected := field.tapped }
    tapped.stop u transcribes field cleanup reports
  | _ => s

def retry : DictationEngine :=
  match s.phase with
  | .failed (.commit text) _ => s.commitTranscript field text
  | .failed (.refine cleanup) transcript => s.refineTranscript u field cleanup transcript
  | .failed .restart transcript => s.startSession s.sourceProvider transcript
  | _ => s

/-! ## Audio and answers -/

/-- Keeps a chunk for the batch pass, until the recording is too long for it. -/
def record (audio : Chunk) : DictationEngine :=
  let s := { s with heardBytes := s.heardBytes + audio.bytes.length }
  if transcribes && s.sourceProvider.hasBatchTranscription && !s.recordedTooLong then
    if MAX_RETRANSCRIBE_BYTES < (s.recorded ++ audio.bytes).length then
      { s with recorded := [], recordedTooLong := true }
    else { s with recorded := s.recorded ++ audio.bytes }
  else s

/-- A chunk from the microphone. -/
def captureAudio (current : ℕ) (audio : Chunk) (failure : Option StreamFailure) : DictationEngine :=
  match s.phase with
  | .listening .on finishingPause =>
    if current ≠ s.session then s
    else
      let captured := s.logged (.captured audio)
      let handed :=
        if finishingPause then { captured with heardAfterResume := s.heardAfterResume ++ [audio] }
        else
          match s.client with
          | none => { captured with unsent := s.unsent ++ [audio] }
          | some opening => captured.sendAudio u transcribes field s.session opening audio failure
      handed.record transcribes audio
  | _ => s

/-- The request is still the one this dictation waits on. -/
def isRunning (request : ℕ) : Bool :=
  match s.phase with
  | .refining running _ _ => running = request
  | _ => false

/-- A cleanup answered; it answers nothing when the profile does no cleanup. -/
def cleanupAnswered (c : Cleanup) (text : Option Text) : DictationEngine :=
  if s.isRunning c.request then
    match text with
    | none =>
      match c.edited with
      | none => s.commitTranscript field c.replaced.text
      | some _ => s.fail c.session (some c.raw)
    | some text =>
      let taken := (s.addCleanup c.provider).logged (.answered c.request c.replaced c.edited text)
      match c.edited with
      | none => taken.commitTranscript field ((c.replaced.restore u v text).getD c.replaced.text)
      | some edited =>
        match restoreEdit u v c.replaced text edited with
        | some edit => taken.commitTranscript field edit
        | none => taken.fail c.session (some c.raw)
  else s

/-- A cleanup failed; it still counts as one this dictation used. -/
def cleanupFailed (c : Cleanup) : DictationEngine :=
  let called := if c.session = s.session then s.addCleanup c.provider else s
  if s.isRunning c.request then called.fail c.session (some c.raw) else called

def batchAnswered (b : Batch) (batch : Option Text) : DictationEngine :=
  if s.isRunning b.request then s.finish u field b.cleanup (preferredTranscript batch b.streamed) else s

/-! ## Events -/

inductive Event
  | start (provider : SpeechProvider)
  | pause (field : Field) (reports : List SpeechEvent)
  | resume
  | cancel
  | insert (field : Field) (reports : List SpeechEvent)
  | insertRefined (cleanup : Option CleanupProvider) (field : Field) (reports : List SpeechEvent)
  | retry (field : Field)
  | audio (current : ℕ) (chunk : Chunk) (field : Field) (failure : Option StreamFailure)
  /-- The microphone of a session fails. -/
  | captureFailed (current : ℕ)
  /-- A stream opens; it fails as it is sent a chunk held back, or not, and reports `atEnd` as it is stopped. -/
  | opened (o : Opening) (field : Field) (failures : List (Option StreamFailure)) (atEnd : List SpeechEvent)
  | openFailed (o : Opening) (field : Field) (kind : ProviderFailureKind)
  /-- The service cannot listen at all. -/
  | cannotListen (o : Opening)
  | speech (o : Opening) (field : Field) (event : SpeechEvent)
  /-- A piece of a refined text, which the panel shows. -/
  | piece (request : ℕ) (text : Text)
  | cleanupAnswered (request : ℕ) (field : Field) (text : Option Text)
  | cleanupFailed (request : ℕ)
  | batchAnswered (request : ℕ) (field : Field) (batch : Option Text)

/-- The engine once an opening has left the queue. -/
def taken (o : Opening) : DictationEngine := { s with openings := s.openings.filter (· ≠ o) }

/-- The engine after an event. A stream opens once, and only where it was asked for, and reports once it is open; a
request is answered once. -/
def step (s : DictationEngine) : Event → Option DictationEngine
  | .start provider => some (s.start provider)
  | .pause field reports => some (s.pause u transcribes field reports)
  | .resume => some s.resume
  | .cancel => some s.cancel
  | .insert field reports => some (s.insert u transcribes field reports)
  | .insertRefined cleanup field reports => some (s.insertRefined u transcribes field cleanup reports)
  | .retry field => some (s.retry u field)
  | .audio current chunk field failure => some (s.captureAudio u transcribes field current chunk failure)
  | .captureFailed current => some (s.fail current none)
  | .opened o field failures atEnd =>
    if o ∈ s.openings then some ((s.taken o).opened u transcribes field o failures atEnd) else none
  | .openFailed o field kind =>
    if o ∈ s.openings then some ((s.taken o).openFailed u transcribes field o kind) else none
  | .cannotListen o =>
    if o ∈ s.openings then
      some (if (s.listeningTo o.session o.opening).isSome then (s.taken o).fail o.session none else s.taken o)
    else none
  | .speech o field event =>
    if o ∈ s.connected then some (s.onSpeech u transcribes field o.session o.opening event) else none
  | .piece _ _ => some s
  | .cleanupAnswered request field text =>
    (s.cleanups.find? (·.request = request)).map fun c =>
      cleanupAnswered u v { s with cleanups := s.cleanups.filter (·.request ≠ request) } field c text
  | .cleanupFailed request =>
    (s.cleanups.find? (·.request = request)).map fun c =>
      cleanupFailed { s with cleanups := s.cleanups.filter (·.request ≠ request) } c
  | .batchAnswered request field batch =>
    (s.batches.find? (·.request = request)).map fun b =>
      batchAnswered u { s with batches := s.batches.filter (·.request ≠ request) } field b batch

end DictationEngine

end Speecher.Android
