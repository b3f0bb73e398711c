import Speecher.Bindings.Android
import Speecher.Dictation.AndroidEngine
import Speecher.Foundations.History
import Speecher.Foundations.Threads

/-!
# An Android speech stream

`StreamLifecycle` is what the two streaming speech clients share: the audio held until the provider takes it, the
deadlines, and the one report that ends a stream. Its callers run on threads of their own: the app, the socket's
reader, the socket's other threads (a failed write, a close that timed out) and the timer. Each `synchronized` block
and each access to a volatile flag is one instruction here, so that a run is any interleaving of them (`machine`).

A client hands its transport's callbacks here once it looked at `ended`: `onText` of `CodexDictationClient` and
`onOpen`, `onText` and `stop` of `ClaudeVoiceClient` are the code behind that look (`guarded`). A message comes
decoded, with the fields its client reads. `Stream.log` is the trace of what was done, oldest first.
-/

namespace Speecher.Android.StreamLifecycle

/-- The most audio held for a stream that is not live yet. -/
def maxPendingBytes : ℤ := 4 * 1024 * 1024

inductive Client
  | codex
  | claude
  deriving DecidableEq

/-- `closeTimeoutMillis` of a client's stream. -/
def Client.closeTimeoutMillis : Client → ℕ
  | .codex => 8000
  | .claude => 5000

/-- How a stream ends. -/
inductive End
  | completed
  | failed (kind : ProviderFailureKind) (detail : Text) (retryable : Bool)
  deriving DecidableEq

/-- What a stream reports. -/
inductive Report
  | connected
  | interim (text : Text)
  | final (text : Text)
  | ended (how : End)
  deriving DecidableEq

def Report.ends : Report → Bool
  | ended _ => true
  | connected | interim _ | final _ => false

/-! ## Messages of the providers -/

/-- A primitive field of a message: absent, `null`, or its content. -/
abbrev Field := Option (Option Text)

/-- The content of a field, that of `null` included. -/
def Field.string : Field → Text
  | none => []
  | some none => "null".toList
  | some (some text) => text

/-- The content of a field, `null` reading as missing. -/
def Field.text (field : Field) : Text := field.join.getD []

/-- The `error` object of a message. -/
structure ErrorObject where
  code : Field := none
  type : Field := none
  message : Field := none
  retryable : Field := none
  deriving DecidableEq

/-- A message of ChatGPT's. -/
structure CodexEvent where
  type : Field := none
  utteranceId : Field := none
  text : Field := none
  /-- The `status` of its `session` object. -/
  session : Option Field := none
  fatal : Field := none
  error : Option ErrorObject := none
  deriving DecidableEq

/-- A message of Claude's. -/
inductive ClaudeVoiceEvent
  | working (text : Text)
  | endpoint (text : Text)
  | transcriptError (summary : Text)
  | serverError (summary : Text)
  | unknown
  deriving DecidableEq

/-- A message as the socket delivers it; ChatGPT's is absent when it is not an object. -/
inductive Message
  | codex (event : Option CodexEvent)
  | claude (event : ClaudeVoiceEvent)
  deriving DecidableEq

/-- The provider that sends a message. -/
def Message.client : Message → Client
  | codex _ => .codex
  | claude _ => .claude

/-! ## Kinds of failure -/

section Failures

-- when two characters are the same but for their case
variable (same : Char → Char → Bool)

/-- `String.contains` with `ignoreCase`. -/
def containsIgnoringCase (text part : Text) : Bool :=
  text.tails.any fun rest => part.length ≤ rest.length && (rest.zip part).all fun (a, b) => same a b

def isAuthenticationError (detail : Text) : Bool :=
  ["401", "403", "unauthorized", "forbidden"].any fun part => containsIgnoringCase same detail part.toList

def failureKindForHttpStatus (status : ℤ) : ProviderFailureKind :=
  if status = 401 ∨ status = 403 then .authentication
  else if status = 429 then .rateLimited
  else if 500 ≤ status ∧ status ≤ 599 then .server
  else .other

def authenticationCodes : List Text :=
  ["authentication_error", "permission_error", "invalid_api_key", "401", "403"].map String.toList

def rateLimitCodes : List Text :=
  ["rate_limit_error", "rate_limit_exceeded", "insufficient_quota", "429"].map String.toList

def knownStreamedErrorKind (code : Text) : Option ProviderFailureKind :=
  if code ∈ authenticationCodes then some .authentication
  else if code ∈ rateLimitCodes then some .rateLimited
  else if "invalid".toList <:+: code ∨ "not_found".toList <:+: code then some .other
  else none

def streamedErrorKind (error : ErrorObject) : ProviderFailureKind :=
  ((knownStreamedErrorKind error.code.text).or (knownStreamedErrorKind error.type.text)).getD .server

def CodexEvent.authenticationError (event : CodexEvent) : Bool :=
  match event.error with
  | none => false
  | some error =>
    streamedErrorKind error = .authentication ||
      isAuthenticationError same (error.code.string ++ ' ' :: error.message.string)

def CodexEvent.errorDetail (event : CodexEvent) : Text :=
  match event.error with
  | none => "provider error".toList
  | some error => (trim (error.code.string ++ ' ' :: error.message.string)).take 120

/-- How `CodexDictationClient.failWith` fails the stream. -/
def CodexEvent.failure (event : CodexEvent) : End :=
  let error := event.error.getD {}
  let kind := if event.authenticationError same then .authentication else streamedErrorKind error
  .failed kind event.errorDetail (kind ≠ .authentication && error.retryable ≠ some (some "false".toList))

/-- How `StreamLifecycle.onFailure` fails the stream, for an error of a kind with a message, and the status of a
refused upgrade. -/
def transportFailure (kind : ProviderFailureKind) (message : Option Text) (statusCode : Option ℤ) : End :=
  let detail := ": ".toList.intercalate
    ((statusCode.map fun status => "HTTP ".toList ++ (toString status).toList).toList ++
      (message.filter fun text => !isBlank text).toList)
  let kind := (statusCode.map failureKindForHttpStatus).getD kind
  .failed kind (if detail = [] then "connect failed".toList else detail) (kind ≠ .authentication)

/-- How `StreamLifecycle.onClosed` fails the stream. -/
def closeFailure (code : ℤ) (reason : Text) : End :=
  .failed .network (trim ("closed ".toList ++ (toString code).toList ++ ' ' :: reason.take 80)) true

def endsSession (closeCode : ℤ) : Bool := closeCode = 1000 || closeCode = 1005

/-- Runs of white space become one space. -/
def collapsed : Text → Text
  | [] => []
  | c :: text =>
    if regexSpace c then
      match text with
      | d :: _ => if regexSpace d then collapsed text else ' ' :: collapsed text
      | [] => [' ']
    else c :: collapsed text

end Failures

/-! ## The state all threads share -/

/-- What the timer runs once its delay, in seconds, is over. -/
inductive Task
  /-- `failUnlessLiveWithin`. -/
  | live (seconds : ℕ) (detail : Text) (retryable : Bool)
  /-- `waitForClose`. -/
  | close
  /-- `repeat`, of a message that keeps the socket open. -/
  | keepAlive (seconds : ℕ)
  deriving DecidableEq

/-- What can be seen of a stream. -/
inductive Effect
  /-- A chunk of audio sent or held. -/
  | accepted (pcm : List UInt8)
  | handed (pcm : List UInt8)
  | stopped
  /-- `requestClose`. -/
  | askedToClose
  | reported (report : Report)
  /-- The first message of a ChatGPT session. -/
  | sessionStart
  | keptAlive
  /-- `transport.cancel`. -/
  | dropped
  /-- `transport.close`. -/
  | closed
  deriving DecidableEq

/-- The fields of a stream and of its client. A task on the timer has a number, `ran` the numbers of those that ran
to their end. -/
structure Stream where
  pending : List (List UInt8) := []
  pendingBytes : ℤ := 0
  closeWait : Option ℕ := none
  live : Bool := false
  stopped : Bool := false
  cancelled : Bool := false
  finished : Bool := false
  shutdown : Bool := false
  tasks : List (ℕ × Task) := []
  scheduled : ℕ := 0
  ran : List ℕ := []
  finalIds : List Text := []
  lastInterim : Text := []
  log : List Effect := []
  deriving DecidableEq

namespace Stream

def note (s : Stream) (e : Effect) : Stream := { s with log := s.log ++ [e] }

/-- `timer.schedule`, whose task is numbered; nothing once the timer was shut down. -/
def schedule (s : Stream) (task : Task) : Stream × Option ℕ :=
  if s.shutdown then (s, none)
  else ({ s with tasks := s.tasks ++ [(s.scheduled, task)], scheduled := s.scheduled + 1 }, some s.scheduled)

/-- `closeWait = waitForClose()`. -/
def waitForClose (s : Stream) : Stream := { (s.schedule .close).1 with closeWait := (s.schedule .close).2 }

/-- A wait that did not end is set anew. -/
def extendCloseWait (s : Stream) : Stream :=
  match s.closeWait with
  | none => s
  | some id =>
    if id ∈ s.ran then s else waitForClose { s with tasks := s.tasks.filter fun task => task.1 ≠ id }

end Stream

/-! ## The code of the threads -/

/-- What comes after a look at `ended`. -/
inductive Guarded
  | audio (pcm : List UInt8)
  | stop
  | opened
  | text (message : Message)
  | keepAlive
  deriving DecidableEq

inductive Instr
  /-- `sendAudio` from its look at `stopped`. -/
  | sendAudio (pcm : List UInt8)
  /-- The look at `cancelled` of `ended`. -/
  | unlessEnded (next : Guarded)
  /-- The look at `finished` of `ended`. -/
  | unlessFinished (next : Guarded)
  /-- The block of `sendAudio`. -/
  | queueAudio (pcm : List UInt8)
  /-- `stop` from its look at `stopped`. -/
  | stop
  | setStopped
  | closeIfLive
  /-- `ClaudeVoiceClient.stop` after the stream's. -/
  | afterStop
  | requestClose
  | waitForClose
  | cancel
  /-- The block of `cancel`. -/
  | clearPending
  | shutdownTimer
  /-- `transport.cancel`. -/
  | drop
  /-- `transport.close`. -/
  | close
  /-- The block of `goLive`. -/
  | goLive
  /-- `goLive` after its block. -/
  | wentLive
  | extendCloseWait
  | completeIfStopped
  | report (report : Report)
  /-- `complete` and `fail`, from the block of `finish`. -/
  | finish (how : End)
  /-- `onClosed` from its look at `live`. -/
  | onClosed (code : ℤ) (reason : Text)
  /-- `onClosed` from its look at `stopped`, of a live stream. -/
  | onClosedLive (code : ℤ) (reason : Text)
  | onFailure (kind : ProviderFailureKind) (message : Option Text) (statusCode : Option ℤ)
  | failUnlessLiveWithin (seconds : ℕ) (detail : Text) (retryable : Bool)
  | keepAlive (seconds : ℕ)
  /-- The timer runs a task. -/
  | fire (id : ℕ) (task : Task)
  /-- The task ran. -/
  | taskDone (id : ℕ)
  deriving DecidableEq

/-- `close`. -/
def closing : List Instr := [.requestClose, .waitForClose]

section Code

variable (same : Char → Char → Bool) (client : Client)

/-- What `CodexDictationClient.onText` does with a message. -/
def onCodexText (s : Stream) (event : CodexEvent) : Stream × List Instr :=
  let type := event.type.string
  if type = "session.started".toList then (s, [.goLive])
  else if type = "transcript.segment".toList ∨ type = "transcript.final".toList then
    let id := event.utteranceId.string
    let value := trim event.text.string
    if (id ≠ [] ∧ id ∈ s.finalIds) ∨ value = [] then (s, [])
    else if type = "transcript.final".toList then
      (if id ≠ [] then { s with finalIds := id :: s.finalIds } else s, [.report (.final value), .extendCloseWait])
    else (s, [.report (.interim value), .extendCloseWait])
  else if type = "session.updated".toList then
    (s, if event.session.map Field.string = some "closed".toList then [.finish .completed, .close] else [])
  else if type = "transcript.failed".toList then (s, [.finish (event.failure same)])
  else if type = "session.error".toList then
    (s, if event.fatal = some (some "true".toList) then [.finish (event.failure same)] else [])
  else (s, [])

/-- What `ClaudeVoiceClient.onText` does with a message. -/
def onClaudeText (s : Stream) : ClaudeVoiceEvent → Stream × List Instr
  | .working text =>
    let value := collapsed (trim text)
    if value = [] then (s, []) else ({ s with lastInterim := value }, [.report (.interim value)])
  | .endpoint text =>
    let value := if collapsed (trim text) = [] then s.lastInterim else collapsed (trim text)
    ({ s with lastInterim := [] }, (if value = [] then [] else [.report (.final value)]) ++ [.completeIfStopped])
  | .serverError summary =>
    let authentication := isAuthenticationError same summary
    (s, [.finish (.failed (if authentication then .authentication else .server) (summary.take 120) !authentication)])
  | .transcriptError summary => (s, [.finish (.failed .server (summary.take 120) true)])
  | .unknown => (s, [])

/-- What a stream that had not ended does next. -/
def guarded (s : Stream) : Guarded → Stream × List Instr
  | .audio pcm => (s, if pcm = [] then [] else [.queueAudio pcm])
  | .stop => (s, [.setStopped])
  | .opened =>
    match client with
    | .codex => (s.note .sessionStart, [])
    | .claude => (s.note .keptAlive, [.keepAlive 8, .goLive])
  | .text (.codex none) => (s, [.finish (.failed .other "bad event payload".toList false)])
  | .text (.codex (some event)) => onCodexText same s event
  | .text (.claude event) => onClaudeText same s event
  | .keepAlive => (s.note .keptAlive, [])

/-- The block of `sendAudio`; a sum of sizes is a machine integer. -/
def queueAudio (s : Stream) (pcm : List UInt8) : Stream × List Instr :=
  if s.live then ((s.note (.accepted pcm)).note (.handed pcm), [])
  else if (s.pendingBytes + pcm.length).bmod (2 ^ 32) ≤ maxPendingBytes then
    ({ s with
      pending := s.pending ++ [pcm], pendingBytes := (s.pendingBytes + pcm.length).bmod (2 ^ 32),
      log := s.log ++ [.accepted pcm] }, [])
  else (s, [.finish (.failed .network "audio buffer overflow".toList false)])

/-- The block of `goLive`. -/
def goLive (s : Stream) : Stream × List Instr :=
  if s.live then (s, [])
  else
    ({ s with live := true, pending := [], pendingBytes := 0, log := s.log ++ s.pending.map .handed }, [.wentLive])

/-- `complete` and `fail`. -/
def finish (s : Stream) (how : End) : Stream × List Instr :=
  if s.cancelled || s.finished then (s, [])
  else
    ({ s with finished := true },
      [.shutdownTimer, .report (.ended how)] ++ if how = .completed then [] else [.drop])

/-- A task of the timer; only a repeated one stays. -/
def fire (s : Stream) (id : ℕ) : Task → Stream × List Instr
  | .live _ detail retryable =>
    ({ s with tasks := s.tasks.filter fun task => task.1 ≠ id },
      (if s.live then [] else [.finish (.failed .timeout detail retryable)]) ++ [.taskDone id])
  | .close =>
    ({ s with tasks := s.tasks.filter fun task => task.1 ≠ id },
      [.finish (.failed .timeout
        ("no close in ".toList ++ (toString (client.closeTimeoutMillis / 1000)).toList ++ ['s']) false), .taskDone id])
  | .keepAlive _ => (s, [.unlessEnded .keepAlive])

/-- What an instruction does, and what is left to do. -/
def exec (i : Instr) (s : Stream) : Stream × List Instr :=
  match i with
  | .sendAudio pcm => (s, if s.stopped then [] else [.unlessEnded (.audio pcm)])
  | .unlessEnded next => (s, if s.cancelled then [] else [.unlessFinished next])
  | .unlessFinished next => if s.finished then (s, []) else guarded same client s next
  | .queueAudio pcm => queueAudio s pcm
  | .stop => (s, if s.stopped then [] else [.unlessEnded .stop])
  | .setStopped =>
    ({ s with stopped := true, log := s.log ++ [.stopped] },
      .closeIfLive :: if client = .claude then [.afterStop] else [])
  | .closeIfLive => (s, if s.live then closing else [])
  | .afterStop => (s, if s.live then [] else [.failUnlessLiveWithin 5 "no connect in 5s".toList false])
  | .requestClose => (s.note .askedToClose, [])
  | .waitForClose => (s.waitForClose, [])
  | .cancel => ({ s with cancelled := true }, [.shutdownTimer, .clearPending, .drop])
  | .clearPending => ({ s with pending := [], pendingBytes := 0 }, [])
  | .shutdownTimer => ({ s with tasks := [], shutdown := true }, [])
  | .drop => (s.note .dropped, [])
  | .close => (s.note .closed, [])
  | .goLive => goLive s
  | .wentLive => (s, if s.stopped then closing else [.report .connected])
  | .extendCloseWait => (s.extendCloseWait, [])
  | .completeIfStopped => (s, if s.stopped then [.finish .completed, .close] else [])
  | .report report => (s.note (.reported report), [])
  | .finish how => finish s how
  | .onClosed code reason => (s, if s.live then [.onClosedLive code reason] else [.finish (closeFailure code reason)])
  | .onClosedLive code reason =>
    (s, [.finish (if !s.stopped && endsSession code then .completed else closeFailure code reason)])
  | .onFailure kind message statusCode => (s, [.finish (transportFailure kind message statusCode)])
  | .failUnlessLiveWithin seconds detail retryable => ((s.schedule (.live seconds detail retryable)).1, [])
  | .keepAlive seconds => ((s.schedule (.keepAlive seconds)).1, [])
  | .fire id task => fire client s id task
  | .taskDone id => ({ s with ran := id :: s.ran }, [])

/-- The threads: the app, the socket's reader, its other threads, and the timer. -/
inductive Party
  | app
  | reader
  | socket
  | timer
  deriving DecidableEq

instance : Fintype Party where
  elems := {.app, .reader, .socket, .timer}
  complete t := by cases t <;> decide

/-- What a thread is called with: the app's calls, the socket's callbacks, and the timer's tasks. -/
def calls (t : Party) (s : Stream) (i : Instr) : Bool :=
  match t, i with
  | .app, .sendAudio _ => true
  | .app, .stop => true
  | .app, .cancel => true
  | .reader, .unlessEnded .opened => true
  | .reader, .unlessEnded (.text message) => message.client = client
  | .reader, .onClosed _ _ => true
  | .reader, .onFailure _ _ _ => true
  | .socket, .onClosed _ _ => true
  | .socket, .onFailure _ _ _ => true
  | .timer, .fire id task => (id, task) ∈ s.tasks
  | _, _ => false

/-- A client's stream as threads. -/
def machine : Threads Stream Instr Party where
  exec := exec same client
  calls := calls client

/-- The wait for the stream to go live that a client's construction ends with. -/
def Client.opening : Client → Instr
  | .codex => .failUnlessLiveWithin 10 "no session.start in 10s".toList true
  | .claude => .failUnlessLiveWithin 10 "no connect in 10s".toList true

/-- A stream just opened: its construction sets the first deadline last. -/
def opened : Threads.State Stream Instr Party where
  shared := {}
  code
    | .app => [client.opening]
    | _ => []

end Code

end Speecher.Android.StreamLifecycle
