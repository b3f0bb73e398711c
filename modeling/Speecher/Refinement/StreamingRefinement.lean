import Speecher.Bindings.Words
import Speecher.Foundations.History
import Speecher.Foundations.Machine
import Speecher.Providers.Failure
import Speecher.Refinement.ServerSentEvents

/-!
# A streaming refinement

`StreamingRefinement` posts a request, reads the reply as a stream of events, reports each piece of text as it comes
and ends in a `completed` or a `failed` report. A request for a faster tier that fails before any text is posted once
more at standard speed. Every report is a place where a listener may start the next refinement or cancel this one,
also from within the loop that takes events off the bytes received (`parseLoop`), so it is modelled as a re-entrant
machine. The network's replies, the timers and the queued calls come whenever the environment has control, in a
listener's own event loop too.

A reply carries the number of the start it was posted for, which the code never reads: it only names in the trace
what each report is about.
-/

namespace Speecher.StreamingRefinement

/-- What an event of the stream means. -/
inductive EventKind
  | ignore
  | progress
  | delta
  | complete
  | rejected
  | failed
  deriving DecidableEq

/-- An event as the provider decodes it: the text of a delta, or why the provider rejected or failed. -/
structure Event where
  kind : EventKind := .ignore
  text : Text := []
  failureKind : ProviderFailureKind := .server
  deriving DecidableEq

/-- A provider of refinements. -/
structure Provider where
  provider : Text
  decodeEvent : List UInt8 → List UInt8 → Event
  decodeError : List UInt8 → Text → Text
  /-- `m_connectMs` in seconds, as text. -/
  connectSeconds : Text

def Provider.failureMessage (p : Provider) (detail : Text) : Text :=
  p.provider ++ " refinement failed: ".toList ++ detail

/-- A reply, by its number, and the start it was posted for. -/
structure Reply where
  number : ℕ
  start : ℕ
  deriving DecidableEq

/-- Which failures are retried at standard speed. -/
inductive Retry
  | never
  | afterStall
  | afterRejection
  deriving DecidableEq

/-- A call queued for the event loop. -/
inductive Queued
  | abort (r : Reply)
  /-- The completion of `complete`, for a start. -/
  | completion (n : ℕ) (reply : Option Reply) (result : Text) (generation : ℕ)
  deriving DecidableEq

/-- A failure as it is reported. -/
structure Failure where
  kind : ProviderFailureKind
  message : Text
  httpStatus : ℤ := 0
  deriving DecidableEq

/-- What a refinement did, for the trace; a report names its start. -/
inductive Effect
  | started (n : ℕ)
  | cancelled
  | posted (r : Reply) (fast : Bool)
  | delta (n : ℕ) (text : Text)
  | completed (n : ℕ) (text : Text)
  | failed (n : ℕ) (failure : Failure)
  deriving DecidableEq

inductive Timer
  | connect
  | inactivity
  | deadline
  deriving DecidableEq

/-- The fields of a refinement; `starts` counts the starts and `isOpen` lists the replies that have not finished. -/
structure State where
  reply : Option Reply := none
  posted : ℕ := 0
  isOpen : List Reply := []
  buffer : List UInt8 := []
  accumulated : Text := []
  generation : ℕ := 0
  parsing : Bool := false
  standardFallback : Bool := false
  latchOnSuccess : Bool := false
  networkChanged : Bool := false
  fastTier : Text := []
  unavailableFastTiers : List Text := []
  timers : List Timer := []
  starts : ℕ := 0
  queue : List Queued := []
  log : List Effect := []
  deriving DecidableEq

namespace State

def note (s : State) (e : Effect) : State := { s with log := s.log ++ [e] }

/-- `takeReply`, which lets go of the reply. -/
def takeReply (s : State) : State := { s with generation := s.generation + 1, timers := [], reply := none }

/-- `QNetworkReply::abort`, of a reply let go of: the handlers of what it emits find that it is not the current one. -/
def abort (r : Reply) (s : State) : State := { s with isOpen := s.isOpen.filter (· ≠ r) }

/-- `if (reply) reply->abort()`. -/
def abortReply (reply : Option Reply) (s : State) : State :=
  match reply with
  | none => s
  | some r => s.abort r

/-- The start of `fail`: the reply is let go of, and aborted at once unless a parse loop is under way. -/
def letGo (s : State) : State := if s.parsing then s.takeReply else s.takeReply.abortReply s.reply

/-- `QTimer::start`. -/
def startTimer (t : Timer) (s : State) : State := { s with timers := t :: s.timers.filter (· ≠ t) }

def post (fast : Bool) (s : State) : State :=
  { s with
    buffer := [], accumulated := [], networkChanged := false, reply := some ⟨s.posted, s.starts⟩, posted := s.posted + 1,
    isOpen := s.isOpen ++ [⟨s.posted, s.starts⟩], timers := [.connect, .inactivity, .deadline],
    log := s.log ++ [.posted ⟨s.posted, s.starts⟩ fast] }

def cancel (s : State) : State :=
  let s' := { s.takeReply with standardFallback := false }
  match s.reply with
  | none => s'
  | some r => if s.parsing then { s' with queue := s'.queue ++ [.abort r] } else s'.abort r

def start (fastTier : Text) (s : State) : State :=
  let s' := s.cancel
  let fast := fastTier ≠ [] && fastTier ∉ s'.unavailableFastTiers
  State.post fast
    { s' with
      starts := s'.starts + 1, latchOnSuccess := false, fastTier := fastTier, standardFallback := fast,
      log := s'.log ++ [.started (s'.starts + 1)] }

/-- `retryAtStandardSpeed`: the state after it, and whether it posted the request again. -/
def retryAtStandardSpeed (latchOnSuccess : Bool) (s : State) : State × Bool :=
  if s.standardFallback && s.accumulated = [] then
    (State.post false { s with standardFallback := false, latchOnSuccess := latchOnSuccess }, true)
  else ({ s with standardFallback := false }, false)

end State

/-- The handlers of a refinement's signals. -/
inductive Call
  | delta
  | completed
  | failed
  deriving DecidableEq

/-- The code of a refinement: its calls, the events of a reply, of the timers and of the queue, and what is left of the
parse loop and of `fail` at each report. -/
inductive Instr
  | start (fastTier : Text)
  | cancel
  | networkChanged
  /-- The reply's request was sent, or its TLS session is up. -/
  | connected (r : Reply)
  | readyRead (r : Reply) (chunk : List UInt8)
  | finished (r : Reply) (error : ℤ) (errorString : Text) (rest : List UInt8)
  | timeout (t : Timer)
  | queued
  /-- The parse loop after it reported a delta. -/
  | parseOn (generation n : ℕ)
  /-- `m_parsing` is as it was before the chunk. -/
  | parsed (wasParsing : Bool)
  /-- The end of `fail`. -/
  | queueAbort (r : Reply)
  | call (what : Call)
  deriving DecidableEq

section Code

variable (p : Provider)

/-- `fail`, for the start whose reply failed; `status` is the HTTP status that reply has. -/
def fail (n : ℕ) (failure : Failure) (retry : Retry) (status : ℤ) (s : State) : State × List Instr :=
  let queuedAbort := if s.parsing then s.reply.toList.map Instr.queueAbort else []
  let retried := if retry = .never then (s.letGo, false) else s.letGo.retryAtStandardSpeed (retry = .afterRejection)
  if retried.2 then (retried.1, queuedAbort)
  else
    let failure := { failure with httpStatus := if s.reply = none then 0 else status }
    ({ retried.1 with standardFallback := false, log := retried.1.log ++ [.failed n failure] },
      .call .failed :: queuedAbort)

/-- `complete`. -/
def complete (n : ℕ) (status : ℤ) (s : State) : State × List Instr :=
  if s.accumulated = [] then
    fail n ⟨.invalidResult, p.failureMessage "empty response".toList, 0⟩ .afterRejection status s
  else
    ({ s.takeReply with
      standardFallback := false, latchOnSuccess := false,
      unavailableFastTiers :=
        if s.latchOnSuccess then s.fastTier :: s.unavailableFastTiers else s.unavailableFastTiers,
      queue := s.queue ++ [.completion n s.reply s.accumulated (s.generation + 1)] }, [])

/-- The loop of `parseChunk`, from the next frame on, for the start whose reply it reads. -/
def parseLoop (generation n : ℕ) (status : ℤ) (s : State) : State × List Instr :=
  match _h : takeSseFrame s.buffer with
  | none => (s, [])
  | some (frame, rest) =>
    let s' := { s with buffer := rest }
    let event := p.decodeEvent frame.name frame.data
    match event.kind with
    | .ignore => parseLoop generation n status s'
    | .progress => parseLoop generation n status (s'.startTimer .inactivity)
    | .delta =>
      ({ s'.startTimer .inactivity with
        accumulated := s.accumulated ++ event.text, log := s.log ++ [.delta n event.text] },
        [.call .delta, .parseOn generation n])
    | .complete => complete p n status s'
    | .rejected => fail n ⟨event.failureKind, event.text, 0⟩ .afterRejection status s'
    | .failed => fail n ⟨event.failureKind, event.text, 0⟩ .never status s'
termination_by s.buffer.length
decreasing_by all_goals exact length_takeSseFrame _h

def failureKindForHttpStatus (httpStatus : ℤ) : ProviderFailureKind :=
  if httpStatus = 401 ∨ httpStatus = 403 then .authentication
  else if httpStatus = 429 then .rateLimited
  else if 500 ≤ httpStatus ∧ httpStatus ≤ 599 then .server
  else .other

/-- `replyFailure`, for a reply's status and its `QNetworkReply::NetworkError`. -/
def replyFailure (httpStatus error : ℤ) (message : Text) : Failure :=
  if 400 ≤ httpStatus then ⟨failureKindForHttpStatus httpStatus, message, httpStatus⟩
  else if error = 4 then ⟨.timeout, message, httpStatus⟩
  else ⟨if error ≠ 5 ∧ 0 < error ∧ error < 201 then .network else .other, message, httpStatus⟩

/-- The handler of a reply that finished, with what it had left to read. -/
def finished (r : Reply) (error : ℤ) (errorString : Text) (rest : List UInt8) (status : ℤ) (s : State) :
    State × List Instr :=
  let s := { s with isOpen := s.isOpen.filter (· ≠ r) }
  if s.reply ≠ some r then (s, [])
  else
    let failure :=
      if error ≠ 0 then
        replyFailure status error (p.failureMessage (p.decodeError (s.buffer ++ rest) errorString))
      else
        ⟨.invalidResult, p.failureMessage
          (if s.accumulated = [] then "empty response".toList else "stream ended before completion".toList), status⟩
    let retried := s.takeReply.retryAtStandardSpeed true
    if retried.2 then (retried.1, []) else (retried.1.note (.failed r.start failure), [.call .failed])

/-- The handler of a timer. -/
def timeout (t : Timer) (status : ℤ) (s : State) : State × List Instr :=
  let s := { s with timers := s.timers.filter (· ≠ t) }
  let waiting := p.provider ++ " refinement timed out waiting for a response".toList
  match s.reply with
  | none => (s, [])
  | some r =>
    match t with
    | .connect =>
      fail r.start ⟨.timeout, p.provider ++ " refinement could not connect within ".toList ++ p.connectSeconds ++ " s".toList, 0⟩
        .never status s
    | .inactivity => fail r.start ⟨.timeout, waiting, 0⟩ .afterStall status s
    | .deadline => fail r.start ⟨.timeout, waiting, 0⟩ .never status s

/-- The event loop takes the first queued call. -/
def queued (s : State) : State × List Instr :=
  match s.queue with
  | [] => (s, [])
  | .abort r :: queue => (State.abort r { s with queue := queue }, [])
  | .completion n reply result generation :: queue =>
    let s' := State.abortReply reply { s with queue := queue }
    if generation = s'.generation then (s'.note (.completed n result), [.call .completed]) else (s', [])

/-- What an instruction does, and what it leaves; `status` is the HTTP status the network's reply has. -/
def exec (status : ℤ) (i : Instr) (s : State) : State × List Instr :=
  match i with
  | .start fastTier => (s.start fastTier, [])
  | .cancel => (s.cancel.note .cancelled, [])
  | .networkChanged => ({ s with networkChanged := true }, [])
  | .connected r => (if s.reply = some r then { s with timers := s.timers.filter (· ≠ .connect) } else s, [])
  | .readyRead r chunk =>
    if s.reply = some r then
      let next := parseLoop p s.generation r.start status { s with parsing := true, buffer := s.buffer ++ chunk }
      (next.1, next.2 ++ [.parsed s.parsing])
    else (s, [])
  | .finished r error errorString rest => finished p r error errorString rest status s
  | .timeout t => timeout p t status s
  | .queued => queued s
  | .parseOn generation n => if generation ≠ s.generation then (s, []) else parseLoop p generation n status s
  | .parsed wasParsing => ({ s with parsing := wasParsing }, [])
  | .queueAbort r => ({ s with queue := s.queue ++ [.abort r] }, [])
  | .call _ => (s, [])

/-- What may happen wherever the environment has control: a listener's calls, and the events of the event loop. -/
def enters (s : State) : Instr → Bool
  | .start _ | .cancel | .networkChanged => true
  | .connected r | .readyRead r _ | .finished r _ _ _ => r ∈ s.isOpen
  | .timeout t => t ∈ s.timers
  | .queued => s.queue ≠ []
  | _ => false

def yields : Instr → Bool
  | .call _ => true
  | _ => false

/-- A refinement as a re-entrant machine. -/
def machine : Machine State Instr ℤ where
  exec := exec p
  yields := yields
  enters := enters
  wakes _ _ := false

end Code

end Speecher.StreamingRefinement
