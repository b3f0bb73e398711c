import Speecher.Providers.ServiceSocket
import Speecher.Providers.ServiceStream
import Speecher.Refinement.RefinementEvents

/-!
# The client of Codex dictation

`CodexDictationClient` of the desktop: one WebSocket, audio and the ends of utterances held back until the service says
that the session started, and a session that is closed by a message of its own. `step` handles one event after another
and writes down what the client was told, handed to its socket and reported. Of the messages it sends by itself (the
session's start, the silence that keeps an idle session alive, the flush before it closes a session) only that they went
out is written down, as notes.

* `Follows`: how the client follows `streamMonitor` between events.
* `step_keeps`: every event that is timely keeps it so.
-/

namespace Speecher

/-! ## The service's messages -/

/-- What `handleTextMessage` tells apart. -/
inductive CodexMessage
  | invalid
  | sessionStarted
  | sessionClosed
  | segment (utteranceId text : Text)
  | final (utteranceId text : Text)
  | failed (message : Text) (error : Json)
  | other

def CodexMessage.read : Option Json → CodexMessage
  | some (.object fields) =>
    let event := Json.object fields
    let type := Json.toText (event.value "type")
    let error := Json.toObject (event.value "error")
    if type = "session.started".toList then .sessionStarted
    else if type = "session.updated".toList ∧
        Json.toText ((Json.toObject (event.value "session")).value "status") = "closed".toList then .sessionClosed
    else if type = "transcript.segment".toList then
      .segment (Json.toText (event.value "utterance_id")) (trimmed (Json.toText (event.value "text")))
    else if type = "transcript.final".toList then
      .final (Json.toText (event.value "utterance_id")) (trimmed (Json.toText (event.value "text")))
    else if type = "transcript.failed".toList then
      .failed (((error.value "message").bind Json.text?).getD
        "Codex dictation failed to transcribe an utterance".toList) error
    else if type = "session.error".toList ∧ Json.toBool false (event.value "fatal") then
      .failed (if (Json.toText (error.value "message")).isEmpty then "Codex dictation session failed".toList
        else Json.toText (error.value "message")) error
    else .other
  | _ => .invalid

/-! ## The client -/

structure CodexDictationClient where
  socket : SocketState := .unconnected
  /-- What waits for the session; an empty chunk is the end of an utterance. -/
  pendingAudio : List (List UInt8) := []
  finalUtteranceIds : List Text := []
  sessionStarted : Bool := false
  finishRequested : Bool := false
  finalizing : Bool := false
  sessionClosed : Bool := false
  cancelled : Bool := false
  failureEmitted : Bool := false
  sessionId : ℕ := 0
  /-- The timers that run. -/
  closeTimer : Bool := false
  keepAliveTimer : Bool := false
  /-- The sessions whose wait of ten seconds for their start has not passed. -/
  startWaits : List ℕ := []
  deriving DecidableEq

namespace CodexDictationClient

/-- What happens to the client. -/
inductive Event
  | start
  | sendAudio (pcm : List UInt8)
  | endUtterance
  | stop
  | cancel
  | connected
  | message (document : Option Json)
  | closing
  | disconnected
  | error (error : SocketError) (detail : Text)
  | closeTimeout
  | keepAlive
  | startWaitOver (sessionId : ℕ)

variable (fold : CaseFolding) (c : CodexDictationClient)

def isAuthenticationError (message : Text) (error : Json) : Bool :=
  errorObjectKind error = .authentication || namesAuthentication fold message

def fail (message : Text) (retryable : Bool) (phase : SpeechPhase) (kind : ProviderFailureKind) :
    Out CodexDictationClient StreamEntry :=
  if c.cancelled || c.failureEmitted || c.sessionClosed then (c, [])
  else ({ c with failureEmitted := true }, [.failed ⟨message, retryable, phase, kind⟩])

/-- What the `disconnected` handler does before it reports the socket closed. -/
def disconnectedReport : Out CodexDictationClient StreamEntry :=
  let c := { c with socket := .unconnected }
  if !c.cancelled && !c.sessionClosed && !c.failureEmitted then
    -- The service ended a live stream.
    let serviceEndedStream := c.sessionStarted && !c.finishRequested && !c.finalizing
    if serviceEndedStream then ({ c with sessionClosed := true }, [.completed])
    else
      c.fail
        (if c.sessionStarted then "Codex dictation stream closed before the session finished".toList
          else "Codex dictation stream closed before session.start completed".toList)
        true (if c.finalizing then .finalize else if c.sessionStarted then .streaming else .connect) .network
  else (c, [])

def onDisconnected : Out CodexDictationClient StreamEntry := c.disconnectedReport.andThen fun c => (c, [.closed])

/-- `QWebSocket::abort`. -/
def abort : Out CodexDictationClient StreamEntry := if c.socket = .unconnected then (c, []) else c.onDisconnected

/-- `QWebSocket::close`. -/
def close : Out CodexDictationClient StreamEntry := ({ c with socket := c.socket.close }, [])

/-- `sendAudioMessage`, as what it is written down: audio the client was given, or silence. -/
def sendAudioMessage (entry : StreamEntry) : Out CodexDictationClient StreamEntry :=
  ({ c with keepAliveTimer := true }, [entry])

def item (pcm : List UInt8) : StreamItem := if pcm.isEmpty then .utteranceEnd else .audio pcm

def flushPendingAudio : Out CodexDictationClient StreamEntry :=
  ({ c with pendingAudio := [], keepAliveTimer := c.keepAliveTimer || c.pendingAudio.any (!·.isEmpty) },
    c.pendingAudio.map fun pcm => .send (item pcm))

def requestFinalization : Out CodexDictationClient StreamEntry :=
  if !c.sessionStarted || c.finalizing || c.sessionClosed || c.failureEmitted then (c, [])
  else c.flushPendingAudio.andThen fun c => ({ c with finalizing := true, closeTimer := true }, [.note, .finish])

def sendAudio (pcm : List UInt8) : Out CodexDictationClient StreamEntry :=
  if pcm.isEmpty || c.finishRequested || c.finalizing || c.sessionClosed || c.cancelled || c.failureEmitted then (c, [])
  else if !c.sessionStarted then ({ c with pendingAudio := c.pendingAudio ++ [pcm] }, [])
  else c.sendAudioMessage (.send (.audio pcm))

def endUtterance : Out CodexDictationClient StreamEntry :=
  if c.finishRequested || c.finalizing || c.sessionClosed || c.cancelled || c.failureEmitted then (c, [])
  else if !c.sessionStarted then ({ c with pendingAudio := c.pendingAudio ++ [[]] }, [])
  else (c, [.send .utteranceEnd])

def stop : Out CodexDictationClient StreamEntry :=
  if c.finishRequested || c.finalizing || c.sessionClosed || c.cancelled then (c, [])
  else
    let c := { c with finishRequested := true }
    if c.sessionStarted then c.requestFinalization else (c, [])

def cancel : Out CodexDictationClient StreamEntry :=
  ({ c with cancelled := true, closeTimer := false, keepAliveTimer := false, pendingAudio := [] } :
    CodexDictationClient).abort

def start : CodexDictationClient :=
  { c with
    pendingAudio := [], finalUtteranceIds := [], sessionStarted := false, finishRequested := false, finalizing := false,
    sessionClosed := false, cancelled := false, failureEmitted := false, closeTimer := false, keepAliveTimer := false,
    sessionId := c.sessionId + 1, socket := .connecting, startWaits := c.startWaits ++ [c.sessionId + 1] }

/-- A connection that failed does not connect any more. -/
def leftConnecting : CodexDictationClient := if c.socket = .connecting then { c with socket := .closing } else c

def onError (error : SocketError) (detail : Text) : Out CodexDictationClient StreamEntry :=
  let c := c.leftConnecting
  if c.cancelled || c.failureEmitted || c.sessionClosed then (c, [])
  else if isRemoteClose error && c.sessionStarted && !c.finishRequested && !c.finalizing then (c, [])
  else
    let authentication := isAuthenticationError fold detail (.object [])
    c.fail ("Codex dictation connection failed: ".toList ++ detail) (!authentication)
      (if authentication then .authentication
        else if c.finalizing then .finalize else if c.sessionStarted then .streaming else .connect)
      (if authentication then .authentication else webSocketFailureKind error detail)

/-- The utterance's final text was already reported. -/
def finished (utteranceId : Text) : Bool := !utteranceId.isEmpty && c.finalUtteranceIds.contains utteranceId

/-- `handleTextMessage`. Other than the error handler, it does not ask whether the attempt ended. -/
def handleTextMessage : CodexMessage → Out CodexDictationClient StreamEntry
  | .invalid =>
    (c.fail "Codex dictation stream returned an invalid event payload".toList false .protocol .other).andThen close
  | .sessionStarted =>
    if !c.sessionStarted then
      (({ c with sessionStarted := true, keepAliveTimer := true } : CodexDictationClient).flushPendingAudio.andThen
        fun c => (c, [.connected])).andThen fun c => if c.finishRequested then c.requestFinalization else (c, [])
    else (c, [])
  | .sessionClosed =>
    if !c.sessionClosed then ({ c with sessionClosed := true, socket := c.socket.close }, [.completed]) else (c, [])
  | .segment utteranceId text =>
    if c.finished utteranceId then (c, [])
    else if text.isEmpty then (c, [])
    else (c, [.text false text])
  | .final utteranceId text =>
    if c.finished utteranceId then (c, [])
    else if text.isEmpty then (c, [])
    else
      ({ c with
          finalUtteranceIds :=
            if utteranceId.isEmpty then c.finalUtteranceIds else utteranceId :: c.finalUtteranceIds },
        [.text true text])
  | .failed message error =>
    let authentication := isAuthenticationError fold message error
    (c.fail message (!authentication && Json.toBool true (error.value "retryable"))
      (if authentication then .authentication else if c.finalizing then .finalize else .streaming)
      (if authentication then .authentication else errorObjectKind error)).andThen close
  | .other => (c, [])

def closeTimeout : Out CodexDictationClient StreamEntry :=
  let c := { c with closeTimer := false }
  if c.finalizing && !c.sessionClosed && !c.failureEmitted then
    (c.fail "Codex dictation stream timed out while closing the session".toList true .finalize .timeout).andThen abort
  else (c, [])

def keepAlive : Out CodexDictationClient StreamEntry :=
  let c := { c with keepAliveTimer := false }
  if !c.finalizing && !c.sessionClosed && !c.cancelled && !c.failureEmitted then c.sendAudioMessage .note else (c, [])

def startWaitOver (sessionId : ℕ) : Out CodexDictationClient StreamEntry :=
  let c := { c with startWaits := c.startWaits.erase sessionId }
  if sessionId = c.sessionId && !c.sessionStarted && !c.cancelled && !c.failureEmitted then
    (c.fail "Codex dictation stream timed out before session.start completed".toList true .connect .timeout).andThen abort
  else (c, [])

/-- One event, when it can happen. What the client is told comes first. -/
def step : Event → Option (Out CodexDictationClient StreamEntry)
  | .start => some (c.start, [.start])
  | .sendAudio pcm =>
    some <| Out.andThen (c, if pcm.isEmpty then [] else [.give (.audio pcm)]) fun c => c.sendAudio pcm
  | .endUtterance => some (Out.andThen (c, [.give .utteranceEnd]) endUtterance)
  | .stop => some (Out.andThen (c, [.stop]) stop)
  | .cancel => some (Out.andThen (c, [.cancel]) cancel)
  | .connected =>
    if c.socket = .connecting then some ({ c with socket := .connected }, [.opened, .note]) else none
  | .message document =>
    if c.socket = .connected ∨ c.socket = .closing then some (c.handleTextMessage fold (.read document)) else none
  | .closing => if c.socket = .connected then some ({ c with socket := .closing }, []) else none
  | .disconnected => if c.socket = .unconnected then none else some c.onDisconnected
  | .error error detail => if c.socket = .unconnected then none else some (c.onError fold error detail)
  | .closeTimeout => if c.closeTimer then some c.closeTimeout else none
  | .keepAlive => if c.keepAliveTimer then some c.keepAlive else none
  | .startWaitOver sessionId => if sessionId ∈ c.startWaits then some (c.startWaitOver sessionId) else none

/-! ## What is timely -/

/-- The attempt ended or was cancelled. -/
def ended : Bool := c.cancelled || c.failureEmitted || c.sessionClosed

/-- A message with something to report: a session that started or closed, or the text of an utterance. -/
def tells : CodexMessage → Bool
  | .sessionStarted => !c.sessionStarted
  | .sessionClosed => !c.sessionClosed
  | .segment utteranceId text | .final utteranceId text => !c.finished utteranceId && !text.isEmpty
  | .invalid | .failed .. | .other => false

/-- No message with something to report comes once the attempt is over. -/
def Timely (s : Out CodexDictationClient StreamEntry) : Event → Prop
  | .message document => s.1.ended = true → s.1.tells (.read document) = false
  | _ => True

instance (s : Out CodexDictationClient StreamEntry) : (e : Event) → Decidable (Timely s e)
  | .message _ => inferInstanceAs (Decidable (_ → _))
  | .start | .sendAudio _ | .endUtterance | .stop | .cancel | .connected | .closing | .disconnected | .error ..
  | .closeTimeout | .keepAlive | .startWaitOver _ => inferInstanceAs (Decidable True)

/-! ## How the client follows the monitor -/

def view : StreamView where
  ended := c.ended
  pending := c.pendingAudio.map item
  stopped := c.finishRequested
  finalizing := c.finalizing
  live := c.sessionStarted

/-- Between events. -/
structure Follows (c : CodexDictationClient) (a : StreamAttempt) : Prop where
  settled : c.view.Settled a
  joining : c.socket = .connecting → c.ended = false ∧ c.sessionStarted = false
  opened : c.ended = false → c.socket = .connected ∨ c.socket = .closing → a.opened = true
  unstarted : c.sessionStarted = false → c.finalizing = false

/-- The attempt is over; the socket may still be about to connect. -/
structure Ended (c : CodexDictationClient) (a : StreamAttempt) : Prop where
  ended : c.ended = true
  told : a.ended = true
  sent : a.sent <+: a.given
  unstarted : c.sessionStarted = false → c.finalizing = false

section Keeps

variable {c : CodexDictationClient} {a : StreamAttempt} {message : Text} {retryable : Bool} {phase : SpeechPhase}
  {kind : ProviderFailureKind}

theorem Ended.follows (h : c.Ended a) (hsocket : c.socket ≠ .connecting) : c.Follows a :=
  ⟨.of_ended h.ended h.told h.sent, fun hc => absurd hc hsocket, fun hover => absurd h.ended (ne_true_of_eq_false hover),
    h.unstarted⟩

theorem fail_of_ended (h : c.ended = true) : c.fail message retryable phase kind = (c, []) := if_pos h

theorem fail_of_not_ended (h : c.ended = false) : c.fail message retryable phase kind =
    ({ c with failureEmitted := true }, [.failed ⟨message, retryable, phase, kind⟩]) :=
  if_neg (ne_true_of_eq_false h)

/-- A failure ends an attempt that is not over, and leaves the socket alone. -/
theorem fail_keeps (hover : a.ended = c.ended) (hsent : a.sent <+: a.given)
    (hunstarted : c.sessionStarted = false → c.finalizing = false) :
    streamMonitor.Keeps (fun c' a => c'.Ended a ∧ c'.socket = c.socket) a (c.fail message retryable phase kind) := by
  by_cases h : c.ended = true
  · rw [fail_of_ended h]
    exact .silent ⟨⟨h, hover.trans h, hsent, hunstarted⟩, rfl⟩
  · have h := eq_false_of_ne_true h
    rw [fail_of_not_ended h]
    have hfailed : (c.cancelled || true || c.sessionClosed) = true := by rw [Bool.or_true, Bool.true_or]
    exact .single (hover.trans h) ⟨⟨hfailed, rfl, hsent, hunstarted⟩, rfl⟩

theorem unexpected_eq : (!c.cancelled && !c.sessionClosed && !c.failureEmitted) = !c.ended := by
  rw [ended, Bool.not_or, Bool.not_or, Bool.and_right_comm]

theorem disconnectedReport_keeps (hover : a.ended = c.ended) (hsent : a.sent <+: a.given)
    (hunstarted : c.sessionStarted = false → c.finalizing = false) :
    streamMonitor.Keeps (fun c' a => c'.Ended a ∧ c'.socket = .unconnected) a c.disconnectedReport := by
  refine .ite (fun hguard => ?_) fun hguard => ?_
  · have hnot : c.ended = false := by rwa [unexpected_eq, Bool.not_eq_true'] at hguard
    exact .ite (fun _ => .single (hover.trans hnot) ⟨⟨Bool.or_true _, rfl, hsent, hunstarted⟩, rfl⟩)
      fun _ => fail_keeps (c := { c with socket := .unconnected }) hover hsent hunstarted
  · have hover' : c.ended = true := by rwa [unexpected_eq, Bool.not_eq_true, Bool.not_eq_false'] at hguard
    exact .silent ⟨⟨hover', hover.trans hover', hsent, hunstarted⟩, rfl⟩

/-- **A socket that disconnects ends the attempt.** -/
theorem onDisconnected_keeps (hover : a.ended = c.ended) (hsent : a.sent <+: a.given)
    (hunstarted : c.sessionStarted = false → c.finalizing = false) :
    streamMonitor.Keeps Follows a c.onDisconnected :=
  (disconnectedReport_keeps hover hsent hunstarted).andThen fun _ _ ⟨hended, hsocket⟩ =>
    .single trivial (hended.follows (by rw [hsocket]; nofun))

theorem Ended.abort (h : c.Ended a) : streamMonitor.Keeps Follows a c.abort :=
  .ite (fun hsocket => .silent (h.follows (by rw [hsocket]; nofun)))
    fun _ => onDisconnected_keeps (h.told.trans h.ended.symm) h.sent h.unstarted

theorem Ended.close (h : c.Ended a) : streamMonitor.Keeps Follows a c.close :=
  .silent (Ended.follows ⟨h.ended, h.told, h.sent, h.unstarted⟩ (SocketState.close_ne_connecting _))

/-- A failure that gives up the socket. -/
theorem Follows.fail_abort (h : c.Follows a) :
    streamMonitor.Keeps Follows a ((c.fail message retryable phase kind).andThen CodexDictationClient.abort) :=
  (fail_keeps h.settled.ended h.settled.sent h.unstarted).andThen fun _ _ ⟨hended, _⟩ => hended.abort

/-- A failure that closes it. -/
theorem Follows.fail_close (h : c.Follows a) :
    streamMonitor.Keeps Follows a ((c.fail message retryable phase kind).andThen CodexDictationClient.close) :=
  (fail_keeps h.settled.ended h.settled.sent h.unstarted).andThen fun _ _ ⟨hended, _⟩ => hended.close

/-! ### What the client is given -/

theorem Follows.give_ignored (h : c.Follows a) (hguard : c.ended = true ∨ c.finishRequested = true) (item : StreamItem) :
    c.Follows (a.after (.give item)) where
  settled := h.settled.give_ignored hguard item
  joining := h.joining
  opened hover hsocket := by
    have hopened := h.opened hover hsocket
    rw [StreamAttempt.after]
    split <;> exact hopened
  unstarted := h.unstarted

theorem Follows.give_held (h : c.Follows a) (hover : c.ended = false) (hstopped : c.finishRequested = false)
    (hstarted : c.sessionStarted = false) (pcm : List UInt8) :
    { c with pendingAudio := c.pendingAudio ++ [pcm] }.Follows (a.after (.give (item pcm))) where
  settled := by
    have hheld := h.settled.give_held hover hstopped hstarted (item pcm)
    change StreamView.Settled ⟨_, (c.pendingAudio ++ [pcm]).map item, _, _, _⟩ _
    rwa [List.map_append]
  joining := h.joining
  opened hover hsocket := by
    have hopened := h.opened hover hsocket
    rw [StreamAttempt.after]
    split <;> exact hopened
  unstarted := h.unstarted

theorem Follows.give_sent (h : c.Follows a) (hover : c.ended = false) (hstopped : c.finishRequested = false)
    (hstarted : c.sessionStarted = true) (item : StreamItem) :
    (a.after (.give item)).Allows (.send item) ∧ c.Follows ((a.after (.give item)).after (.send item)) := by
  obtain ⟨hallowed, hsettled⟩ := h.settled.give_sent hover hstopped hstarted item
  exact ⟨hallowed, hsettled, h.joining, fun hover _ => (hsettled.live hover).opened hstarted, h.unstarted⟩

/-- A guard of the calls says when nothing is taken: `finalizing` adds nothing to it. -/
theorem Follows.guard (h : c.Follows a)
    (hguard : (c.finishRequested || c.finalizing || c.sessionClosed || c.cancelled || c.failureEmitted) = true) :
    c.ended = true ∨ c.finishRequested = true := by
  by_contra hneither
  simp only [not_or, Bool.not_eq_true] at hneither
  obtain ⟨hover, hstopped⟩ := hneither
  have hfinalizing : c.finalizing = false := eq_false_of_ne_true fun hf =>
    absurd ((h.settled.live hover).asked hf).1 (ne_true_of_eq_false hstopped)
  simp only [ended, Bool.or_eq_false_iff] at hover
  obtain ⟨⟨hcancelled, hfailed⟩, hclosed⟩ := hover
  rw [hstopped, hfinalizing, hclosed, hcancelled, hfailed] at hguard
  exact absurd hguard (by decide)

theorem not_guard (hguard : ¬ (c.finishRequested || c.finalizing || c.sessionClosed || c.cancelled || c.failureEmitted) = true) :
    c.ended = false ∧ c.finishRequested = false := by
  simp only [Bool.or_eq_true, not_or, Bool.not_eq_true] at hguard
  obtain ⟨⟨⟨⟨hstopped, -⟩, hclosed⟩, hcancelled⟩, hfailed⟩ := hguard
  exact ⟨by rw [ended, hclosed, hcancelled, hfailed]; rfl, hstopped⟩

theorem Follows.sendAudio (h : c.Follows a) {pcm : List UInt8} (hpcm : pcm.isEmpty = false) :
    streamMonitor.Keeps Follows (a.after (.give (.audio pcm))) (c.sendAudio pcm) := by
  have hitem : item pcm = .audio pcm := if_neg (ne_true_of_eq_false hpcm)
  rw [CodexDictationClient.sendAudio, hpcm, Bool.false_or]
  refine .ite (fun hguard => .silent (h.give_ignored (h.guard hguard) _)) fun hguard => ?_
  obtain ⟨hover, hstopped⟩ := not_guard hguard
  refine .ite (fun hstarted => .silent ?_) fun hstarted => ?_
  · rw [← hitem]
    exact h.give_held hover hstopped (by simpa using hstarted) pcm
  · obtain ⟨hallowed, hfollows⟩ := h.give_sent hover hstopped (by simpa using hstarted) (.audio pcm)
    exact .single hallowed ⟨hfollows.settled, hfollows.joining, hfollows.opened, hfollows.unstarted⟩

theorem Follows.endUtterance (h : c.Follows a) :
    streamMonitor.Keeps Follows (a.after (.give .utteranceEnd)) c.endUtterance := by
  refine .ite (fun hguard => .silent (h.give_ignored (h.guard hguard) _)) fun hguard => ?_
  obtain ⟨hover, hstopped⟩ := not_guard hguard
  refine .ite (fun hstarted => .silent (h.give_held hover hstopped (by simpa using hstarted) [])) fun hstarted => ?_
  obtain ⟨hallowed, hfollows⟩ := h.give_sent hover hstopped (by simpa using hstarted) .utteranceEnd
  exact .single hallowed hfollows

/-! ### Finishing -/

theorem requestFinalization_keeps (h : c.view.Follows a) (hstopped : c.finishRequested = true)
    (hcancelled : c.cancelled = false)
    (hjoining : c.socket = .connecting → c.ended = false ∧ c.sessionStarted = false)
    (hopened : c.ended = false → c.socket = .connected ∨ c.socket = .closing → a.opened = true)
    (hunstarted : c.sessionStarted = false → c.finalizing = false) :
    streamMonitor.Keeps Follows a c.requestFinalization := by
  refine .ite (fun hguard => .silent ?_) fun hguard => ?_
  · have hfinalizing : c.ended = false → c.sessionStarted = true → c.finalizing = true := by
      intro hover hstarted
      simp only [ended, Bool.or_eq_false_iff] at hover
      simpa [hstarted, hover] using hguard
    exact ⟨⟨h, fun hover hlive => ((h.live hover).asked (hfinalizing hover hlive)).2, fun hover hlive _ => hfinalizing hover hlive⟩,
      hjoining, hopened, hunstarted⟩
  · simp only [Bool.or_eq_true, Bool.not_eq_true', not_or, Bool.not_eq_false, Bool.not_eq_true] at hguard
    obtain ⟨⟨⟨hstarted, hfinalizing⟩, hclosed⟩, hfailed⟩ := hguard
    have hover : c.ended = false := by rw [ended, hcancelled, hfailed, hclosed]; rfl
    obtain ⟨hallowed, hflushed⟩ := h.flush hover hstarted hfinalizing
    simp only [view, List.map_map] at hallowed hflushed
    obtain ⟨hfinish, hsettled⟩ := hflushed.finish hover hstarted hstopped rfl
    refine .told hallowed (.cons trivial (.single hfinish ⟨hsettled, hjoining, fun hover hsocket => ?_, fun hs => ?_⟩))
    · exact (hsettled.live hover).opened hstarted
    · exact absurd hstarted (ne_true_of_eq_false hs)

/-! ### Calls -/

theorem Follows.start : streamMonitor.Keeps Follows a (c.start, [.start]) :=
  .single trivial ⟨.of_start rfl rfl rfl rfl rfl, fun _ => ⟨rfl, rfl⟩, fun _ hsocket => (by rcases hsocket with h | h <;> cases h),
    fun _ => rfl⟩

theorem Follows.stop (h : c.Follows a) : streamMonitor.Keeps Follows (a.after .stop) c.stop := by
  have hstop := h.settled.stop
  refine .ite (fun hguard => .silent ?_) fun hguard => .ite (fun _ => ?_) fun hstarted => .silent ?_
  · have hagain := h.guard (Bool.or_eq_true_iff.mpr (.inl hguard))
    exact ⟨h.settled.stop_again hagain, h.joining, h.opened, h.unstarted⟩
  · have hcancelled : c.cancelled = false := (Bool.or_eq_false_iff.mp (eq_false_of_ne_true hguard)).2
    exact requestFinalization_keeps (c := { c with finishRequested := true }) hstop rfl hcancelled h.joining h.opened h.unstarted
  · exact ⟨⟨hstop, fun _ hlive => absurd hlive hstarted, fun _ hlive => absurd hlive hstarted⟩, h.joining, h.opened, h.unstarted⟩

theorem Follows.cancel (h : c.Follows a) : streamMonitor.Keeps Follows (a.after .cancel) c.cancel :=
  Ended.abort ⟨rfl, rfl, h.settled.sent, h.unstarted⟩

/-! ### What the socket reports -/

theorem Follows.connected (h : c.Follows a) (hsocket : c.socket = .connecting) :
    streamMonitor.Keeps Follows a ({ c with socket := .connected }, [.opened, .note]) :=
  have hstarted := (h.joining hsocket).2
  .cons trivial (.single trivial ⟨h.settled.opened, nofun, fun _ _ => rfl, fun _ => h.unstarted hstarted⟩)

theorem Follows.closing (h : c.Follows a) (hsocket : c.socket = .connected) :
    streamMonitor.Keeps Follows a ({ c with socket := .closing }, []) :=
  .silent ⟨h.settled, nofun, fun hover _ => h.opened hover (.inl hsocket), h.unstarted⟩

theorem Follows.onError (h : c.Follows a) (error : SocketError) (detail : Text) :
    streamMonitor.Keeps Follows a (c.onError fold error detail) := by
  by_cases hsocket : c.socket = .connecting
  · -- What is still connecting is not over and has no session, so it fails.
    obtain ⟨hover, hstarted⟩ := h.joining hsocket
    rw [CodexDictationClient.onError, leftConnecting, if_pos hsocket]
    have hfails : ∀ {message : Text} {retryable : Bool} {phase : SpeechPhase} {kind : ProviderFailureKind},
        streamMonitor.Keeps Follows a
          (({ c with socket := .closing } : CodexDictationClient).fail message retryable phase kind) :=
      Monitor.Keeps.mono (fail_keeps (c := { c with socket := .closing }) h.settled.ended h.settled.sent h.unstarted)
        fun _ _ ⟨hended, hclosing⟩ => hended.follows (by rw [hclosing]; nofun)
    refine .ite (fun hguard => ?_) fun _ => .ite (fun hremote => ?_) fun _ => hfails
    · exact absurd (show c.ended = true from hguard) (ne_true_of_eq_false hover)
    · simp only [hstarted, Bool.and_false, Bool.false_and, Bool.false_eq_true] at hremote
  · rw [CodexDictationClient.onError, leftConnecting, if_neg hsocket]
    refine .ite (fun _ => .silent h) fun _ => .ite (fun _ => .silent h) fun _ => ?_
    exact Monitor.Keeps.mono (fail_keeps h.settled.ended h.settled.sent h.unstarted)
      fun _ _ ⟨hended, hs⟩ => hended.follows (hs ▸ hsocket)

/-- Between the report that the session started and what follows from it. -/
structure Started (c : CodexDictationClient) (a : StreamAttempt) : Prop where
  follows : c.view.Follows a
  ended : c.ended = false
  cancelled : c.cancelled = false
  sessionStarted : c.sessionStarted = true
  pending : c.pendingAudio = []
  socket : c.socket ≠ .connecting
  finalizing : c.finalizing = false

theorem Started.finish (h : c.Started a) :
    streamMonitor.Keeps Follows a (if c.finishRequested then c.requestFinalization else (c, [])) := by
  have hjoining : c.socket = .connecting → c.ended = false ∧ c.sessionStarted = false := fun hc => absurd hc h.socket
  have hopened : c.ended = false → c.socket = .connected ∨ c.socket = .closing → a.opened = true := fun hover _ =>
    (h.follows.live hover).opened h.sessionStarted
  refine .ite (fun hstopped => ?_) fun hstopped => .silent ⟨⟨h.follows, fun _ _ => ?_, fun _ _ hs => absurd hs hstopped⟩,
    hjoining, hopened, fun _ => h.finalizing⟩
  · exact requestFinalization_keeps h.follows hstopped h.cancelled hjoining hopened fun _ => h.finalizing
  · rw [view, h.pending, List.map_nil]

/-- The session's start makes a client live that is not over. -/
theorem Follows.sessionStarted (h : c.Follows a) (hover : c.ended = false) (hstarted : c.sessionStarted = false)
    (hsocket : c.socket = .connected ∨ c.socket = .closing) :
    streamMonitor.Keeps Follows a (c.handleTextMessage fold .sessionStarted) := by
  have hfinalizing := h.unstarted hstarted
  have hopened := h.opened hover hsocket
  have hlive := h.settled.live hover
  have hcancelled : c.cancelled = false := by
    simp only [ended, Bool.or_eq_false_iff] at hover
    exact hover.1.1
  have hconnecting : c.socket ≠ .connecting := fun hc => by rcases hsocket with hs | hs <;> cases hs.symm.trans hc
  have hfollows : StreamView.Follows { c.view with live := true } a :=
    ⟨h.settled.ended, h.settled.sent, fun _ => { hlive with connected := fun _ => rfl, opened := fun _ => hopened }⟩
  obtain ⟨hallowed, hflushed⟩ := hfollows.flush hover rfl hfinalizing
  simp only [view, List.map_map] at hallowed hflushed
  have hstart : streamMonitor.Keeps Started a
      (({ c with sessionStarted := true, keepAliveTimer := true } : CodexDictationClient).flushPendingAudio.andThen
        fun c => (c, [.connected])) :=
    Monitor.Keeps.told hallowed (.single (show StreamAttempt.ended _ = false from hflushed.ended.trans hover)
      ⟨hflushed.connected rfl, hover, hcancelled, rfl, rfl, hconnecting, hfinalizing⟩)
  rw [CodexDictationClient.handleTextMessage, if_pos (by rw [hstarted]; rfl)]
  exact hstart.andThen fun _ _ hstarted => hstarted.finish

/-- **A message keeps the client orderly**, unless it tells something once the attempt is over. -/
theorem Follows.handleTextMessage (h : c.Follows a) (hsocket : c.socket = .connected ∨ c.socket = .closing)
    {message : CodexMessage} (htimely : c.ended = true → c.tells message = false) :
    streamMonitor.Keeps Follows a (c.handleTextMessage fold message) := by
  have hreports : ∀ {p : Bool}, p = true → (c.ended = true → p = false) → a.ended = false := fun hp htells =>
    h.settled.ended.trans (eq_false_of_ne_true fun hover => absurd hp (ne_true_of_eq_false (htells hover)))
  have htext : ∀ {utteranceId text : Text}, ¬ c.finished utteranceId = true → ¬ text.isEmpty = true →
      (!c.finished utteranceId && !text.isEmpty) = true := fun hfinished hempty => by
    rw [eq_false_of_ne_true hfinished, eq_false_of_ne_true hempty]
    rfl
  cases message with
  | invalid => exact h.fail_close
  | failed => exact h.fail_close
  | other => exact .silent h
  | sessionStarted =>
    by_cases hstarted : c.sessionStarted = true
    · rw [CodexDictationClient.handleTextMessage, if_neg (by rw [hstarted]; decide)]
      exact .silent h
    · have hstarted := eq_false_of_ne_true hstarted
      have hover : c.ended = false := eq_false_of_ne_true fun hover => by
        have hnot := htimely hover
        rw [tells, hstarted] at hnot
        exact absurd hnot (by decide)
      exact h.sessionStarted fold hover hstarted hsocket
  | sessionClosed =>
    refine .ite (fun hclosed => ?_) fun _ => .silent h
    exact .single (hreports hclosed htimely) (Ended.follows ⟨Bool.or_true _, rfl, h.settled.sent, h.unstarted⟩
      (SocketState.close_ne_connecting _))
  | segment utteranceId text =>
    refine .ite (fun _ => .silent h) fun hfinished => .ite (fun _ => .silent h) fun hempty => ?_
    exact .single (hreports (htext hfinished hempty) htimely) h
  | final utteranceId text =>
    refine .ite (fun _ => .silent h) fun hfinished => .ite (fun _ => .silent h) fun hempty => ?_
    exact .single (hreports (htext hfinished hempty) htimely) ⟨h.settled, h.joining, h.opened, h.unstarted⟩

/-! ### Timers -/

theorem Follows.closeTimeout (h : c.Follows a) : streamMonitor.Keeps Follows a c.closeTimeout :=
  have h : { c with closeTimer := false }.Follows a := ⟨h.settled, h.joining, h.opened, h.unstarted⟩
  .ite (fun _ => h.fail_abort) fun _ => .silent h

theorem Follows.keepAlive (h : c.Follows a) : streamMonitor.Keeps Follows a c.keepAlive :=
  .ite (fun _ => .single trivial ⟨h.settled, h.joining, h.opened, h.unstarted⟩)
    fun _ => .silent ⟨h.settled, h.joining, h.opened, h.unstarted⟩

theorem Follows.startWaitOver (h : c.Follows a) (sessionId : ℕ) :
    streamMonitor.Keeps Follows a (c.startWaitOver sessionId) :=
  have h : { c with startWaits := c.startWaits.erase sessionId }.Follows a := ⟨h.settled, h.joining, h.opened, h.unstarted⟩
  .ite (fun _ => h.fail_abort) fun _ => .silent h

/-! ### Steps -/

/-- **Every timely event keeps the client following the monitor.** -/
theorem step_keeps {log : List StreamEntry} {e : Event} {out : Out CodexDictationClient StreamEntry}
    (htimely : Timely (c, log) e) (h : c.Follows a) (hstep : c.step fold e = some out) :
    streamMonitor.Keeps Follows a out := by
  cases e with
  | start => exact Option.some.inj hstep ▸ Follows.start
  | sendAudio pcm =>
    rw [step, Option.some.injEq] at hstep
    subst hstep
    by_cases hpcm : pcm.isEmpty = true
    · rw [if_pos hpcm]
      refine .told trivial ?_
      rw [CodexDictationClient.sendAudio, hpcm]
      exact .silent h
    · rw [if_neg hpcm]
      exact .told ⟨trivial, trivial⟩ (h.sendAudio (eq_false_of_ne_true hpcm))
  | endUtterance => exact Option.some.inj hstep ▸ .told ⟨trivial, trivial⟩ h.endUtterance
  | stop => exact Option.some.inj hstep ▸ .told ⟨trivial, trivial⟩ h.stop
  | cancel => exact Option.some.inj hstep ▸ .told ⟨trivial, trivial⟩ h.cancel
  | connected =>
    rw [step, Option.ite_none_right_eq_some, Option.some.injEq] at hstep
    obtain ⟨hsocket, rfl⟩ := hstep
    exact h.connected hsocket
  | message document =>
    rw [step, Option.ite_none_right_eq_some, Option.some.injEq] at hstep
    obtain ⟨hsocket, rfl⟩ := hstep
    exact h.handleTextMessage fold hsocket htimely
  | closing =>
    rw [step, Option.ite_none_right_eq_some, Option.some.injEq] at hstep
    obtain ⟨hsocket, rfl⟩ := hstep
    exact h.closing hsocket
  | disconnected =>
    rw [step, Option.ite_none_left_eq_some, Option.some.injEq] at hstep
    obtain ⟨-, rfl⟩ := hstep
    exact onDisconnected_keeps h.settled.ended h.settled.sent h.unstarted
  | error error detail =>
    rw [step, Option.ite_none_left_eq_some, Option.some.injEq] at hstep
    obtain ⟨-, rfl⟩ := hstep
    exact h.onError fold error detail
  | closeTimeout =>
    rw [step, Option.ite_none_right_eq_some, Option.some.injEq] at hstep
    obtain ⟨-, rfl⟩ := hstep
    exact h.closeTimeout
  | keepAlive =>
    rw [step, Option.ite_none_right_eq_some, Option.some.injEq] at hstep
    obtain ⟨-, rfl⟩ := hstep
    exact h.keepAlive
  | startWaitOver sessionId =>
    rw [step, Option.ite_none_right_eq_some, Option.some.injEq] at hstep
    obtain ⟨-, rfl⟩ := hstep
    exact h.startWaitOver sessionId

end Keeps

/-- **The log of every timely run is orderly.** -/
theorem orderly {s : Out CodexDictationClient StreamEntry} (h : Reaches (Monitor.traced (step fold)) Timely ({}, []) s) :
    Orderly s.2 :=
  .of_simulation (R := Follows) ⟨.of_start rfl rfl rfl rfl rfl, fun h => absurd h (by decide),
      fun _ h => absurd h (by decide), fun _ => rfl⟩
    (fun _ _ _ _ _ htimely hfollows hstep => step_keeps fold htimely hfollows hstep)
    (fun _ _ hfollows => hfollows.settled.finishes) h

end CodexDictationClient

end Speecher
