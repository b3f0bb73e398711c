import Speecher.Providers.ServiceSocket
import Speecher.Providers.ServiceStream
import Speecher.Refinement.RefinementEvents
import Speecher.Settings.Vocabulary

/-!
# The client of Claude's voice stream

`ClaudeVoiceClient` of the desktop: one WebSocket, audio held back until it connects, two waits of five seconds, and the
messages of the service. `step` handles one event after another and writes down what the client was told, handed to its
socket and reported. A server message is the JSON document it holds, `none` when it holds none; the number of characters
an error's summary keeps is counted in characters.

* `Follows`: how the client follows `streamMonitor` between events.
* `step_keeps`: every event that is timely keeps it so.
-/

namespace Speecher

/-! ## The service's messages -/

inductive ClaudeVoiceEventKind
  | unknown
  | working
  | endpoint
  | transcriptError
  | error
  deriving DecidableEq

structure ClaudeVoiceEvent where
  kind : ClaudeVoiceEventKind := .unknown
  data : Text := []
  errorSummary : Text := []

def redactedErrorSummary (object : Json) : Text :=
  match object.value "error" with
  | some (.string error) => error.take 240
  | errorValue =>
    let error := Json.toObject errorValue
    joinWords <| ["type", "code", "error_code", "message", "description"].filterMap fun key =>
      let value := ((error.value key).bind Json.text?).getD (Json.toText (object.value key))
      if value.isEmpty then none else some (key.toList ++ "=".toList ++ value.take 240)

def parseClaudeVoiceEvent (document : Option Json) : ClaudeVoiceEvent :=
  let object := Json.toObject document
  let type := Json.toText (object.value "type")
  if type = "TranscriptInterim".toList ∨ type = "TranscriptText".toList then
    ⟨.working, Json.toText (object.value "data"), []⟩
  else if type = "TranscriptEndpoint".toList then ⟨.endpoint, Json.toText (object.value "data"), []⟩
  else if type = "TranscriptError".toList then ⟨.transcriptError, [], redactedErrorSummary object⟩
  else if type = "error".toList ∨ (object.value "error").isSome then ⟨.error, [], redactedErrorSummary object⟩
  else {}

/-! ## The client -/

structure ClaudeVoiceClient where
  socket : SocketState := .unconnected
  pendingAudio : List (List UInt8) := []
  pendingAudioBytes : ℕ := 0
  lastInterim : Text := []
  connected : Bool := false
  finishRequested : Bool := false
  finalizing : Bool := false
  completed : Bool := false
  cancelled : Bool := false
  failureEmitted : Bool := false
  sessionId : ℕ := 0
  /-- The timers that run. -/
  connectionTimer : Bool := false
  keepAliveTimer : Bool := false
  /-- The sessions whose waits of five seconds have not passed: for a connection, and for the final transcript. -/
  connectWaits : List ℕ := []
  finalWaits : List ℕ := []
  deriving DecidableEq

namespace ClaudeVoiceClient

/-- What happens to the client. -/
inductive Event
  | start
  | sendAudio (pcm : List UInt8)
  | stop
  | cancel
  | connected
  | message (document : Option Json)
  | closing
  | disconnected
  | error (error : SocketError) (detail : Text)
  | connectionTimeout
  | keepAlive
  | connectWaitOver (sessionId : ℕ)
  | finalWaitOver (sessionId : ℕ)

def kMaximumPendingAudioBytes : ℕ := 4 * 1024 * 1024

variable (fold : CaseFolding) (c : ClaudeVoiceClient)

def clearPendingAudio : ClaudeVoiceClient := { c with pendingAudio := [], pendingAudioBytes := 0 }

def fail (message : Text) (retryable : Bool) (phase : SpeechPhase) (kind : ProviderFailureKind) :
    Out ClaudeVoiceClient StreamEntry :=
  if c.cancelled || c.failureEmitted || c.completed then (c, [])
  else
    ({ c with failureEmitted := true, connectionTimer := false, keepAliveTimer := false }.clearPendingAudio,
      [.failed ⟨message, retryable, phase, kind⟩])

/-- What the `disconnected` handler does before it reports the socket closed. -/
def disconnectedReport : Out ClaudeVoiceClient StreamEntry :=
  let unexpected := !c.completed && !c.cancelled && !c.failureEmitted
  let phase : SpeechPhase :=
    if c.finalizing || c.finishRequested then .finalize else if c.connected then .streaming else .connect
  -- The server ended a live stream: that is its end, not an error.
  let serverEndedStream := unexpected && phase = .streaming
  let c := { c with
    socket := .unconnected, connectionTimer := false, connected := false, finalizing := false,
    keepAliveTimer := false }.clearPendingAudio
  if serverEndedStream then ({ c with completed := true }, [.completed])
  else if unexpected then
    c.fail
      (if phase = .finalize then "Claude voice stream closed before final transcript completion".toList
        else "Claude voice stream disconnected unexpectedly".toList)
      true phase .network
  else (c, [])

def onDisconnected : Out ClaudeVoiceClient StreamEntry := c.disconnectedReport.andThen fun c => (c, [.closed])

/-- `QWebSocket::abort`. -/
def abort : Out ClaudeVoiceClient StreamEntry := if c.socket = .unconnected then (c, []) else c.onDisconnected

def queueAudio (pcm : List UInt8) : Out ClaudeVoiceClient StreamEntry :=
  if pcm.isEmpty then (c, [])
  else if c.pendingAudioBytes + pcm.length > kMaximumPendingAudioBytes then
    (c.fail "Claude voice audio buffer filled before the stream connected".toList true .connect .network).andThen abort
  else
    ({ c with pendingAudio := c.pendingAudio ++ [pcm], pendingAudioBytes := c.pendingAudioBytes + pcm.length }, [])

def flushPendingAudio : Out ClaudeVoiceClient StreamEntry :=
  if !c.connected || c.finalizing || c.pendingAudio.isEmpty then (c, [])
  else (c.clearPendingAudio, c.pendingAudio.map fun pcm => .send (.audio pcm))

def requestFinalization : Out ClaudeVoiceClient StreamEntry :=
  if !c.connected || c.finalizing || c.completed || c.failureEmitted then (c, [])
  else c.flushPendingAudio.andThen fun c =>
    ({ c with finalizing := true, finalWaits := c.finalWaits ++ [c.sessionId] }, [.finish])

def sendAudio (pcm : List UInt8) : Out ClaudeVoiceClient StreamEntry :=
  if c.cancelled || c.failureEmitted || c.completed || c.finishRequested then (c, [])
  else if c.connected && !c.finalizing && !c.finishRequested then
    -- An empty message carries no audio.
    (c, [if pcm.isEmpty then .note else .send (.audio pcm)])
  else if !c.finalizing then c.queueAudio pcm
  else (c, [])

def stop : Out ClaudeVoiceClient StreamEntry :=
  let c := { c with finishRequested := true }
  if c.connected then c.requestFinalization
  else
    let c := { c with connectWaits := c.connectWaits ++ [c.sessionId] }
    if c.socket = .unconnected && !c.failureEmitted then
      c.fail "Claude voice stream closed before input could be finalized".toList true .connect .network
    else (c, [])

def cancel : Out ClaudeVoiceClient StreamEntry :=
  { c with
    cancelled := true, finishRequested := false, finalizing := false, connectionTimer := false,
    keepAliveTimer := false }.clearPendingAudio.abort

/-- `start` leaves what the last stream connected as it is. -/
def start : ClaudeVoiceClient :=
  { c with
    lastInterim := [], finishRequested := false, finalizing := false, completed := false, cancelled := false,
    failureEmitted := false, sessionId := c.sessionId + 1, socket := .connecting,
    connectionTimer := true }.clearPendingAudio

def onConnected : Out ClaudeVoiceClient StreamEntry :=
  (({ c with socket := .connected, connectionTimer := false, connected := true, keepAliveTimer := true } :
      ClaudeVoiceClient).flushPendingAudio.andThen fun c =>
    if c.finishRequested then c.requestFinalization else (c, [])).andThen fun c => (c, [.connected])

/-- A connection that failed does not connect any more. -/
def leftConnecting : ClaudeVoiceClient := if c.socket = .connecting then { c with socket := .closing } else c

def onError (error : SocketError) (detail : Text) : Out ClaudeVoiceClient StreamEntry :=
  let c := c.leftConnecting
  if isRemoteClose error && c.connected && !c.finishRequested && !c.finalizing then (c, [])
  else if !c.cancelled && !c.failureEmitted then
    let authentication := namesAuthentication fold detail
    c.fail ("Claude voice API changed or connection failed: ".toList ++ detail) (!authentication)
      (if authentication then .authentication
        else if c.finalizing then .finalize else if c.connected then .streaming else .connect)
      (if authentication then .authentication else webSocketFailureKind error detail)
  else (c, [])

/-- What the endpoint of an utterance reports. -/
def endUtterance (data : Text) : Out ClaudeVoiceClient StreamEntry :=
  let c := if (simplified data).isEmpty then c else { c with lastInterim := simplified data }
  if c.lastInterim.isEmpty then (c, []) else ({ c with lastInterim := [] }, [.text true c.lastInterim])

/-- `handleTextMessage`. Other than the error handlers, it does not ask whether the attempt ended. -/
def handleTextMessage (event : ClaudeVoiceEvent) : Out ClaudeVoiceClient StreamEntry :=
  match event.kind with
  | .error =>
    let authentication := namesAuthentication fold event.errorSummary
    c.fail ("Claude voice server error: ".toList ++ event.errorSummary) (!authentication)
      (if authentication then .authentication else if c.finalizing then .finalize else .streaming)
      (if authentication then .authentication else .server)
  | .endpoint =>
    (c.endUtterance event.data).andThen fun c =>
      if c.finalizing then ({ c with completed := true, socket := c.socket.close }, [.completed]) else (c, [])
  | .transcriptError =>
    c.fail (if event.errorSummary.isEmpty then "Claude transcript error".toList else event.errorSummary) true
      (if c.finalizing then .finalize else .streaming) .server
  | .unknown => (c, [])
  | .working =>
    let text := simplified event.data
    if text.isEmpty then (c, []) else ({ c with lastInterim := text }, [.text false text])

def connectionTimeout : Out ClaudeVoiceClient StreamEntry :=
  let c := { c with connectionTimer := false }
  if !c.connected && !c.cancelled && !c.failureEmitted then
    (c.fail "Claude voice stream timed out while connecting".toList true .connect .timeout).andThen abort
  else (c, [])

def connectWaitOver (sessionId : ℕ) : Out ClaudeVoiceClient StreamEntry :=
  let c := { c with connectWaits := c.connectWaits.erase sessionId }
  if sessionId = c.sessionId && c.finishRequested && !c.finalizing && !c.completed && !c.failureEmitted then
    (c.fail "Claude voice stream did not become ready for finalization".toList true .connect .timeout).andThen abort
  else (c, [])

def finalWaitOver (sessionId : ℕ) : Out ClaudeVoiceClient StreamEntry :=
  let c := { c with finalWaits := c.finalWaits.erase sessionId }
  if sessionId = c.sessionId && c.finalizing && !c.completed && !c.failureEmitted then
    (c.fail "Claude voice stream timed out while waiting for the final transcript".toList true .finalize
      .timeout).andThen abort
  else (c, [])

/-- One event, when it can happen. What the client is told comes first. -/
def step : Event → Option (Out ClaudeVoiceClient StreamEntry)
  | .start => some (c.start, [.start])
  | .sendAudio pcm =>
    some <| Out.andThen (c, if pcm.isEmpty then [] else [.give (.audio pcm)]) fun c => c.sendAudio pcm
  | .stop => some (Out.andThen (c, [.stop]) stop)
  | .cancel => some (Out.andThen (c, [.cancel]) cancel)
  | .connected => if c.socket = .connecting then some (Out.andThen (c, [.opened, .note]) onConnected) else none
  | .message document =>
    if c.socket = .connected ∨ c.socket = .closing then
      some (c.handleTextMessage fold (parseClaudeVoiceEvent document))
    else none
  | .closing => if c.socket = .connected then some ({ c with socket := .closing }, []) else none
  | .disconnected => if c.socket = .unconnected then none else some c.onDisconnected
  | .error error detail => if c.socket = .unconnected then none else some (c.onError fold error detail)
  | .connectionTimeout => if c.connectionTimer then some c.connectionTimeout else none
  | .keepAlive =>
    if c.keepAliveTimer then some (c, if c.socket = .connected then [.note] else []) else none
  | .connectWaitOver sessionId => if sessionId ∈ c.connectWaits then some (c.connectWaitOver sessionId) else none
  | .finalWaitOver sessionId => if sessionId ∈ c.finalWaits then some (c.finalWaitOver sessionId) else none

/-! ## What is timely -/

/-- The attempt ended or was cancelled. -/
def ended : Bool := c.cancelled || c.failureEmitted || c.completed

/-- A message with something to report: text, or the end the client waits for. -/
def tells (event : ClaudeVoiceEvent) : Bool :=
  match event.kind with
  | .working => !(simplified event.data).isEmpty
  | .endpoint => !(simplified event.data).isEmpty || !c.lastInterim.isEmpty || c.finalizing
  | .unknown | .transcriptError | .error => false

/-- No message with something to report comes once the attempt is over, and no client is started that still counts as
connected. -/
def Timely (s : Out ClaudeVoiceClient StreamEntry) : Event → Prop
  | .start => s.1.connected = false
  | .message document => s.1.ended = true → s.1.tells (parseClaudeVoiceEvent document) = false
  | _ => True

instance (s : Out ClaudeVoiceClient StreamEntry) : (e : Event) → Decidable (Timely s e)
  | .start => inferInstanceAs (Decidable (_ = _))
  | .message _ => inferInstanceAs (Decidable (_ → _))
  | .sendAudio _ | .stop | .cancel | .connected | .closing | .disconnected | .error .. | .connectionTimeout
  | .keepAlive | .connectWaitOver _ | .finalWaitOver _ => inferInstanceAs (Decidable True)

/-! ## How the client follows the monitor -/

def view : StreamView where
  ended := c.ended
  pending := c.pendingAudio.map .audio
  stopped := c.finishRequested
  finalizing := c.finalizing
  live := c.connected

/-- Between events. -/
structure Follows (c : ClaudeVoiceClient) (a : StreamAttempt) : Prop where
  settled : c.view.Settled a
  joining : c.socket = .connecting → c.ended = false ∧ c.connected = false ∧ c.finalizing = false
  unconnected : c.socket = .unconnected → c.connected = false
  cancelled : c.cancelled = true → c.connected = false

/-- The attempt is over; the socket may still be about to connect. -/
structure Ended (c : ClaudeVoiceClient) (a : StreamAttempt) : Prop where
  ended : c.ended = true
  told : a.ended = true
  sent : a.sent <+: a.given
  unconnected : c.socket = .unconnected → c.connected = false

section Keeps

variable {c : ClaudeVoiceClient} {a : StreamAttempt} {message : Text} {retryable : Bool} {phase : SpeechPhase}
  {kind : ProviderFailureKind}

theorem Ended.follows (h : c.Ended a) (hsocket : c.socket ≠ .connecting) (hcancelled : c.cancelled = true → c.connected = false) :
    c.Follows a :=
  ⟨.of_ended h.ended h.told h.sent, fun hc => absurd hc hsocket, h.unconnected, hcancelled⟩

theorem fail_of_ended (h : c.ended = true) : c.fail message retryable phase kind = (c, []) := if_pos h

theorem fail_of_not_ended (h : c.ended = false) : c.fail message retryable phase kind =
    (({ c with failureEmitted := true, connectionTimer := false, keepAliveTimer := false } :
        ClaudeVoiceClient).clearPendingAudio, [.failed ⟨message, retryable, phase, kind⟩]) :=
  if_neg (ne_true_of_eq_false h)

/-- A failure ends an attempt that is not over, and leaves the socket alone. -/
theorem fail_keeps (hover : a.ended = c.ended) (hsent : a.sent <+: a.given)
    (hunconnected : c.socket = .unconnected → c.connected = false) :
    streamMonitor.Keeps (fun c' a => c'.Ended a ∧ c'.socket = c.socket ∧ c'.cancelled = c.cancelled ∧
      c'.connected = c.connected) a (c.fail message retryable phase kind) := by
  by_cases h : c.ended = true
  · rw [fail_of_ended h]
    exact .silent ⟨⟨h, hover.trans h, hsent, hunconnected⟩, rfl, rfl, rfl⟩
  · have h := eq_false_of_ne_true h
    rw [fail_of_not_ended h]
    have hfailed : (c.cancelled || true || c.completed) = true := by rw [Bool.or_true, Bool.true_or]
    exact .single (hover.trans h) ⟨⟨hfailed, rfl, hsent, hunconnected⟩, rfl, rfl, rfl⟩

theorem Follows.fail (h : c.Follows a) (hsocket : c.socket ≠ .connecting) :
    streamMonitor.Keeps Follows a (c.fail message retryable phase kind) :=
  (fail_keeps h.settled.ended h.settled.sent h.unconnected).mono fun c' _ ⟨hended, hs, hcancelled, hconnected⟩ =>
    hended.follows (hs ▸ hsocket) (by rw [hcancelled, hconnected]; exact h.cancelled)

theorem unexpected_eq : (!c.completed && !c.cancelled && !c.failureEmitted) = !c.ended := by
  rw [ended, Bool.not_or, Bool.not_or, Bool.and_assoc, Bool.and_comm]

/-- What a socket that disconnected leaves of the attempt. -/
structure Disconnected (c : ClaudeVoiceClient) (a : StreamAttempt) : Prop where
  ended : c.ended = true
  told : a.ended = true
  sent : a.sent <+: a.given
  socket : c.socket = .unconnected
  connected : c.connected = false

theorem Disconnected.follows (h : c.Disconnected a) : c.Follows a where
  settled := .of_ended h.ended h.told h.sent
  joining hc := by rw [h.socket] at hc; cases hc
  unconnected _ := h.connected
  cancelled _ := h.connected

theorem disconnectedReport_keeps (hover : a.ended = c.ended) (hsent : a.sent <+: a.given) :
    streamMonitor.Keeps Disconnected a c.disconnectedReport := by
  rw [disconnectedReport, unexpected_eq]
  refine .ite (fun h => ?_) fun _ => .ite (fun h => ?_) fun h => ?_
  · have hnot : c.ended = false := by simpa using (Bool.and_eq_true_iff.mp h).1
    exact .single (hover.trans hnot) ⟨Bool.or_true _, rfl, hsent, rfl, rfl⟩
  · refine .mono (fail_keeps hover hsent fun _ => rfl) fun c' a hended => ?_
    obtain ⟨hended, hsocket, -, hconnected⟩ := hended
    exact ⟨hended.ended, hended.told, hended.sent, hsocket, hconnected⟩
  · have hover' : c.ended = true := by simpa using h
    exact .silent ⟨hover', hover.trans hover', hsent, rfl, rfl⟩

/-- **A socket that disconnects ends the attempt.** -/
theorem onDisconnected_keeps (hover : a.ended = c.ended) (hsent : a.sent <+: a.given) :
    streamMonitor.Keeps Follows a c.onDisconnected :=
  (disconnectedReport_keeps hover hsent).andThen fun _ _ h => .single trivial h.follows

theorem Ended.abort (h : c.Ended a) : streamMonitor.Keeps Follows a c.abort :=
  .ite (fun hsocket => .silent (h.follows (by rw [hsocket]; nofun) fun _ => h.unconnected hsocket))
    fun _ => onDisconnected_keeps (h.told.trans h.ended.symm) h.sent

/-- A failure that gives up the socket. -/
theorem Follows.fail_abort (h : c.Follows a) :
    streamMonitor.Keeps Follows a ((c.fail message retryable phase kind).andThen ClaudeVoiceClient.abort) :=
  (fail_keeps h.settled.ended h.settled.sent h.unconnected).andThen fun _ _ ⟨hended, _⟩ => hended.abort

/-! ### Audio -/

theorem Follows.sendAudio_empty (h : c.Follows a) {pcm : List UInt8} (hpcm : pcm.isEmpty = true) :
    streamMonitor.Keeps Follows a (c.sendAudio pcm) := by
  refine .ite (fun _ => .silent h) fun _ => .ite (fun _ => ?_) fun _ => .ite (fun _ => ?_) fun _ => .silent h
  · rw [if_pos hpcm]
    exact .single trivial h
  · rw [queueAudio, if_pos hpcm]
    exact .silent h

theorem Follows.sendAudio (h : c.Follows a) {pcm : List UInt8} (hpcm : ¬ pcm.isEmpty = true) :
    streamMonitor.Keeps Follows (a.after (.give (.audio pcm))) (c.sendAudio pcm) := by
  refine .ite (fun hguard => .silent ?_) fun hguard => ?_
  · have hover : c.view.ended = true ∨ c.view.stopped = true := Bool.or_eq_true_iff.mp hguard
    exact ⟨h.settled.give_ignored hover _, h.joining, h.unconnected, h.cancelled⟩
  obtain ⟨hover, hstopped⟩ : c.ended = false ∧ c.finishRequested = false := by
    rwa [Bool.not_eq_true, Bool.or_eq_false_iff] at hguard
  refine .ite (fun hconnected => ?_) fun hconnected => .ite (fun hfinalizing => ?_) fun hfinalizing => ?_
  · rw [if_neg hpcm]
    have hlive : c.connected = true := (Bool.and_eq_true_iff.mp (Bool.and_eq_true_iff.mp hconnected).1).1
    obtain ⟨hallowed, hsettled⟩ := h.settled.give_sent hover hstopped hlive (.audio pcm)
    exact .single hallowed ⟨hsettled, h.joining, h.unconnected, h.cancelled⟩
  · have hlive : c.connected = false := by
      refine eq_false_of_ne_true fun hlive => hconnected ?_
      rw [hlive, hfinalizing, hstopped]
      rfl
    rw [queueAudio, if_neg hpcm]
    refine .ite (fun _ => ?_) fun _ => .silent ⟨?_, h.joining, h.unconnected, h.cancelled⟩
    · have hover' : (a.after (.give (.audio pcm))).ended = c.ended :=
        (StreamView.ended_after_give _).trans h.settled.ended
      exact (fail_keeps hover' (StreamView.sent_prefix_after_give h.settled.sent _) h.unconnected).andThen
        fun _ _ hended => hended.1.abort
    · have hheld := h.settled.give_held hover hstopped hlive (.audio pcm)
      change StreamView.Settled ⟨_, (c.pendingAudio ++ [pcm]).map .audio, _, _, _⟩ _
      rwa [List.map_append]
  · have hfinalizing : c.finalizing = true := by simpa using hfinalizing
    have hasked := ((h.settled.live hover).asked hfinalizing).1
    exact absurd hasked (ne_true_of_eq_false hstopped)

/-- What is held back goes out, and nothing else changes. -/
theorem flushPendingAudio_keeps (h : c.view.Follows a) (hover : c.ended = false) (hconnected : c.connected = true)
    (hfinalizing : c.finalizing = false) :
    streamMonitor.Keeps (fun c' a => ∃ n, c' = { c with pendingAudio := [], pendingAudioBytes := n } ∧ c'.view.Follows a) a
      c.flushPendingAudio := by
  refine .ite (fun hguard => .silent ?_) fun _ => ?_
  · have hpending : c.pendingAudio = [] := by
      rw [hconnected, hfinalizing] at hguard
      exact List.isEmpty_iff.mp hguard
    exact ⟨c.pendingAudioBytes, by rw [← hpending], h⟩
  · obtain ⟨hallowed, hfollows⟩ := h.flush hover hconnected hfinalizing
    simp only [view, List.map_map] at hallowed hfollows
    exact ⟨hallowed, _, rfl, hfollows⟩

theorem requestFinalization_keeps (h : c.view.Follows a) (hstopped : c.finishRequested = true)
    (hsocket : c.socket ≠ .connecting) (hunconnected : c.socket = .unconnected → c.connected = false)
    (hcancelled : c.cancelled = true → c.connected = false) :
    streamMonitor.Keeps (fun c' a => c'.Follows a ∧ c'.ended = c.ended ∧ c'.connected = c.connected) a
      c.requestFinalization := by
  refine .ite (fun hguard => .silent ?_) fun hguard => ?_
  · have hfinalizing : c.ended = false → c.connected = true → c.finalizing = true := by
      intro hover hconnected
      simp only [ended, Bool.or_eq_false_iff] at hover
      simpa [hconnected, hover] using hguard
    refine ⟨⟨⟨h, fun hover hlive => ?_, fun hover hlive _ => hfinalizing hover hlive⟩, fun hc => absurd hc hsocket,
      hunconnected, hcancelled⟩, rfl, rfl⟩
    exact ((h.live hover).asked (hfinalizing hover hlive)).2
  · simp only [Bool.or_eq_true, Bool.not_eq_true', not_or, Bool.not_eq_false, Bool.not_eq_true] at hguard
    obtain ⟨⟨⟨hconnected, hfinalizing⟩, hcompleted⟩, hfailed⟩ := hguard
    have hnot : c.cancelled = false := eq_false_of_ne_true fun hc => absurd hconnected (ne_true_of_eq_false (hcancelled hc))
    have hover : c.ended = false := by rw [ended, hnot, hfailed, hcompleted]; rfl
    refine (flushPendingAudio_keeps h hover hconnected hfinalizing).andThen ?_
    rintro _ a ⟨n, rfl, hfollows⟩
    obtain ⟨hallowed, hsettled⟩ := hfollows.finish hover hconnected hstopped rfl
    exact .single hallowed ⟨⟨hsettled, fun hc => absurd hc hsocket, hunconnected, hcancelled⟩, rfl, rfl⟩

/-! ### Calls -/

theorem Follows.start (hconnected : c.connected = false) : streamMonitor.Keeps Follows a (c.start, [.start]) :=
  .single trivial ⟨.of_start rfl rfl rfl rfl hconnected, fun _ => ⟨rfl, hconnected, rfl⟩, fun h => (nomatch h), fun h => (nomatch h)⟩

theorem Follows.stop (h : c.Follows a) : streamMonitor.Keeps Follows (a.after .stop) c.stop := by
  have hstop := h.settled.stop
  refine .ite (fun hconnected => ?_) fun hconnected => .ite (fun hclosed => ?_) fun _ => .silent ?_
  · have hsocket : c.socket ≠ .connecting := fun hc => absurd hconnected (ne_true_of_eq_false (h.joining hc).2.1)
    exact (requestFinalization_keeps (c := { c with finishRequested := true }) hstop rfl hsocket h.unconnected
      h.cancelled).mono fun _ _ hfollows => hfollows.1
  · have hsocket : c.socket = .unconnected := of_decide_eq_true (Bool.and_eq_true_iff.mp hclosed).1
    refine .mono (fail_keeps hstop.ended hstop.sent h.unconnected) fun c' _ hended => ?_
    obtain ⟨hended, hs, hcancelled, hconnected'⟩ := hended
    exact hended.follows (by rw [hs, hsocket]; nofun) fun _ => hconnected'.trans (eq_false_of_ne_true hconnected)
  · have hfalse := eq_false_of_ne_true hconnected
    exact ⟨⟨hstop, fun _ hlive => absurd hlive hconnected, fun _ hlive => absurd hlive hconnected⟩,
      h.joining, h.unconnected, h.cancelled⟩

theorem Follows.cancel (h : c.Follows a) : streamMonitor.Keeps Follows (a.after .cancel) c.cancel :=
  Ended.abort ⟨rfl, rfl, h.settled.sent, h.unconnected⟩

/-! ### What the socket reports -/

theorem Follows.onConnected (h : c.Follows a) (hsocket : c.socket = .connecting) :
    streamMonitor.Keeps Follows (a.after .opened) c.onConnected := by
  obtain ⟨hover, -, hfinalizing⟩ := h.joining hsocket
  have hlive := h.settled.live hover
  have hnot : c.cancelled = false := by
    simp only [ended, Bool.or_eq_false_iff] at hover
    exact hover.1.1
  have hfollows : StreamView.Follows { c.view with live := true } (a.after .opened) :=
    ⟨h.settled.ended, h.settled.sent, fun _ => { hlive with connected := fun _ => rfl, opened := fun _ => rfl }⟩
  have hflush := flushPendingAudio_keeps
    (c := { c with socket := .connected, connectionTimer := false, connected := true, keepAliveTimer := true }) hfollows hover
    rfl hfinalizing
  refine Monitor.Keeps.andThen (R := fun c' a => c'.Follows a ∧ c'.ended = false ∧ c'.connected = true)
    (hflush.andThen ?_) ?_
  · rintro _ a ⟨n, rfl, hfollows⟩
    refine .ite (fun hstopped => ?_) fun hstopped => .silent ?_
    · refine .mono (requestFinalization_keeps hfollows hstopped (by rintro ⟨⟩) (by rintro ⟨⟩) fun hc => absurd hc (ne_true_of_eq_false hnot)) ?_
      rintro c' a ⟨hfollows, hover', hconnected⟩
      exact ⟨hfollows, hover'.trans hover, hconnected⟩
    · exact ⟨⟨⟨hfollows, fun _ _ => rfl, fun _ _ hs => absurd hs hstopped⟩, by rintro ⟨⟩, by rintro ⟨⟩,
        fun hc => absurd hc (ne_true_of_eq_false hnot)⟩, hover, rfl⟩
  · rintro c' a ⟨hfollows, hover, hconnected⟩
    exact .single (hfollows.settled.ended.trans hover)
      ⟨hfollows.settled.connected hconnected, hfollows.joining, hfollows.unconnected, hfollows.cancelled⟩

theorem Follows.leftConnecting (h : c.Follows a) : c.leftConnecting.Follows a ∧ c.leftConnecting.socket ≠ .connecting := by
  by_cases hsocket : c.socket = .connecting
  · rw [ClaudeVoiceClient.leftConnecting, if_pos hsocket]
    exact ⟨⟨h.settled, nofun, nofun, h.cancelled⟩, nofun⟩
  · rw [ClaudeVoiceClient.leftConnecting, if_neg hsocket]
    exact ⟨h, hsocket⟩

theorem Follows.onError (h : c.Follows a) (error : SocketError) (detail : Text) :
    streamMonitor.Keeps Follows a (c.onError fold error detail) :=
  have ⟨hleft, hsocket⟩ := h.leftConnecting
  .ite (fun _ => .silent hleft) fun _ => .ite (fun _ => hleft.fail hsocket) fun _ => .silent hleft

/-- The text of an utterance that ended is reported by an attempt that is not over. -/
theorem Follows.endUtterance (h : c.Follows a) {data : Text}
    (htells : c.ended = true → (!(simplified data).isEmpty || !c.lastInterim.isEmpty) = false) :
    streamMonitor.Keeps (fun c' a' => a' = a ∧ ∃ text, c' = { c with lastInterim := text }) a (c.endUtterance data) := by
  have hreport : ∀ text, (text.isEmpty = false → c.ended = false) → streamMonitor.Keeps
      (fun c' a' => a' = a ∧ ∃ text, c' = { c with lastInterim := text }) a
      (if text.isEmpty then ({ c with lastInterim := text }, []) else ({ c with lastInterim := [] }, [.text true text])) :=
    fun text htext => .ite (fun _ => .silent ⟨rfl, _, rfl⟩) fun hempty =>
      .single (h.settled.ended.trans (htext (eq_false_of_ne_true hempty))) ⟨rfl, _, rfl⟩
  have hover : ∀ text : Text, text.isEmpty = false → (c.ended = true → text.isEmpty = true) → c.ended = false :=
    fun text hempty htext => eq_false_of_ne_true fun hover => ne_true_of_eq_false hempty (htext hover)
  rw [ClaudeVoiceClient.endUtterance]
  by_cases hdata : (simplified data).isEmpty = true
  · rw [if_pos hdata]
    exact hreport c.lastInterim fun hempty => hover _ hempty fun ho => by simpa [hdata] using htells ho
  · rw [if_neg hdata]
    exact hreport (simplified data) fun hempty => hover _ hempty fun ho => absurd (htells ho) (by simp [hdata])

/-- **A message keeps the client orderly**, unless it tells something once the attempt is over. -/
theorem Follows.handleTextMessage (h : c.Follows a) (hsocket : c.socket ≠ .connecting) {event : ClaudeVoiceEvent}
    (htimely : c.ended = true → c.tells event = false) :
    streamMonitor.Keeps Follows a (c.handleTextMessage fold event) := by
  obtain ⟨kind, data, errorSummary⟩ := event
  cases kind with
  | error => exact h.fail hsocket
  | transcriptError => exact h.fail hsocket
  | unknown => exact .silent h
  | working =>
    refine .ite (fun _ => .silent h) fun htext => .single (h.settled.ended.trans ?_)
      ⟨h.settled, h.joining, h.unconnected, h.cancelled⟩
    exact eq_false_of_ne_true fun hover => htext (by simpa [tells] using htimely hover)
  | endpoint =>
    have htells : c.ended = true → (!(simplified data).isEmpty || !c.lastInterim.isEmpty) = false := fun hover =>
      (Bool.or_eq_false_iff.mp (htimely hover)).1
    change streamMonitor.Keeps Follows a (Out.andThen (c.endUtterance data) fun c => if c.finalizing then
      ({ c with completed := true, socket := c.socket.close }, [.completed]) else (c, []))
    refine Monitor.Keeps.andThen (h.endUtterance htells) ?_
    rintro _ a ⟨rfl, text, rfl⟩
    refine .ite (fun hfinalizing => ?_) fun _ => .silent ⟨h.settled, h.joining, h.unconnected, h.cancelled⟩
    have hover : c.ended = false := eq_false_of_ne_true fun hover =>
      absurd hfinalizing (ne_true_of_eq_false (Bool.or_eq_false_iff.mp (htimely hover)).2)
    exact .single (h.settled.ended.trans hover) ⟨.of_ended (Bool.or_true _) rfl h.settled.sent,
      fun hc => absurd hc (SocketState.close_ne_connecting _), fun hc => h.unconnected (SocketState.close_eq_unconnected hc),
      h.cancelled⟩

/-! ### Timers -/

theorem Follows.connectionTimeout (h : c.Follows a) : streamMonitor.Keeps Follows a c.connectionTimeout :=
  have h : { c with connectionTimer := false }.Follows a := ⟨h.settled, h.joining, h.unconnected, h.cancelled⟩
  .ite (fun _ => h.fail_abort) fun _ => .silent h

theorem Follows.connectWaitOver (h : c.Follows a) (sessionId : ℕ) :
    streamMonitor.Keeps Follows a (c.connectWaitOver sessionId) :=
  have h : { c with connectWaits := c.connectWaits.erase sessionId }.Follows a :=
    ⟨h.settled, h.joining, h.unconnected, h.cancelled⟩
  .ite (fun _ => h.fail_abort) fun _ => .silent h

theorem Follows.finalWaitOver (h : c.Follows a) (sessionId : ℕ) :
    streamMonitor.Keeps Follows a (c.finalWaitOver sessionId) :=
  have h : { c with finalWaits := c.finalWaits.erase sessionId }.Follows a :=
    ⟨h.settled, h.joining, h.unconnected, h.cancelled⟩
  .ite (fun _ => h.fail_abort) fun _ => .silent h

/-! ### Steps -/

/-- **Every timely event keeps the client following the monitor.** -/
theorem step_keeps {log : List StreamEntry} {e : Event} {out : Out ClaudeVoiceClient StreamEntry} (htimely : Timely (c, log) e)
    (h : c.Follows a) (hstep : c.step fold e = some out) : streamMonitor.Keeps Follows a out := by
  cases e with
  | start => exact Option.some.inj hstep ▸ Follows.start htimely
  | sendAudio pcm =>
    rw [step, Option.some.injEq] at hstep
    subst hstep
    by_cases hpcm : pcm.isEmpty = true
    · rw [if_pos hpcm]
      exact h.sendAudio_empty hpcm
    · rw [if_neg hpcm]
      exact .told ⟨trivial, trivial⟩ (h.sendAudio hpcm)
  | stop => exact Option.some.inj hstep ▸ .told ⟨trivial, trivial⟩ h.stop
  | cancel => exact Option.some.inj hstep ▸ .told ⟨trivial, trivial⟩ h.cancel
  | connected =>
    rw [step, Option.ite_none_right_eq_some, Option.some.injEq] at hstep
    obtain ⟨hsocket, rfl⟩ := hstep
    exact .told ⟨trivial, trivial, trivial⟩ (h.onConnected hsocket)
  | message document =>
    rw [step, Option.ite_none_right_eq_some, Option.some.injEq] at hstep
    obtain ⟨hsocket, rfl⟩ := hstep
    exact h.handleTextMessage fold (by rcases hsocket with hs | hs <;> rw [hs] <;> nofun) htimely
  | closing =>
    rw [step, Option.ite_none_right_eq_some, Option.some.injEq] at hstep
    obtain ⟨hsocket, rfl⟩ := hstep
    exact .silent ⟨h.settled, nofun, nofun, h.cancelled⟩
  | disconnected =>
    rw [step, Option.ite_none_left_eq_some, Option.some.injEq] at hstep
    obtain ⟨-, rfl⟩ := hstep
    exact onDisconnected_keeps h.settled.ended h.settled.sent
  | error error detail =>
    rw [step, Option.ite_none_left_eq_some, Option.some.injEq] at hstep
    obtain ⟨-, rfl⟩ := hstep
    exact h.onError fold error detail
  | connectionTimeout =>
    rw [step, Option.ite_none_right_eq_some, Option.some.injEq] at hstep
    obtain ⟨-, rfl⟩ := hstep
    exact h.connectionTimeout
  | keepAlive =>
    rw [step, Option.ite_none_right_eq_some, Option.some.injEq] at hstep
    obtain ⟨-, rfl⟩ := hstep
    split_ifs
    · exact .single trivial h
    · exact .silent h
  | connectWaitOver sessionId =>
    rw [step, Option.ite_none_right_eq_some, Option.some.injEq] at hstep
    obtain ⟨-, rfl⟩ := hstep
    exact h.connectWaitOver sessionId
  | finalWaitOver sessionId =>
    rw [step, Option.ite_none_right_eq_some, Option.some.injEq] at hstep
    obtain ⟨-, rfl⟩ := hstep
    exact h.finalWaitOver sessionId

end Keeps

/-- **The log of every timely run is orderly.** -/
theorem orderly {s : Out ClaudeVoiceClient StreamEntry} (h : Reaches (Monitor.traced (step fold)) Timely ({}, []) s) :
    Orderly s.2 :=
  .of_simulation (R := Follows) ⟨.of_start rfl rfl rfl rfl rfl, fun h => absurd h (by decide), fun _ => rfl, fun h => absurd h (by decide)⟩
    (fun _ _ _ _ _ htimely hfollows hstep => step_keeps fold htimely hfollows hstep)
    (fun _ _ hfollows => hfollows.settled.finishes) h

end ClaudeVoiceClient

end Speecher
