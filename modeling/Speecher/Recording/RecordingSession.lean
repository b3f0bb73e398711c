import Mathlib.Algebra.Ring.Nat
import Mathlib.Tactic.Cases
import Mathlib.Tactic.Common
import Speecher.Foundations.Alternation
import Speecher.Foundations.History
import Speecher.Foundations.Runs

/-!
# The utterances of a recording, and how it ends

`RecordingSession` records the microphone and, where there is any, system audio, each through a `RecordingStream` of its
own. It cuts what a stream hears into utterances: voice begins one, a pause or `kLongestUtteranceBytes` of audio ends
it, and so does the end of listening. A stop lets the microphone finish listening, then system audio, and finishes the
recording with the last stream that ends; a stream can end by itself at any time.

The microphone and system audio report only from the event loop, and so do the streams, with three exceptions that are
part of the model: a stream that finishes listening while its input is off says so at once, one whose last reconnect
fails as its input stops ends there, and the echo canceller gives back what it held as it is turned off. The file, the
status texts and what a dictation does to the microphone have no part in this, and a handler of the recording's own
signals acts on a later turn. Each stream keeps the history of what went through it, `Mark`, and the recording that of
what it reported, `Output`.

* `Sound` is kept by every event, `sound_step`.
* `alternates_run` and `dropLast_sum_lt` read a stream's history: its utterances begin and end in turn, and all of one
  but its last chunk is shorter than the longest utterance.
* **`recordings_well_formed`**: in every run the utterances of both streams are so, a stop ends the one being spoken,
  and a recording that runs finishes exactly once, with the last of its streams at the latest.
-/

namespace Speecher.RecordingSession

/-! ## The model -/

inductive Side
  | me
  | them
  deriving DecidableEq

inductive Phase
  | off
  | starting
  | recording
  | stopping
  deriving DecidableEq

/-- `RecordingStream::Input`. -/
inductive Input
  | off
  | starting
  | listening
  | stopping
  deriving DecidableEq

/-- A piece of audio, and whether it is loud enough for speech. -/
structure Chunk where
  bytes : ℕ
  voiced : Bool
  deriving DecidableEq

/-- 25 s of 16 kHz mono s16. -/
def kLongestUtteranceBytes : ℕ := 25 * 16000 * 2

/-- What went through a stream: it started, its input delivered audio, and an utterance began with the last bytes of
that or ended. -/
inductive Mark
  | started
  | heard (bytes : ℕ)
  | began (voicedBytes : ℕ)
  | ended
  deriving DecidableEq

/-- A `RecordingStream`, and what the recording keeps of it. -/
structure Stream where
  running : Bool := false
  input : Input := .off
  hasAudio : Bool := false
  /-- From the start until the stream first connects or fails. -/
  connecting : Bool := false
  /-- The pause timer runs: an utterance is open. -/
  pauseActive : Bool := false
  utteranceBytes : ℕ := 0
  marks : List Mark := []
  deriving DecidableEq

inductive Output
  | startDone (ok : Bool)
  | recordingChanged (recording : Bool)
  | stopped
  deriving DecidableEq

structure Session where
  phase : Phase := .off
  me : Stream := {}
  them : Stream := {}
  /-- The recording takes system audio. -/
  systemAudio : Bool := false
  /-- System audio runs: `RecordingSystemAudio::m_capturing`. -/
  capturing : Bool := false
  /-- The microphone's echo canceller, and the audio it would give back. -/
  canceller : Option Chunk := none
  stopDeadline : Bool := false
  outputs : List Output := []
  deriving DecidableEq

/-- What a start is given: whether the provider or the file refuses it, whether it takes system audio, and whether the
platform then makes an echo canceller. -/
structure StartRequest where
  refused : Bool
  systemAudio : Bool
  echoCanceller : Bool
  deriving DecidableEq

namespace Stream

def forgetUtterance (stream : Stream) : Stream := { stream with pauseActive := false, utteranceBytes := 0 }

/-- `RecordingStream::beginUtterance`. -/
def speechBegins (voicedBytes : ℕ) (stream : Stream) : Stream :=
  if stream.input ≠ .off then { stream with marks := stream.marks ++ [.began voicedBytes] } else stream

/-- `RecordingStream::endUtterance`. -/
def speechEnds (stream : Stream) : Stream :=
  if stream.running then { stream with marks := stream.marks ++ [.ended] } else stream

def endUtterance (stream : Stream) : Stream := speechEnds (forgetUtterance stream)

/-- The audio goes to `SpeechStream::append` while the input is on. -/
def append (pcm : Chunk) (stream : Stream) : Stream :=
  if stream.input ≠ .off then
    { stream with hasAudio := stream.hasAudio || 0 < pcm.bytes, marks := stream.marks ++ [.heard pcm.bytes] }
  else stream

/-- Voice with no utterance open begins one, and puts off the pause that ends it. -/
def heardVoice (pcm : Chunk) (stream : Stream) : Stream :=
  if pcm.voiced then
    { (if stream.pauseActive then stream else speechBegins pcm.bytes stream) with pauseActive := true }
  else stream

/-- The open utterance grows, and ends once it runs long. -/
def countUtterance (pcm : Chunk) (stream : Stream) : Stream :=
  if stream.pauseActive then
    let counted := { stream with utteranceBytes := stream.utteranceBytes + pcm.bytes }
    if kLongestUtteranceBytes ≤ counted.utteranceBytes then endUtterance counted else counted
  else stream

def trackUtterance (pcm : Chunk) (stream : Stream) : Stream :=
  if stream.running then countUtterance pcm (heardVoice pcm stream) else stream

/-- `AudioInput::audioChunk`: the stream takes the audio first, then the recording tracks the utterance. -/
def hear (pcm : Chunk) (stream : Stream) : Stream := trackUtterance pcm (append pcm stream)

/-- `startStream`, and `RecordingStream::start`. -/
def start (stream : Stream) : Stream :=
  { forgetUtterance stream with
    running := true, input := .starting, hasAudio := false, marks := stream.marks ++ [.started] }

end Stream

namespace Session

def stream (s : Session) : Side → Stream
  | .me => s.me
  | .them => s.them

def isRecording (s : Session) : Bool := s.phase == .recording || s.phase == .stopping

def modify (side : Side) (f : Stream → Stream) (s : Session) : Session :=
  match side with
  | .me => { s with me := f s.me }
  | .them => { s with them := f s.them }

/-- `RecordingMicrophone::stopCancelling`: the canceller gives back what it held. -/
def stopCancelling (s : Session) : Session :=
  match s.canceller with
  | none => s
  | some held => { s with canceller := none, me := if held.bytes = 0 then s.me else s.me.hear held }

def releaseInputs (s : Session) : Session := if s.systemAudio then { s with capturing := false } else s

def finish (s : Session) : Session :=
  let s := releaseInputs { s with stopDeadline := false }
  { s with phase := .off, outputs := s.outputs ++ [.recordingChanged false, .stopped] }

def finishStartOnceSettled (s : Session) : Session :=
  if s.phase ≠ .starting ∨ s.me.connecting ∨ s.them.connecting then s
  else { s with phase := .recording, outputs := s.outputs ++ [.recordingChanged true, .startDone true] }

def handleStreamConnected (side : Side) (s : Session) : Session :=
  if s.phase ≠ .starting then s
  else finishStartOnceSettled (s.modify side fun stream => { stream with connecting := false })

/-- `RecordingStream::release`, which aborts an input that is on, and `RecordingStream::finish` up to its signal. -/
def release (side : Side) (s : Session) : Session :=
  let s := if side = .me ∧ s.me.input ≠ .off then { s with canceller := none } else s
  s.modify side fun stream => { stream with input := .off, hasAudio := false, running := false }

/-- `handleStreamFinished` for system audio's stream, which neither abandons a start nor stops system audio. -/
def handleThemFinished (s : Session) : Session :=
  let s := s.modify .them .forgetUtterance
  match s.phase with
  | .off => s
  | .stopping => if !s.me.running && !s.them.running then finish s else s
  | .recording => if s.capturing then s else stopCancelling s
  | .starting =>
    let s := if s.capturing then s else stopCancelling s
    finishStartOnceSettled (s.modify .them fun stream => { stream with connecting := false })

/-- The `finished` of system audio's stream, for whatever reason. -/
def themFinishes (s : Session) : Session := handleThemFinished (release .them s)

def cancelThem (s : Session) : Session := if s.them.running then themFinishes s else s

/-- `listeningFinished` for system audio's stream. -/
def themListeningFinished (s : Session) : Session :=
  if s.them.pauseActive then s.modify .them .endUtterance else s

/-- `RecordingStream::finishListening` of system audio's stream. -/
def finishThemListening (s : Session) : Session :=
  match s.them.input with
  | .listening => { s with capturing := false, them := { s.them with input := .stopping } }
  | .starting => themFinishes (themListeningFinished s)
  | .off => if s.them.running then themListeningFinished s else s
  | .stopping => s

def stopSystemAudio (s : Session) : Session :=
  if s.them.running then finishThemListening s
  else if s.systemAudio then { s with capturing := false }
  else s

def abandon (s : Session) : Session :=
  let s := releaseInputs (cancelThem { s with phase := .off })
  { s with outputs := s.outputs ++ [.startDone false] }

/-- `handleStreamFinished` for the microphone's stream. -/
def handleMeFinished (s : Session) : Session :=
  let s := s.modify .me .forgetUtterance
  match s.phase with
  | .off => s
  | .starting => abandon s
  | .stopping =>
    let s := stopSystemAudio s
    if !s.me.running && !s.them.running then finish s else s
  | .recording => s

/-- The `finished` of a stream, for whatever reason. -/
def streamFinishes (side : Side) (s : Session) : Session :=
  match side with
  | .me => handleMeFinished (release .me s)
  | .them => themFinishes s

def cancel (side : Side) (s : Session) : Session := if (s.stream side).running then streamFinishes side s else s

def listeningFinished (side : Side) (s : Session) : Session :=
  match side with
  | .me =>
    let s := if s.me.pauseActive then s.modify .me .endUtterance else s
    if s.phase = .stopping then stopSystemAudio s else s
  | .them => themListeningFinished s

/-- `RecordingStream::finishListening` of the microphone's stream. -/
def finishMeListening (s : Session) : Session :=
  match s.me.input with
  | .listening => { s with me := { s.me with input := .stopping } }
  | .starting => streamFinishes .me (listeningFinished .me s)
  | .off => if s.me.running then listeningFinished .me s else s
  | .stopping => s

def stop (s : Session) : Session :=
  if s.phase ≠ .recording then s
  else
    let s := { s with phase := .stopping }
    if !s.me.running && !s.them.running then finish s
    else
      let s := { s with stopDeadline := true }
      if s.me.running then finishMeListening s else stopSystemAudio s

def cancelBoth (s : Session) : Session := cancel .them (cancel .me s)

def discard (s : Session) : Session :=
  if s.phase ≠ .recording then s
  else
    let quiet (stream : Stream) : Stream := { stream with pauseActive := false }
    let s := { s with phase := .stopping, me := quiet s.me, them := quiet s.them }
    if s.me.running || s.them.running then cancelBoth s else finish s

def start (request : StartRequest) (s : Session) : Session :=
  if s.phase ≠ .off ∨ request.refused then { s with outputs := s.outputs ++ [.startDone false] }
  else
    let them := { s.them with connecting := request.systemAudio }
    { s with
      phase := .starting, systemAudio := request.systemAudio, capturing := request.systemAudio
      canceller := if request.systemAudio && request.echoCanceller then some ⟨0, false⟩ else none
      me := ({ s.me with connecting := true } : Stream).start
      them := if request.systemAudio then them.start else them }

/-- The microphone says nothing more of its capture, so what the canceller held goes first. -/
def flushMicrophone (side : Side) (s : Session) : Session :=
  match side with
  | .me => stopCancelling s
  | .them => s

/-- A stream's handler of its input's `stopped`; its last reconnect can fail, and `ends` it. -/
def handleInputStopped (side : Side) (ends : Bool) (s : Session) : Session :=
  let s := s.modify side fun stream => { stream with input := .off }
  listeningFinished side (if ends then streamFinishes side s else s)

/-- A stream's handler of its input's `failed`. -/
def handleInputFailed (side : Side) (s : Session) : Session :=
  if (s.stream side).input = .starting ∨ (s.stream side).hasAudio = false then streamFinishes side s
  else s.modify side fun stream => { stream with input := .off }

/-- The recording's `handleSystemAudioFailed` comes first, then its stream's handler while it runs. -/
def systemAudioFailed (s : Session) : Session :=
  let s := stopCancelling { s with capturing := false }
  if s.them.running then handleInputFailed .them s else s

end Session

inductive Event
  | start (request : StartRequest)
  | inputStarted (side : Side)
  | connected (side : Side)
  | audioChunk (side : Side) (pcm : Chunk)
  | cancellerHolds (pcm : Chunk)
  | pauseTimeout (side : Side)
  | inputStopped (side : Side) (ends : Bool)
  | microphoneFailed
  | systemAudioFailed
  | streamEnds (side : Side)
  | stop
  | discard
  | stopDeadline

/-- What can happen, and what it does. A stream that has ended is deaf, and connects only once its input started. -/
def step (s : Session) : Event → Option Session
  | .start request => some (s.start request)
  | .inputStarted side =>
    if (s.stream side).input = .starting then some (s.modify side fun stream => { stream with input := .listening })
    else none
  | .connected side =>
    if (s.stream side).running ∧ (s.stream side).input ≠ .starting then some (s.handleStreamConnected side)
    else none
  | .audioChunk side pcm =>
    if (s.stream side).running → (s.stream side).input ≠ .off then some (s.modify side (Stream.hear pcm)) else none
  | .cancellerHolds pcm => if s.canceller.isSome then some { s with canceller := some pcm } else none
  | .pauseTimeout side => if (s.stream side).pauseActive then some (s.modify side .endUtterance) else none
  | .inputStopped side ends =>
    if (s.stream side).input = .stopping then some ((s.flushMicrophone side).handleInputStopped side ends) else none
  | .microphoneFailed =>
    if s.me.input = .starting ∨ s.me.input = .listening then some (s.stopCancelling.handleInputFailed .me) else none
  | .systemAudioFailed => if s.capturing then some s.systemAudioFailed else none
  | .streamEnds side => if (s.stream side).running then some (s.streamFinishes side) else none
  | .stop => some s.stop
  | .discard => some s.discard
  | .stopDeadline => if s.stopDeadline then some (Session.cancelBoth { s with stopDeadline := false }) else none

/-! ## The history of a stream -/

/-- The audio of the open utterance, if one is open, counted in what was heard. -/
def spoken (marks : List Mark) : Option ℕ :=
  marks.foldl (fun utterance mark =>
    match mark with
    | .started => none
    | .heard bytes => utterance.map (· + bytes)
    | .began voicedBytes => some voicedBytes
    | .ended => none) none

/-- A mark of a stream is as it should be after those before it. -/
def Proper (before : List Mark) : Mark → Prop
  | .started => True
  | .heard _ => ∀ bytes ∈ spoken before, bytes < kLongestUtteranceBytes
  | .began _ => spoken before = none
  | .ended => spoken before ≠ none

@[simp] theorem spoken_started (marks : List Mark) : spoken (marks ++ [.started]) = none := by
  rw [spoken, List.foldl_append]
  rfl

@[simp] theorem spoken_heard (marks : List Mark) (bytes : ℕ) :
    spoken (marks ++ [.heard bytes]) = (spoken marks).map (· + bytes) := by
  rw [spoken, List.foldl_append]
  rfl

@[simp] theorem spoken_began (marks : List Mark) (bytes : ℕ) : spoken (marks ++ [.began bytes]) = some bytes := by
  rw [spoken, List.foldl_append]
  rfl

@[simp] theorem spoken_ended (marks : List Mark) : spoken (marks ++ [.ended]) = none := by
  rw [spoken, List.foldl_append]
  rfl

/-- What is kept of a stream agrees with its history. -/
structure Tracked (stream : Stream) : Prop where
  proper : Each Proper stream.marks
  counted : stream.running = true →
    spoken stream.marks = if stream.pauseActive then some stream.utteranceBytes else none
  short : stream.utteranceBytes < kLongestUtteranceBytes
  quiet : stream.pauseActive = false → stream.utteranceBytes = 0
  idle : stream.running = false → stream.pauseActive = false ∧ stream.input = .off

/-- What an operation on the utterances of a stream leaves alone. -/
structure SameLife (stream after : Stream) : Prop where
  running : after.running = stream.running
  input : after.input = stream.input
  connecting : after.connecting = stream.connecting

section Streams

variable {stream : Stream} {pcm : Chunk}

theorem Phase.cases (phase : Phase) :
    phase = .off ∨ phase = .starting ∨ phase = .recording ∨ phase = .stopping := by
  cases phase <;> decide

theorem Input.cases (input : Input) :
    input = .off ∨ input = .starting ∨ input = .listening ∨ input = .stopping := by
  cases input <;> decide

theorem kLongest_pos : 0 < kLongestUtteranceBytes := by decide

/-- A stream that has ended. -/
def Stream.over (stream : Stream) : Stream :=
  { stream with running := false, input := .off, hasAudio := false, pauseActive := false, utteranceBytes := 0 }

theorem Tracked.over (h : Each Proper stream.marks) : Tracked stream.over where
  proper := h
  counted hrunning := absurd hrunning Bool.false_ne_true
  short := kLongest_pos
  quiet _ := rfl
  idle _ := ⟨rfl, rfl⟩

theorem Tracked.running_of_pauseActive (h : Tracked stream) (hactive : stream.pauseActive = true) :
    stream.running = true := by
  by_contra hidle
  rw [(h.idle (Bool.eq_false_iff.mpr hidle)).1] at hactive
  exact Bool.false_ne_true hactive

theorem Tracked.running_of_input (h : Tracked stream) (hinput : stream.input ≠ .off) : stream.running = true := by
  by_contra hidle
  exact hinput (h.idle (Bool.eq_false_iff.mpr hidle)).2

theorem SameLife.refl (stream : Stream) : SameLife stream stream := ⟨rfl, rfl, rfl⟩

theorem SameLife.trans {stream after last : Stream} (h : SameLife after last) (h' : SameLife stream after) :
    SameLife stream last :=
  ⟨h.running.trans h'.running, h.input.trans h'.input, h.connecting.trans h'.connecting⟩

theorem sameLife_speechEnds (stream : Stream) : SameLife stream stream.speechEnds := by
  unfold Stream.speechEnds
  split_ifs
  · exact ⟨rfl, rfl, rfl⟩
  · exact .refl _

theorem sameLife_endUtterance (stream : Stream) : SameLife stream stream.endUtterance :=
  (sameLife_speechEnds stream.forgetUtterance).trans ⟨rfl, rfl, rfl⟩

theorem pauseActive_endUtterance (stream : Stream) : stream.endUtterance.pauseActive = false := by
  unfold Stream.endUtterance Stream.speechEnds
  split_ifs <;> rfl

/-- An open utterance ends. -/
theorem endsOpen (hproper : Each Proper stream.marks) (hrunning : stream.running = true)
    (hopen : spoken stream.marks ≠ none) : Tracked stream.endUtterance := by
  have hends : stream.endUtterance = { stream.forgetUtterance with marks := stream.marks ++ [.ended] } :=
    if_pos hrunning
  rw [hends]
  exact {
    proper := hproper.snoc hopen
    counted := fun _ => spoken_ended _
    short := kLongest_pos
    quiet := fun _ => rfl
    idle := fun hidle => absurd (hrunning.symm.trans hidle) Bool.noConfusion }

theorem Tracked.endUtterance (h : Tracked stream) (hactive : stream.pauseActive = true) :
    Tracked stream.endUtterance := by
  have hrunning := h.running_of_pauseActive hactive
  refine endsOpen h.proper hrunning ?_
  rw [h.counted hrunning, if_pos hactive]
  exact Option.some_ne_none _

/-- The chunk an open utterance grows by. -/
theorem tracked_countUtterance (hproper : Each Proper stream.marks) (hrunning : stream.running = true)
    (hactive : stream.pauseActive = true) (hspoken : spoken stream.marks = some (stream.utteranceBytes + pcm.bytes)) :
    Tracked (stream.countUtterance pcm) := by
  rw [Stream.countUtterance, if_pos hactive]
  by_cases hlong : kLongestUtteranceBytes ≤ stream.utteranceBytes + pcm.bytes
  · rw [if_pos hlong]
    exact endsOpen hproper hrunning (hspoken ▸ Option.some_ne_none _)
  · rw [if_neg hlong]
    exact {
      proper := hproper
      counted := fun _ => hspoken.trans (if_pos hactive).symm
      short := Nat.lt_of_not_le hlong
      quiet := fun hclosed => absurd (hactive.symm.trans hclosed) Bool.noConfusion
      idle := fun hidle => absurd (hrunning.symm.trans hidle) Bool.noConfusion }

/-- A chunk that the history has already, and the utterance not yet. -/
theorem tracked_trackUtterance (hproper : Each Proper stream.marks) (hrunning : stream.running = true)
    (hinput : stream.input ≠ .off) (hshort : stream.utteranceBytes < kLongestUtteranceBytes)
    (hquiet : stream.pauseActive = false → stream.utteranceBytes = 0)
    (hspoken : spoken stream.marks = if stream.pauseActive then some (stream.utteranceBytes + pcm.bytes) else none) :
    Tracked (stream.trackUtterance pcm) := by
  rw [Stream.trackUtterance, if_pos hrunning, Stream.heardVoice]
  rcases Bool.eq_false_or_eq_true stream.pauseActive with hactive | hactive
  · rw [if_pos hactive] at hspoken
    rw [if_pos hactive]
    split_ifs
    · exact tracked_countUtterance hproper hrunning rfl hspoken
    · exact tracked_countUtterance hproper hrunning hactive hspoken
  · have hclosed : ¬ stream.pauseActive = true := Bool.eq_false_iff.mp hactive
    rw [if_neg hclosed] at hspoken
    rw [if_neg hclosed, Stream.speechBegins, if_pos hinput]
    split_ifs
    · refine tracked_countUtterance (hproper.snoc hspoken) hrunning rfl ?_
      dsimp only
      rw [spoken_began, hquiet hactive, Nat.zero_add]
    · rw [Stream.countUtterance, if_neg hclosed]
      exact {
        proper := hproper
        counted := fun _ => hspoken.trans (if_neg hclosed).symm
        short := hshort
        quiet := hquiet
        idle := fun hidle => absurd (hrunning.symm.trans hidle) Bool.noConfusion }

/-- A stream hears a chunk, which goes into its history before the recording tracks its utterance. -/
theorem Tracked.hear (h : Tracked stream) (hinput : stream.running = true → stream.input ≠ .off) :
    Tracked (stream.hear pcm) := by
  rcases Bool.eq_false_or_eq_true stream.running with hrunning | hidle
  · have happend : stream.append pcm =
        { stream with hasAudio := stream.hasAudio || 0 < pcm.bytes, marks := stream.marks ++ [.heard pcm.bytes] } :=
      if_pos (hinput hrunning)
    have hspoken := h.counted hrunning
    rw [Stream.hear, happend]
    refine tracked_trackUtterance (h.proper.snoc fun bytes hbytes => ?_) hrunning (hinput hrunning) h.short h.quiet ?_
    · rw [hspoken, Option.mem_ite_none_right] at hbytes
      obtain rfl := Option.mem_some_iff.mp hbytes.2
      exact h.short
    · dsimp only
      rw [spoken_heard, hspoken]
      split_ifs <;> rfl
  · have happend : stream.append pcm = stream := if_neg (not_not_intro (h.idle hidle).2)
    rw [Stream.hear, happend, Stream.trackUtterance, if_neg (Bool.eq_false_iff.mp hidle)]
    exact h

theorem sameLife_hear (stream : Stream) (pcm : Chunk) : SameLife stream (stream.hear pcm) := by
  have happend : SameLife stream (stream.append pcm) := by
    unfold Stream.append
    split_ifs
    · exact ⟨rfl, rfl, rfl⟩
    · exact .refl _
  have hvoice (stream : Stream) : SameLife stream (stream.heardVoice pcm) := by
    unfold Stream.heardVoice Stream.speechBegins
    split_ifs <;> exact ⟨rfl, rfl, rfl⟩
  have hcount (stream : Stream) : SameLife stream (stream.countUtterance pcm) := by
    unfold Stream.countUtterance
    dsimp only
    split_ifs
    · exact (sameLife_endUtterance _).trans ⟨rfl, rfl, rfl⟩
    · exact ⟨rfl, rfl, rfl⟩
    · exact .refl _
  unfold Stream.hear Stream.trackUtterance
  split_ifs
  · exact ((hcount _).trans (hvoice _)).trans happend
  · exact happend

theorem Tracked.start (h : Tracked stream) : Tracked stream.start where
  proper := h.proper.snoc trivial
  counted _ := spoken_started _
  short := kLongest_pos
  quiet _ := rfl
  idle hidle := absurd hidle (Bool.noConfusion : true ≠ false)

end Streams

/-! ## The recording -/

/-- A recording begins, or finishes. -/
def Output.side : Output → Option Bool
  | .startDone _ => none
  | .recordingChanged true => some true
  | .recordingChanged false => none
  | .stopped => some false

/-- What every operation keeps, in the middle of a handler too. -/
structure Kept (s : Session) : Prop where
  me : Tracked s.me
  them : Tracked s.them
  meStarting : s.me.input = .starting → s.phase = .starting ∧ s.me.connecting = true
  themStarting : s.them.input = .starting → s.phase = .starting ∧ s.them.connecting = true
  off : s.phase = .off → s.me.running = false ∧ s.them.running = false
  deadline : s.stopDeadline = true ↔ s.phase = .stopping
  canceller : s.canceller.isSome = true → s.me.input ≠ .off
  capturing : s.capturing = true → s.them.input ≠ .stopping
  reports : Alternates Output.side s.outputs
  recording : opened Output.side s.outputs = s.isRecording

/-- A stream does not listen, and has no utterance open once its input is off. -/
structure DoneListening (stream : Stream) : Prop where
  deaf : stream.input ≠ .listening
  closed : stream.input = .off → stream.pauseActive = false

/-- What a stop has come to, between two events. System audio stops after the microphone. -/
structure Stopping (s : Session) : Prop where
  running : s.me.running = true ∨ s.them.running = true
  me : DoneListening s.me
  them : s.me.input = .off → DoneListening s.them

structure Sound (s : Session) : Prop where
  kept : Kept s
  stopping : s.phase = .stopping → Stopping s

section Operations

variable {s : Session}

theorem DoneListening.of_idle {stream : Stream} (h : Tracked stream) (hidle : stream.running = false) :
    DoneListening stream :=
  ⟨by rw [(h.idle hidle).2]; exact Input.noConfusion, fun _ => (h.idle hidle).1⟩

theorem DoneListening.over (stream : Stream) : DoneListening stream.over := ⟨Input.noConfusion, fun _ => rfl⟩

/-- Work on the utterances of the microphone's stream. -/
theorem Kept.withMe (h : Kept s) {stream : Stream} (htracked : Tracked stream) (hlife : SameLife s.me stream) :
    Kept { s with me := stream } :=
  { h with
    me := htracked
    meStarting := fun hinput => by
      rw [hlife.connecting]
      exact h.meStarting (hlife.input.symm.trans hinput)
    off := fun hoff => ⟨hlife.running.trans (h.off hoff).1, (h.off hoff).2⟩
    canceller := fun hcanceller => by
      rw [hlife.input]
      exact h.canceller hcanceller }

/-- Work on the utterances of system audio's stream. -/
theorem Kept.withThem (h : Kept s) {stream : Stream} (htracked : Tracked stream) (hlife : SameLife s.them stream) :
    Kept { s with them := stream } :=
  { h with
    them := htracked
    themStarting := fun hinput => by
      rw [hlife.connecting]
      exact h.themStarting (hlife.input.symm.trans hinput)
    off := fun hoff => ⟨(h.off hoff).1, hlife.running.trans (h.off hoff).2⟩
    capturing := fun hcapturing => by
      rw [hlife.input]
      exact h.capturing hcapturing }

/-- The microphone's stream ends. -/
theorem Kept.overMe (h : Kept s) : Kept { s with canceller := none, me := s.me.over } :=
  { h with
    me := .over h.me.proper
    meStarting := fun hinput => Input.noConfusion hinput
    off := fun hoff => ⟨rfl, (h.off hoff).2⟩
    canceller := fun hnone => absurd hnone Bool.false_ne_true }

/-- System audio's stream ends. -/
theorem Kept.overThem (h : Kept s) : Kept { s with them := s.them.over } :=
  { h with
    them := .over h.them.proper
    themStarting := fun hinput => Input.noConfusion hinput
    off := fun hoff => ⟨(h.off hoff).1, rfl⟩
    capturing := fun _ => Input.noConfusion }

/-- The canceller is turned off: the microphone's stream may hear what it held. -/
theorem stopCancelling_cases (h : Kept s) :
    ∃ me, s.stopCancelling = { s with canceller := none, me := me } ∧ Tracked me ∧ SameLife s.me me ∧
      (s.me.input = .off → me = s.me) := by
  rcases Option.eq_none_or_eq_some s.canceller with hcanceller | ⟨held, hcanceller⟩
  · have heq : s.stopCancelling = { s with canceller := none } := by
      simp only [Session.stopCancelling, hcanceller]
      rw [← hcanceller]
    exact ⟨s.me, heq, h.me, .refl _, fun _ => rfl⟩
  · have hinput : s.me.input ≠ .off := h.canceller (by rw [hcanceller]; rfl)
    have heq : s.stopCancelling =
        { s with canceller := none, me := if held.bytes = 0 then s.me else s.me.hear held } := by
      simp only [Session.stopCancelling, hcanceller]
    refine ⟨_, heq, ?_, ?_, fun hoff => absurd hoff hinput⟩
    · split_ifs
      · exact h.me
      · exact h.me.hear fun _ => hinput
    · split_ifs
      · exact .refl _
      · exact sameLife_hear _ _

/-- What `stopSystemAudio` does, once the start has settled. -/
theorem stopSystemAudio_cases (hstarting : s.them.input ≠ .starting) :
    (s.them.running = true ∧ s.them.input = .listening ∧
      s.stopSystemAudio = { s with capturing := false, them := { s.them with input := .stopping } }) ∨
    (s.them.running = true ∧ s.them.input = .off ∧ s.them.pauseActive = true ∧
      s.stopSystemAudio = { s with them := s.them.endUtterance }) ∨
    (s.them.running = true ∧ (s.them.input = .off → s.them.pauseActive = false) ∧ s.them.input ≠ .listening ∧
      s.stopSystemAudio = s) ∨
    (s.them.running = false ∧ ∃ capturing, (capturing = true → s.capturing = true) ∧
      s.stopSystemAudio = { s with capturing := capturing }) := by
  unfold Session.stopSystemAudio
  rcases Bool.eq_false_or_eq_true s.them.running with hrunning | hidle
  · rw [if_pos hrunning]
    rcases s.them.input.cases with hinput | hinput | hinput | hinput
    · rcases Bool.eq_false_or_eq_true s.them.pauseActive with hactive | hclosed
      · refine .inr (.inl ⟨hrunning, hinput, hactive, ?_⟩)
        simp only [Session.finishThemListening, Session.themListeningFinished, hinput, hrunning, hactive, if_true]
        rfl
      · refine .inr (.inr (.inl ⟨hrunning, fun _ => hclosed, by rw [hinput]; exact Input.noConfusion, ?_⟩))
        simp only [Session.finishThemListening, Session.themListeningFinished, hinput, hrunning, hclosed, if_true,
          if_neg Bool.false_ne_true]
    · exact absurd hinput hstarting
    · refine .inl ⟨hrunning, hinput, ?_⟩
      simp only [Session.finishThemListening, hinput]
    · refine .inr (.inr (.inl ⟨hrunning, fun hoff => absurd (hinput.symm.trans hoff) Input.noConfusion, ?_, ?_⟩))
      · rw [hinput]
        exact Input.noConfusion
      · simp only [Session.finishThemListening, hinput]
  · refine .inr (.inr (.inr ⟨hidle, ?_⟩))
    rw [if_neg (Bool.eq_false_iff.mp hidle)]
    split_ifs
    · exact ⟨false, fun hfalse => absurd hfalse Bool.false_ne_true, rfl⟩
    · exact ⟨s.capturing, id, rfl⟩

/-- System audio's stream stops listening, or has stopped: what it had open is ended. -/
theorem Kept.stopSystemAudio (h : Kept s) (hstarting : s.them.input ≠ .starting) :
    ∃ them capturing, s.stopSystemAudio = { s with capturing := capturing, them := them } ∧
      Kept { s with capturing := capturing, them := them } ∧ them.running = s.them.running ∧ DoneListening them := by
  rcases stopSystemAudio_cases hstarting with ⟨hrunning, -, heq⟩ | ⟨-, hoff, hactive, heq⟩ | ⟨-, hclosed, hdeaf, heq⟩ |
    ⟨hidle, capturing, hcapturing, heq⟩
  · refine ⟨_, _, heq, { h with
      them := { h.them with idle := fun hidle => absurd (hrunning.symm.trans hidle) Bool.noConfusion }
      themStarting := fun hinput => Input.noConfusion hinput
      capturing := fun hfalse => absurd hfalse Bool.false_ne_true }, rfl, ?_⟩
    exact ⟨Input.noConfusion, fun hoff => Input.noConfusion hoff⟩
  · have hlife := sameLife_endUtterance s.them
    refine ⟨_, _, heq, h.withThem (h.them.endUtterance hactive) hlife, hlife.running, ?_, fun _ => ?_⟩
    · rw [hlife.input, hoff]
      exact Input.noConfusion
    · exact pauseActive_endUtterance s.them
  · exact ⟨_, _, heq, h, rfl, hdeaf, hclosed⟩
  · exact ⟨_, _, heq, { h with capturing := fun hc => h.capturing (hcapturing hc) }, rfl, .of_idle h.them hidle⟩

/-- The recording finishes, both its streams having ended. -/
theorem sound_finish (hme : Tracked s.me) (hthem : Tracked s.them) (hmeIdle : s.me.running = false)
    (hthemIdle : s.them.running = false) (hcanceller : s.canceller = none) (hreports : Alternates Output.side s.outputs)
    (hopen : opened Output.side s.outputs = true) : Sound s.finish := by
  have hmeOff := (hme.idle hmeIdle).2
  have hthemOff := (hthem.idle hthemIdle).2
  have hchanged : opened Output.side (s.outputs ++ [.recordingChanged false]) = true := by
    rw [opened_of_none rfl, hopen]
  have hfinish : ∃ capturing, s.finish = { s with
      stopDeadline := false, capturing := capturing, phase := .off,
      outputs := s.outputs ++ [.recordingChanged false] ++ [.stopped] } := by
    unfold Session.finish Session.releaseInputs
    split_ifs <;> exact ⟨_, by rw [List.append_assoc]; rfl⟩
  obtain ⟨capturing, hfinish⟩ := hfinish
  rw [hfinish]
  refine ⟨?_, fun hstopping => Phase.noConfusion hstopping⟩
  exact {
    me := hme
    them := hthem
    meStarting := fun hinput => absurd (hmeOff.symm.trans hinput) Input.noConfusion
    themStarting := fun hinput => absurd (hthemOff.symm.trans hinput) Input.noConfusion
    off := fun _ => ⟨hmeIdle, hthemIdle⟩
    deadline := ⟨fun hfalse => absurd hfalse Bool.false_ne_true, fun hstopping => Phase.noConfusion hstopping⟩
    canceller := fun hsome => by
      rw [hcanceller] at hsome
      exact absurd hsome Bool.false_ne_true
    capturing := fun _ hinput => absurd (hthemOff.symm.trans hinput) Input.noConfusion
    reports := (hreports.of_none rfl).of_some rfl hchanged
    recording := opened_of_some rfl }

theorem Kept.finish (h : Kept s) (hrecording : s.isRecording = true) (hmeIdle : s.me.running = false)
    (hthemIdle : s.them.running = false) : Sound s.finish := by
  refine sound_finish h.me h.them hmeIdle hthemIdle ?_ h.reports (h.recording.trans hrecording)
  by_contra hsome
  exact h.canceller (Option.isSome_iff_ne_none.mpr hsome) (h.me.idle hmeIdle).2

/-- The start settles once neither stream connects any more. -/
theorem Kept.finishStartOnceSettled (h : Kept s) (hphase : s.phase = .starting) : Sound s.finishStartOnceSettled := by
  unfold Session.finishStartOnceSettled
  by_cases hconnecting : s.phase ≠ .starting ∨ s.me.connecting = true ∨ s.them.connecting = true
  · rw [if_pos hconnecting]
    exact ⟨h, fun hstopping => absurd (hphase.symm.trans hstopping) Phase.noConfusion⟩
  · rw [if_neg hconnecting]
    obtain ⟨-, hme, hthem⟩ := by simpa only [not_or] using hconnecting
    have hopened : opened Output.side s.outputs = !true := by
      rw [h.recording, Session.isRecording, hphase]
      rfl
    have hoff : ¬ s.stopDeadline = true := fun hdeadline =>
      absurd (hphase.symm.trans (h.deadline.mp hdeadline)) Phase.noConfusion
    refine ⟨?_, fun hstopping => Phase.noConfusion hstopping⟩
    exact { h with
      meStarting := fun hinput => absurd (h.meStarting hinput).2 hme
      themStarting := fun hinput => absurd (h.themStarting hinput).2 hthem
      off := fun hoff => Phase.noConfusion hoff
      deadline := ⟨fun hdeadline => absurd hdeadline hoff, fun hstopping => Phase.noConfusion hstopping⟩
      reports := by
        rw [List.append_cons]
        exact (h.reports.of_some rfl hopened).of_none rfl
      recording := by
        rw [List.append_cons, opened_of_none rfl]
        exact opened_of_some rfl }

theorem themFinishes_off (h : s.phase = .off) : s.themFinishes = { s with them := s.them.over } := by
  simp only [Session.themFinishes, Session.handleThemFinished, Session.release, Session.modify, h, reduceCtorEq,
    false_and, if_false]
  rfl

theorem themFinishes_stopping (h : s.phase = .stopping) : s.themFinishes =
    if s.me.running then { s with them := s.them.over } else Session.finish { s with them := s.them.over } := by
  simp only [Session.themFinishes, Session.handleThemFinished, Session.release, Session.modify, h, reduceCtorEq,
    false_and, if_false]
  cases s.me.running <;> rfl

theorem themFinishes_recording (h : s.phase = .recording) : s.themFinishes =
    if s.capturing then { s with them := s.them.over } else Session.stopCancelling { s with them := s.them.over } := by
  simp only [Session.themFinishes, Session.handleThemFinished, Session.release, Session.modify, h, reduceCtorEq,
    false_and, if_false]
  rfl

theorem themFinishes_starting (h : s.phase = .starting) : s.themFinishes = Session.finishStartOnceSettled
    ((if s.capturing then { s with them := s.them.over }
      else Session.stopCancelling { s with them := s.them.over }).modify .them
        fun stream => { stream with connecting := false }) := by
  simp only [Session.themFinishes, Session.handleThemFinished, Session.release, Session.modify, h, reduceCtorEq,
    false_and, if_false]
  rfl

/-- Turning the canceller off keeps what is kept. -/
theorem Kept.stopCancelling (h : Kept s) : Kept s.stopCancelling := by
  obtain ⟨me, heq, hme, hlife, -⟩ := stopCancelling_cases h
  rw [heq]
  exact { h.withMe hme hlife with canceller := fun hnone => absurd hnone Bool.false_ne_true }

theorem phase_stopCancelling (s : Session) : s.stopCancelling.phase = s.phase := by
  unfold Session.stopCancelling
  split <;> rfl

theorem them_stopCancelling (s : Session) : s.stopCancelling.them = s.them := by
  unfold Session.stopCancelling
  split <;> rfl

/-- The end of system audio's stream, in any phase. -/
theorem Kept.themFinishes (h : Kept s) (hstopping : s.phase = .stopping → DoneListening s.me) :
    Sound s.themFinishes := by
  have hover := h.overThem
  rcases s.phase.cases with hphase | hphase | hphase | hphase
  · rw [themFinishes_off hphase]
    exact ⟨hover, fun hstopping => absurd (hphase.symm.trans hstopping) Phase.noConfusion⟩
  · have hgone (t : Session) (ht : Kept t) (hthem : t.them.input = .off) (hphase : t.phase = .starting) :
        Sound (t.modify .them fun stream => { stream with connecting := false }).finishStartOnceSettled := by
      refine Kept.finishStartOnceSettled ?_ hphase
      exact { ht with
        them := { ht.them with }
        themStarting := fun hinput => absurd (hthem.symm.trans hinput) Input.noConfusion }
    rw [themFinishes_starting hphase]
    split_ifs
    · exact hgone _ hover rfl hphase
    · refine hgone _ hover.stopCancelling ?_ ((phase_stopCancelling _).trans hphase)
      rw [them_stopCancelling]
      rfl
  · rw [themFinishes_recording hphase]
    split_ifs
    · exact ⟨hover, fun hstopping => absurd (hphase.symm.trans hstopping) Phase.noConfusion⟩
    · exact ⟨hover.stopCancelling, fun hstopping =>
        absurd (hphase.symm.trans ((phase_stopCancelling { s with them := s.them.over }).symm.trans hstopping))
          Phase.noConfusion⟩
  · rw [themFinishes_stopping hphase]
    split_ifs with hme
    · exact ⟨hover, fun _ => ⟨.inl hme, hstopping hphase, fun _ => .over _⟩⟩
    · have hrecording : Session.isRecording { s with them := s.them.over } = true := by
        rw [Session.isRecording, hphase]
        rfl
      exact hover.finish hrecording (Bool.eq_false_iff.mpr hme) rfl

/-- A start that failed leaves nothing running. -/
theorem Kept.abandon (h : Kept s) (hphase : s.phase = .starting) (hme : s.me.running = false) : Sound s.abandon := by
  have hcancelled : ∃ them, Session.cancelThem { s with phase := .off } = { s with phase := .off, them := them } ∧
      Tracked them ∧ them.running = false := by
    unfold Session.cancelThem
    split_ifs with hrunning
    · exact ⟨s.them.over, themFinishes_off rfl, .over h.them.proper, rfl⟩
    · exact ⟨s.them, rfl, h.them, Bool.eq_false_iff.mpr hrunning⟩
  obtain ⟨them, hcancelled, hthem, hidle⟩ := hcancelled
  have habandon : ∃ capturing, s.abandon = { s with
      phase := .off, them := them, capturing := capturing, outputs := s.outputs ++ [.startDone false] } := by
    unfold Session.abandon Session.releaseInputs
    rw [hcancelled]
    split_ifs <;> exact ⟨_, rfl⟩
  obtain ⟨capturing, habandon⟩ := habandon
  have hmeOff := (h.me.idle hme).2
  have hthemOff := (hthem.idle hidle).2
  rw [habandon]
  refine ⟨?_, fun hstopping => Phase.noConfusion hstopping⟩
  exact {
    me := h.me
    them := hthem
    meStarting := fun hinput => absurd (hmeOff.symm.trans hinput) Input.noConfusion
    themStarting := fun hinput => absurd (hthemOff.symm.trans hinput) Input.noConfusion
    off := fun _ => ⟨hme, hidle⟩
    deadline := ⟨fun hdeadline => absurd (hphase.symm.trans (h.deadline.mp hdeadline)) Phase.noConfusion,
      fun hstopping => Phase.noConfusion hstopping⟩
    canceller := h.canceller
    capturing := fun _ hinput => absurd (hthemOff.symm.trans hinput) Input.noConfusion
    reports := h.reports.of_none rfl
    recording := by
      rw [opened_of_none rfl, h.recording, Session.isRecording, hphase]
      rfl }

theorem not_starting_of_stopping (h : Kept s) (hphase : s.phase = .stopping) : s.them.input ≠ .starting :=
  fun hinput => absurd (hphase.symm.trans (h.themStarting hinput).1) Phase.noConfusion

section MeFinishes

variable (h : s.canceller.isSome = true → s.me.input ≠ .off)
include h

theorem release_me :
    (s.release .me).modify .me .forgetUtterance = { s with canceller := none, me := s.me.over } := by
  unfold Session.release
  split_ifs with haborts
  · rfl
  · have hnone : s.canceller = none := by
      by_contra hsome
      exact haborts ⟨rfl, h (Option.isSome_iff_ne_none.mpr hsome)⟩
    rw [← hnone]
    rfl

theorem meFinishes_off (hphase : s.phase = .off) :
    s.streamFinishes .me = { s with canceller := none, me := s.me.over } := by
  simp only [Session.streamFinishes, Session.handleMeFinished, release_me h, hphase]

theorem meFinishes_starting (hphase : s.phase = .starting) :
    s.streamFinishes .me = Session.abandon { s with canceller := none, me := s.me.over } := by
  simp only [Session.streamFinishes, Session.handleMeFinished, release_me h, hphase]

theorem meFinishes_recording (hphase : s.phase = .recording) :
    s.streamFinishes .me = { s with canceller := none, me := s.me.over } := by
  simp only [Session.streamFinishes, Session.handleMeFinished, release_me h, hphase]

theorem meFinishes_stopping (hphase : s.phase = .stopping) {t : Session}
    (ht : Session.stopSystemAudio { s with canceller := none, me := s.me.over } = t) :
    s.streamFinishes .me = if !t.me.running && !t.them.running then t.finish else t := by
  rw [← ht]
  simp only [Session.streamFinishes, Session.handleMeFinished, release_me h, hphase]

end MeFinishes

/-- The end of the microphone's stream, in any phase. -/
theorem Kept.meFinishes (h : Kept s) : Sound (s.streamFinishes .me) := by
  have hover := h.overMe
  rcases s.phase.cases with hphase | hphase | hphase | hphase
  · rw [meFinishes_off h.canceller hphase]
    exact ⟨hover, fun hstopping => absurd (hphase.symm.trans hstopping) Phase.noConfusion⟩
  · rw [meFinishes_starting h.canceller hphase]
    exact hover.abandon hphase rfl
  · rw [meFinishes_recording h.canceller hphase]
    exact ⟨hover, fun hstopping => absurd (hphase.symm.trans hstopping) Phase.noConfusion⟩
  · obtain ⟨them, capturing, hstopped, hkept, -, hdone⟩ :=
      hover.stopSystemAudio (not_starting_of_stopping hover hphase)
    rw [meFinishes_stopping h.canceller hphase hstopped]
    split_ifs with hidle
    · have hthem : them.running = false := by simpa [Stream.over] using hidle
      refine hkept.finish ?_ rfl hthem
      rw [Session.isRecording, hphase]
      rfl
    · have hthem : them.running = true := by simpa [Stream.over] using hidle
      exact ⟨hkept, fun _ => ⟨.inr hthem, .over _, fun _ => hdone⟩⟩

/-- The microphone's stream has listened to all there is: a stop goes on to system audio. -/
theorem Kept.meListeningFinished (h : Kept s)
    (hrunning : s.phase = .stopping → s.me.running = true ∨ s.them.running = true)
    (hdeaf : s.phase = .stopping → s.me.input ≠ .listening) : Sound (s.listeningFinished .me) := by
  have hended : ∃ me, (if s.me.pauseActive then s.modify .me .endUtterance else s) = { s with me := me } ∧
      Kept { s with me := me } ∧ SameLife s.me me ∧ me.pauseActive = false := by
    split_ifs with hactive
    · exact ⟨_, rfl, h.withMe (h.me.endUtterance hactive) (sameLife_endUtterance _), sameLife_endUtterance _,
        pauseActive_endUtterance _⟩
    · exact ⟨_, rfl, h, .refl _, Bool.eq_false_iff.mpr hactive⟩
  obtain ⟨me, hended, hkept, hlife, hclosed⟩ := hended
  unfold Session.listeningFinished
  dsimp only
  rw [hended]
  split_ifs with hphase
  · obtain ⟨them, capturing, hstopped, hkept, hsame, hdone⟩ :=
      hkept.stopSystemAudio (not_starting_of_stopping hkept hphase)
    rw [hstopped]
    refine ⟨hkept, fun _ => ⟨?_, ⟨?_, fun _ => hclosed⟩, fun _ => hdone⟩⟩
    · rw [hlife.running, hsame]
      exact hrunning hphase
    · rw [hlife.input]
      exact hdeaf hphase
  · exact ⟨hkept, fun hstopping => absurd hstopping hphase⟩

/-- The microphone's stream is asked to finish listening. -/
theorem Kept.finishMeListening (h : Kept s) (hphase : s.phase = .stopping) (hme : s.me.running = true) :
    Sound s.finishMeListening := by
  rcases s.me.input.cases with hinput | hinput | hinput | hinput
  · have heq : s.finishMeListening = s.listeningFinished .me := by
      simp only [Session.finishMeListening, hinput, hme, if_true]
    rw [heq]
    exact h.meListeningFinished (fun _ => .inl hme) fun _ => by rw [hinput]; exact Input.noConfusion
  · exact absurd (hphase.symm.trans (h.meStarting hinput).1) Phase.noConfusion
  · have heq : s.finishMeListening = { s with me := { s.me with input := .stopping } } := by
      simp only [Session.finishMeListening, hinput]
    rw [heq]
    refine ⟨{ h with
      me := { h.me with idle := fun hidle => absurd (hme.symm.trans hidle) Bool.noConfusion }
      meStarting := fun hinput => Input.noConfusion hinput
      canceller := fun _ => Input.noConfusion }, fun _ => ⟨.inl hme, ?_, fun hoff => Input.noConfusion hoff⟩⟩
    exact ⟨Input.noConfusion, fun hoff => Input.noConfusion hoff⟩
  · have heq : s.finishMeListening = s := by
      simp only [Session.finishMeListening, hinput]
    have hon : s.me.input ≠ .off := by
      rw [hinput]
      exact Input.noConfusion
    rw [heq]
    refine ⟨h, fun _ => ⟨.inl hme, ⟨?_, fun hoff => absurd hoff hon⟩, fun hoff => absurd hoff hon⟩⟩
    rw [hinput]
    exact Input.noConfusion

theorem Sound.stop (h : Sound s) : Sound s.stop := by
  unfold Session.stop
  by_cases hphase : s.phase = .recording
  · rw [if_neg (not_not_intro hphase)]
    have hkept : Kept { s with phase := .stopping, stopDeadline := true } :=
      { h.kept with
        meStarting := fun hinput => absurd (hphase.symm.trans (h.kept.meStarting hinput).1) Phase.noConfusion
        themStarting := fun hinput => absurd (hphase.symm.trans (h.kept.themStarting hinput).1) Phase.noConfusion
        off := fun hoff => Phase.noConfusion hoff
        deadline := ⟨fun _ => rfl, fun _ => rfl⟩
        recording := by
          rw [h.kept.recording, Session.isRecording, hphase]
          rfl }
    rcases Bool.eq_false_or_eq_true s.me.running with hme | hme
    · simp only [hme, Bool.not_true, Bool.false_and, Bool.false_eq_true, if_false, if_true]
      exact hkept.finishMeListening rfl hme
    · rcases Bool.eq_false_or_eq_true s.them.running with hthem | hthem
      · simp only [hme, hthem, Bool.not_true, Bool.and_false, Bool.false_eq_true, if_false]
        obtain ⟨them, capturing, hstopped, hkept', hsame, hdone⟩ :=
          hkept.stopSystemAudio (not_starting_of_stopping hkept rfl)
        rw [hstopped]
        exact ⟨hkept', fun _ => ⟨.inr (hsame.trans hthem), .of_idle hkept.me hme, fun _ => hdone⟩⟩
      · simp only [hme, hthem, Bool.not_false, Bool.and_true, if_true]
        change Sound (Session.finish { s with phase := .stopping, stopDeadline := true })
        exact hkept.finish rfl hme hthem
  · rw [if_pos hphase]
    exact h

/-- What is left of the streams as a recording is cut short. -/
structure Cut (s : Session) : Prop where
  phase : s.phase = .stopping
  me : Each Proper s.me.marks
  meIdle : s.me.running = false → Tracked s.me
  them : Each Proper s.them.marks
  themIdle : s.them.running = false → Tracked s.them
  themOpen : s.them.pauseActive = true → s.them.running = true → spoken s.them.marks ≠ none
  settled : s.them.input ≠ .starting
  canceller : s.canceller.isSome = true → s.me.input ≠ .off
  reports : Alternates Output.side s.outputs
  recording : opened Output.side s.outputs = true

/-- System audio's stream is cancelled last, and finishes the recording. -/
theorem sound_cancelThem (hphase : s.phase = .stopping) (hme : Tracked s.me) (hmeIdle : s.me.running = false)
    (hthem : Each Proper s.them.marks) (hrunning : s.them.running = true) (hcanceller : s.canceller = none)
    (hreports : Alternates Output.side s.outputs) (hopen : opened Output.side s.outputs = true) :
    Sound (s.cancel .them) ∧ (s.cancel .them).phase = .off := by
  have heq : s.cancel .them = Session.finish { s with them := s.them.over } := by
    have hcancel : s.cancel .them = s.themFinishes := if_pos hrunning
    rw [hcancel, themFinishes_stopping hphase, if_neg (Bool.eq_false_iff.mp hmeIdle)]
  rw [heq]
  exact ⟨sound_finish hme (.over hthem) hmeIdle rfl hcanceller hreports hopen, rfl⟩

theorem cancelThem_finish (hthem : s.them.running = false) : s.finish.cancel .them = s.finish := by
  refine if_neg ?_
  unfold Session.finish Session.releaseInputs
  split_ifs <;> exact Bool.eq_false_iff.mp hthem

/-- The streams are cancelled one after the other, and the last finishes the recording. -/
theorem Cut.cancelBoth (h : Cut s) (hrunning : s.me.running = true ∨ s.them.running = true) :
    Sound s.cancelBoth ∧ s.cancelBoth.phase = .off := by
  unfold Session.cancelBoth
  rcases Bool.eq_false_or_eq_true s.me.running with hme | hme
  · have hcancel : s.cancel .me = s.streamFinishes .me := if_pos hme
    have hover := Tracked.over h.me
    rcases stopSystemAudio_cases (s := { s with canceller := none, me := s.me.over }) h.settled with
      ⟨hthem, -, heq⟩ | ⟨hthem, -, hactive, heq⟩ | ⟨hthem, -, -, heq⟩ | ⟨hthem, capturing, -, heq⟩
    all_goals rw [hcancel, meFinishes_stopping h.canceller h.phase heq]
    · rw [if_neg (by simpa [Stream.over] using hthem)]
      exact sound_cancelThem h.phase hover rfl h.them hthem rfl h.reports h.recording
    · have hrunning : s.them.endUtterance.running = true := (sameLife_endUtterance s.them).running.trans hthem
      rw [if_neg (by simpa [Stream.over] using hrunning)]
      exact sound_cancelThem h.phase hover rfl (endsOpen h.them hthem (h.themOpen hactive hthem)).proper hrunning rfl
        h.reports h.recording
    · rw [if_neg (by simpa [Stream.over] using hthem)]
      exact sound_cancelThem h.phase hover rfl h.them hthem rfl h.reports h.recording
    · rw [if_pos (by simpa [Stream.over] using hthem), cancelThem_finish]
      · exact ⟨sound_finish hover (h.themIdle hthem) rfl hthem rfl h.reports h.recording, rfl⟩
      · exact hthem
  · have hkept : s.cancel .me = s := if_neg (Bool.eq_false_iff.mp hme)
    have hidle := h.meIdle hme
    rw [hkept]
    refine sound_cancelThem h.phase hidle hme h.them (hrunning.resolve_left (Bool.eq_false_iff.mp hme)) ?_
      h.reports h.recording
    by_contra hsome
    exact h.canceller (Option.isSome_iff_ne_none.mpr hsome) (hidle.idle hme).2

/-- A stream whose pause timer is stopped, with nothing else said to it. -/
theorem Tracked.quiet_of_idle {stream : Stream} (h : Tracked stream) (hidle : stream.running = false) :
    Tracked { stream with pauseActive := false } where
  proper := h.proper
  counted hrunning := absurd (hidle.symm.trans hrunning) Bool.noConfusion
  short := h.short
  quiet _ := h.quiet (h.idle hidle).1
  idle _ := ⟨rfl, (h.idle hidle).2⟩

theorem Sound.discard (h : Sound s) : Sound s.discard := by
  unfold Session.discard
  by_cases hphase : s.phase = .recording
  · rw [if_neg (not_not_intro hphase)]
    have hopen : opened Output.side s.outputs = true := by
      rw [h.kept.recording, Session.isRecording, hphase]
      rfl
    have hsettled : s.them.input ≠ .starting := fun hinput =>
      absurd (hphase.symm.trans (h.kept.themStarting hinput).1) Phase.noConfusion
    dsimp only
    split_ifs with hrunning
    · refine (Cut.cancelBoth ?_ (by simpa using hrunning)).1
      exact {
        phase := rfl
        me := h.kept.me.proper
        meIdle := h.kept.me.quiet_of_idle
        them := h.kept.them.proper
        themIdle := h.kept.them.quiet_of_idle
        themOpen := fun hfalse => absurd hfalse Bool.false_ne_true
        settled := hsettled
        canceller := h.kept.canceller
        reports := h.kept.reports
        recording := hopen }
    · obtain ⟨hme, hthem⟩ : s.me.running = false ∧ s.them.running = false := by simpa using hrunning
      refine sound_finish (h.kept.me.quiet_of_idle hme) (h.kept.them.quiet_of_idle hthem) hme hthem ?_
        h.kept.reports hopen
      by_contra hsome
      exact h.kept.canceller (Option.isSome_iff_ne_none.mpr hsome) (h.kept.me.idle hme).2
  · rw [if_pos hphase]
    exact h

/-- The stop deadline cancels what still runs. -/
theorem Sound.deadline (h : Sound s) (hdeadline : s.stopDeadline = true) :
    Sound (Session.cancelBoth { s with stopDeadline := false }) ∧
      (Session.cancelBoth { s with stopDeadline := false }).phase = .off := by
  have hphase := h.kept.deadline.mp hdeadline
  refine Cut.cancelBoth ?_ (h.stopping hphase).running
  exact {
    phase := hphase
    me := h.kept.me.proper
    meIdle := fun _ => h.kept.me
    them := h.kept.them.proper
    themIdle := fun _ => h.kept.them
    themOpen := fun hactive hrunning => by
      rw [h.kept.them.counted hrunning, if_pos hactive]
      exact Option.some_ne_none _
    settled := fun hinput => absurd (hphase.symm.trans (h.kept.themStarting hinput).1) Phase.noConfusion
    canceller := h.kept.canceller
    reports := h.kept.reports
    recording := by
      rw [h.kept.recording, Session.isRecording, hphase]
      rfl }

/-- System audio's stream has listened to all there is. -/
theorem Kept.themListeningFinished (h : Kept s)
    (hrunning : s.phase = .stopping → s.me.running = true ∨ s.them.running = true)
    (hme : s.phase = .stopping → DoneListening s.me)
    (hdeaf : s.phase = .stopping → s.me.input = .off → s.them.input ≠ .listening) : Sound s.themListeningFinished := by
  have hended : ∃ them, s.themListeningFinished = { s with them := them } ∧ Kept { s with them := them } ∧
      SameLife s.them them ∧ them.pauseActive = false := by
    unfold Session.themListeningFinished
    split_ifs with hactive
    · exact ⟨_, rfl, h.withThem (h.them.endUtterance hactive) (sameLife_endUtterance _), sameLife_endUtterance _,
        pauseActive_endUtterance _⟩
    · exact ⟨_, rfl, h, .refl _, Bool.eq_false_iff.mpr hactive⟩
  obtain ⟨them, hended, hkept, hlife, hclosed⟩ := hended
  rw [hended]
  refine ⟨hkept, fun hphase => ⟨?_, hme hphase, fun hoff => ⟨?_, fun _ => hclosed⟩⟩⟩
  · rw [hlife.running]
    exact hrunning hphase
  · rw [hlife.input]
    exact hdeaf hphase hoff

/-- Work on the utterances of a stream that opens none once its input is off. -/
theorem Sound.modify (h : Sound s) {side : Side} {f : Stream → Stream} (htracked : Tracked (f (s.stream side)))
    (hlife : SameLife (s.stream side) (f (s.stream side)))
    (hclosed : (s.stream side).input = .off → (s.stream side).pauseActive = false →
      (f (s.stream side)).pauseActive = false) : Sound (s.modify side f) := by
  cases side with
  | me =>
    refine ⟨h.kept.withMe htracked hlife, fun hphase => ?_⟩
    obtain ⟨hrunning, hme, hthem⟩ := h.stopping hphase
    have hoff (hinput : (f s.me).input = .off) : s.me.input = .off := hlife.input.symm.trans hinput
    refine ⟨hrunning.imp_left hlife.running.trans, ⟨?_, fun hinput => ?_⟩, fun hinput => hthem (hoff hinput)⟩
    · exact fun hinput => hme.deaf (hlife.input.symm.trans hinput)
    · exact hclosed (hoff hinput) (hme.closed (hoff hinput))
  | them =>
    refine ⟨h.kept.withThem htracked hlife, fun hphase => ?_⟩
    obtain ⟨hrunning, hme, hthem⟩ := h.stopping hphase
    refine ⟨hrunning.imp_right hlife.running.trans, hme, fun hmeOff => ⟨?_, fun hinput => ?_⟩⟩
    · exact fun hinput => (hthem hmeOff).deaf (hlife.input.symm.trans hinput)
    · have hoff : s.them.input = .off := hlife.input.symm.trans hinput
      exact hclosed hoff ((hthem hmeOff).closed hoff)

theorem Sound.tracked (h : Sound s) (side : Side) : Tracked (s.stream side) := by
  cases side with
  | me => exact h.kept.me
  | them => exact h.kept.them

theorem Sound.audioChunk (h : Sound s) {side : Side} {pcm : Chunk}
    (hinput : (s.stream side).running = true → (s.stream side).input ≠ .off) :
    Sound (s.modify side (Stream.hear pcm)) := by
  have hheard : Tracked ((s.stream side).hear pcm) := (h.tracked side).hear hinput
  have hlife := sameLife_hear (s.stream side) pcm
  refine h.modify hheard hlife fun hoff _ => (hheard.idle ?_).1
  rw [hlife.running]
  exact Bool.eq_false_iff.mpr fun hrunning => hinput hrunning hoff

theorem Sound.stopCancelling (h : Sound s) : Sound s.stopCancelling := by
  refine ⟨h.kept.stopCancelling, fun hphase => ?_⟩
  obtain ⟨hrunning, hme, hthem⟩ := h.stopping ((phase_stopCancelling s).symm.trans hphase)
  obtain ⟨me, heq, -, hlife, hsame⟩ := stopCancelling_cases h.kept
  rw [heq]
  refine ⟨hrunning.imp_left hlife.running.trans, ⟨fun hinput => ?_, fun hinput => ?_⟩, fun hinput => ?_⟩
  · exact hme.deaf (hlife.input.symm.trans hinput)
  · have hoff : s.me.input = .off := hlife.input.symm.trans hinput
    exact (congrArg Stream.pauseActive (hsame hoff)).trans (hme.closed hoff)
  · exact hthem (hlife.input.symm.trans hinput)

theorem Sound.streamFinishes (h : Sound s) (side : Side) : Sound (s.streamFinishes side) := by
  cases side with
  | me => exact h.kept.meFinishes
  | them => exact h.kept.themFinishes fun hphase => (h.stopping hphase).me

theorem Sound.inputStarted (h : Sound s) {side : Side} (hinput : (s.stream side).input = .starting) :
    Sound (s.modify side fun stream => { stream with input := .listening }) := by
  have hrunning := (h.tracked side).running_of_input (by rw [hinput]; exact Input.noConfusion)
  cases side with
  | me =>
    refine ⟨{ h.kept with
      me := { h.kept.me with idle := fun hidle => absurd (hrunning.symm.trans hidle) Bool.noConfusion }
      meStarting := fun hstarting => Input.noConfusion hstarting
      canceller := fun _ => Input.noConfusion }, fun hphase => ?_⟩
    exact absurd ((h.kept.meStarting hinput).1.symm.trans hphase) Phase.noConfusion
  | them =>
    refine ⟨{ h.kept with
      them := { h.kept.them with idle := fun hidle => absurd (hrunning.symm.trans hidle) Bool.noConfusion }
      themStarting := fun hstarting => Input.noConfusion hstarting
      capturing := fun _ => Input.noConfusion }, fun hphase => ?_⟩
    exact absurd ((h.kept.themStarting hinput).1.symm.trans hphase) Phase.noConfusion

theorem Sound.connected (h : Sound s) {side : Side} (hinput : (s.stream side).input ≠ .starting) :
    Sound (s.handleStreamConnected side) := by
  unfold Session.handleStreamConnected
  by_cases hphase : s.phase = .starting
  · rw [if_neg (not_not_intro hphase)]
    cases side with
    | me => exact Kept.finishStartOnceSettled { h.kept with
        me := { h.kept.me with }
        meStarting := fun hstarting => absurd hstarting hinput } hphase
    | them => exact Kept.finishStartOnceSettled { h.kept with
        them := { h.kept.them with }
        themStarting := fun hstarting => absurd hstarting hinput } hphase
  · rw [if_pos hphase]
    exact h

/-- The input of the microphone's stream stops: the stream may end there, and has finished listening. -/
theorem Sound.meInputStopped (h : Sound s) (hinput : s.me.input = .stopping) (ends : Bool) :
    Sound ((s.flushMicrophone .me).handleInputStopped .me ends) := by
  obtain ⟨me, heq, hme, hlife, -⟩ := stopCancelling_cases h.kept
  have hflushed : Kept { s with canceller := none, me := me } := heq ▸ h.kept.stopCancelling
  have hrunning : me.running = true := by
    rw [hlife.running]
    exact h.kept.me.running_of_input (by rw [hinput]; exact Input.noConfusion)
  have hkept : Kept { s with canceller := none, me := { me with input := .off } } :=
    { hflushed with
      me := { hme with idle := fun hidle => absurd (hrunning.symm.trans hidle) Bool.noConfusion }
      meStarting := fun hstarting => Input.noConfusion hstarting
      canceller := fun hnone => absurd hnone Bool.false_ne_true }
  have hflush : s.flushMicrophone .me = s.stopCancelling := rfl
  have hmodify : Session.modify .me (fun stream => { stream with input := .off })
      { s with canceller := none, me := me } = { s with canceller := none, me := { me with input := .off } } := rfl
  rw [hflush, heq, Session.handleInputStopped, hmodify]
  split_ifs
  · have hended := hkept.meFinishes
    exact hended.kept.meListeningFinished (fun hphase => (hended.stopping hphase).running)
      fun hphase => (hended.stopping hphase).me.deaf
  · exact hkept.meListeningFinished (fun _ => .inl hrunning) fun _ => Input.noConfusion

theorem Sound.themInputStopped (h : Sound s) (hinput : s.them.input = .stopping) (ends : Bool) :
    Sound ((s.flushMicrophone .them).handleInputStopped .them ends) := by
  have hrunning := h.kept.them.running_of_input (by rw [hinput]; exact Input.noConfusion)
  have hkept : Kept { s with them := { s.them with input := .off } } :=
    { h.kept with
      them := { h.kept.them with idle := fun hidle => absurd (hrunning.symm.trans hidle) Bool.noConfusion }
      themStarting := fun hstarting => Input.noConfusion hstarting
      capturing := fun _ => Input.noConfusion }
  have hflush : s.flushMicrophone .them = s := rfl
  have hmodify : s.modify .them (fun stream => { stream with input := .off }) =
      { s with them := { s.them with input := .off } } := rfl
  rw [hflush, Session.handleInputStopped, hmodify]
  split_ifs
  · have hended := hkept.themFinishes fun hphase => (h.stopping hphase).me
    exact hended.kept.themListeningFinished (fun hphase => (hended.stopping hphase).running)
      (fun hphase => (hended.stopping hphase).me) fun hphase hoff => ((hended.stopping hphase).them hoff).deaf
  · exact hkept.themListeningFinished (fun _ => .inr hrunning) (fun hphase => (h.stopping hphase).me)
      fun _ _ => Input.noConfusion

theorem Sound.microphoneFailed (h : Sound s) (hinput : s.me.input = .starting ∨ s.me.input = .listening) :
    Sound (s.stopCancelling.handleInputFailed .me) := by
  obtain ⟨me, heq, hme, hlife, -⟩ := stopCancelling_cases h.kept
  have hflushed : Kept { s with canceller := none, me := me } := heq ▸ h.kept.stopCancelling
  rw [heq, Session.handleInputFailed]
  split_ifs
  · exact hflushed.meFinishes
  · have hrunning : me.running = true := by
      rw [hlife.running]
      refine h.kept.me.running_of_input ?_
      rcases hinput with hinput | hinput <;> rw [hinput] <;> exact Input.noConfusion
    refine ⟨{ hflushed with
      me := { hme with idle := fun hidle => absurd (hrunning.symm.trans hidle) Bool.noConfusion }
      meStarting := fun hstarting => Input.noConfusion hstarting
      canceller := fun hnone => absurd hnone Bool.false_ne_true }, fun hphase => ?_⟩
    have hstops := h.stopping hphase
    rcases hinput with hinput | hinput
    · exact absurd ((h.kept.meStarting hinput).1.symm.trans hphase) Phase.noConfusion
    · exact absurd hinput hstops.me.deaf

theorem Sound.systemAudioFailed (h : Sound s) (hcapturing : s.capturing = true) : Sound s.systemAudioFailed := by
  have hstill : Sound { s with capturing := false } :=
    ⟨{ h.kept with capturing := fun hfalse => absurd hfalse Bool.false_ne_true },
      fun hphase => ⟨(h.stopping hphase).running, (h.stopping hphase).me, (h.stopping hphase).them⟩⟩
  have hflushed := hstill.stopCancelling
  have hthem : (Session.stopCancelling { s with capturing := false }).them = s.them := them_stopCancelling _
  unfold Session.systemAudioFailed
  generalize Session.stopCancelling { s with capturing := false } = t at hflushed hthem
  dsimp only
  split_ifs with hrunning
  · unfold Session.handleInputFailed
    split_ifs
    · exact hflushed.streamFinishes .them
    · have hinput : t.them.input ≠ .stopping := hthem ▸ h.kept.capturing hcapturing
      refine ⟨{ hflushed.kept with
        them := { hflushed.kept.them with idle := fun hidle => absurd (hrunning.symm.trans hidle) Bool.noConfusion }
        themStarting := fun hstarting => Input.noConfusion hstarting
        capturing := fun _ => Input.noConfusion }, fun hphase => ?_⟩
      obtain ⟨hstreams, hme, hstops⟩ := hflushed.stopping hphase
      refine ⟨hstreams, hme, fun hoff => ⟨Input.noConfusion, fun _ => ?_⟩⟩
      rcases t.them.input.cases with hthem | hthem | hthem | hthem
      · exact (hstops hoff).closed hthem
      · exact absurd ((hflushed.kept.themStarting hthem).1.symm.trans hphase) Phase.noConfusion
      · exact absurd hthem (hstops hoff).deaf
      · exact absurd hthem hinput
  · exact hflushed

theorem Sound.start (h : Sound s) (request : StartRequest) : Sound (s.start request) := by
  unfold Session.start
  by_cases hrefused : s.phase ≠ .off ∨ request.refused = true
  · rw [if_pos hrefused]
    refine ⟨{ h.kept with
      reports := h.kept.reports.of_none rfl
      recording := (opened_of_none rfl).trans h.kept.recording }, fun hphase => ?_⟩
    obtain ⟨hrunning, hme, hthem⟩ := h.stopping hphase
    exact ⟨hrunning, hme, hthem⟩
  · rw [if_neg hrefused]
    obtain ⟨hphase, -⟩ := not_or.mp hrefused
    have hoff := not_not.mp hphase
    have hthemOff := (h.kept.them.idle (h.kept.off hoff).2).2
    have hconnecting (stream : Stream) (connecting : Bool) (hstream : Tracked stream) :
        Tracked { stream with connecting := connecting } := { hstream with }
    refine ⟨?_, fun hphase => Phase.noConfusion hphase⟩
    exact {
      me := (hconnecting s.me true h.kept.me).start
      them := by
        dsimp only
        split_ifs
        · exact (hconnecting s.them _ h.kept.them).start
        · exact hconnecting s.them _ h.kept.them
      meStarting := fun _ => ⟨rfl, rfl⟩
      themStarting := fun hinput => by
        dsimp only at hinput ⊢
        split_ifs at hinput ⊢ with hsystem
        · exact ⟨rfl, hsystem⟩
        · exact absurd (hthemOff.symm.trans hinput) Input.noConfusion
      off := fun hphase => Phase.noConfusion hphase
      deadline := ⟨fun hdeadline => absurd (hoff.symm.trans (h.kept.deadline.mp hdeadline)) Phase.noConfusion,
        fun hphase => Phase.noConfusion hphase⟩
      canceller := fun _ => Input.noConfusion
      capturing := fun hcapturing => by
        dsimp only at hcapturing ⊢
        rw [if_pos hcapturing]
        exact Input.noConfusion
      reports := h.kept.reports
      recording := by
        rw [h.kept.recording, Session.isRecording, hoff]
        rfl }

/-- **The step lemma**: whatever happens, the recording stays sound. -/
theorem sound_step (h : Sound s) {event : Event} {s' : Session} (hstep : step s event = some s') : Sound s' := by
  cases event with
  | start request =>
    obtain rfl := Option.some.inj hstep
    exact h.start request
  | inputStarted side =>
    obtain ⟨hinput, hs'⟩ := Option.ite_none_right_eq_some.mp hstep
    obtain rfl := Option.some.inj hs'
    exact h.inputStarted hinput
  | connected side =>
    obtain ⟨hinput, hs'⟩ := Option.ite_none_right_eq_some.mp hstep
    obtain rfl := Option.some.inj hs'
    exact h.connected hinput.2
  | audioChunk side pcm =>
    obtain ⟨hinput, hs'⟩ := Option.ite_none_right_eq_some.mp hstep
    obtain rfl := Option.some.inj hs'
    exact h.audioChunk hinput
  | cancellerHolds pcm =>
    obtain ⟨hcanceller, hs'⟩ := Option.ite_none_right_eq_some.mp hstep
    obtain rfl := Option.some.inj hs'
    refine ⟨{ h.kept with canceller := fun _ => h.kept.canceller hcanceller }, fun hphase => ?_⟩
    obtain ⟨hrunning, hme, hthem⟩ := h.stopping hphase
    exact ⟨hrunning, hme, hthem⟩
  | pauseTimeout side =>
    obtain ⟨hactive, hs'⟩ := Option.ite_none_right_eq_some.mp hstep
    obtain rfl := Option.some.inj hs'
    exact h.modify ((h.tracked side).endUtterance hactive) (sameLife_endUtterance _)
      fun _ _ => pauseActive_endUtterance _
  | inputStopped side ends =>
    obtain ⟨hinput, hs'⟩ := Option.ite_none_right_eq_some.mp hstep
    obtain rfl := Option.some.inj hs'
    cases side with
    | me => exact h.meInputStopped hinput ends
    | them => exact h.themInputStopped hinput ends
  | microphoneFailed =>
    obtain ⟨hinput, hs'⟩ := Option.ite_none_right_eq_some.mp hstep
    obtain rfl := Option.some.inj hs'
    exact h.microphoneFailed hinput
  | systemAudioFailed =>
    obtain ⟨hcapturing, hs'⟩ := Option.ite_none_right_eq_some.mp hstep
    obtain rfl := Option.some.inj hs'
    exact h.systemAudioFailed hcapturing
  | streamEnds side =>
    obtain ⟨-, hs'⟩ := Option.ite_none_right_eq_some.mp hstep
    obtain rfl := Option.some.inj hs'
    exact h.streamFinishes side
  | stop =>
    obtain rfl := Option.some.inj hstep
    exact h.stop
  | discard =>
    obtain rfl := Option.some.inj hstep
    exact h.discard
  | stopDeadline =>
    obtain ⟨hdeadline, hs'⟩ := Option.ite_none_right_eq_some.mp hstep
    obtain rfl := Option.some.inj hs'
    exact (h.deadline hdeadline).1

theorem phase_stopSystemAudio (hstarting : s.them.input ≠ .starting) : s.stopSystemAudio.phase = s.phase := by
  rcases stopSystemAudio_cases hstarting with ⟨-, -, heq⟩ | ⟨-, -, -, heq⟩ | ⟨-, -, -, heq⟩ | ⟨-, _, -, heq⟩
  all_goals rw [heq]

theorem phase_meListeningFinished (hstarting : s.them.input ≠ .starting) :
    (s.listeningFinished .me).phase = s.phase := by
  have hended : (s.modify .me .endUtterance).stopSystemAudio.phase = s.phase :=
    phase_stopSystemAudio (s := s.modify .me .endUtterance) hstarting
  unfold Session.listeningFinished
  dsimp only
  split_ifs
  · exact hended
  · rfl
  · exact phase_stopSystemAudio hstarting
  · rfl

theorem phase_finishMeListening (hme : s.me.input ≠ .starting) (hthem : s.them.input ≠ .starting) :
    s.finishMeListening.phase = s.phase := by
  unfold Session.finishMeListening
  split
  · rfl
  · exact absurd ‹_› hme
  · split_ifs
    · exact phase_meListeningFinished hthem
    · rfl
  · rfl

/-- A stop leaves no recording as it was. -/
theorem Sound.phase_stop (h : Sound s) : s.stop.phase ≠ .recording := by
  unfold Session.stop
  by_cases hphase : s.phase = .recording
  · have hme : s.me.input ≠ .starting := fun hinput =>
      absurd (hphase.symm.trans (h.kept.meStarting hinput).1) Phase.noConfusion
    have hthem : s.them.input ≠ .starting := fun hinput =>
      absurd (hphase.symm.trans (h.kept.themStarting hinput).1) Phase.noConfusion
    rw [if_neg (not_not_intro hphase)]
    dsimp only
    split_ifs
    · exact Phase.noConfusion
    · rw [phase_finishMeListening]
      · exact Phase.noConfusion
      · exact hme
      · exact hthem
    · rw [phase_stopSystemAudio]
      · exact Phase.noConfusion
      · exact hthem
  · rw [if_pos hphase]
    exact hphase

end Operations

/-! ## Whole runs -/

def Mark.call : Mark → Option Bool
  | .started => none
  | .heard _ => none
  | .began _ => some true
  | .ended => some false

def Mark.starts (mark : Mark) : Bool := mark == .started

section Reading

variable {marks : List Mark}

/-- In a run of a stream the utterances begin and end in turn. -/
theorem alternates_run (h : Each Proper marks) : Alternates Mark.call (since Mark.starts marks) ∧
    opened Mark.call (since Mark.starts marks) = (spoken marks).isSome := by
  induction marks using List.reverseRecOn with
  | nil => exact ⟨.nil, rfl⟩
  | append_singleton marks mark ih =>
    obtain ⟨halternates, hopened⟩ := ih fun before a after heq => h before a (after ++ [mark]) (by rw [heq]; simp)
    have hproper := h marks mark [] rfl
    rw [since_snoc]
    cases mark with
    | started => exact ⟨.nil, by rw [spoken_started]; rfl⟩
    | heard bytes =>
      refine ⟨halternates.of_none rfl, (opened_of_none rfl).trans ?_⟩
      rw [hopened, spoken_heard, Option.isSome_map]
    | began voicedBytes =>
      have hclosed : opened Mark.call (since Mark.starts marks) = !true := by
        rw [hopened, show spoken marks = none from hproper]
        rfl
      refine ⟨halternates.of_some rfl hclosed, ?_⟩
      rw [spoken_began]
      change opened Mark.call (since Mark.starts marks ++ [.began voicedBytes]) = true
      exact opened_of_some rfl
    | ended =>
      have hopen : opened Mark.call (since Mark.starts marks) = !false := by
        rw [hopened]
        exact Option.isSome_iff_ne_none.mpr hproper
      refine ⟨halternates.of_some rfl hopen, ?_⟩
      rw [spoken_ended]
      change opened Mark.call (since Mark.starts marks ++ [.ended]) = false
      exact opened_of_some rfl

theorem spoken_utterance (before : List Mark) (voicedBytes : ℕ) (sizes : List ℕ) :
    spoken (before ++ .began voicedBytes :: sizes.map .heard) = some (voicedBytes :: sizes).sum := by
  induction sizes using List.reverseRecOn with
  | nil => exact spoken_began before voicedBytes
  | append_singleton sizes size ih =>
    have hmarks : before ++ .began voicedBytes :: (sizes ++ [size]).map .heard =
        before ++ .began voicedBytes :: sizes.map .heard ++ [.heard size] := by simp
    rw [hmarks, spoken_heard, ih, Option.map_some, List.sum_cons, List.sum_cons, List.sum_append, List.sum_singleton,
      Nat.add_assoc]

/-- All of an utterance but its last chunk is shorter than the longest. -/
theorem dropLast_sum_lt (h : Each Proper marks) {before after : List Mark} {voicedBytes : ℕ} {sizes : List ℕ}
    (heq : marks = before ++ .began voicedBytes :: (sizes.map .heard ++ after)) :
    (voicedBytes :: sizes).dropLast.sum < kLongestUtteranceBytes := by
  rcases List.eq_nil_or_concat sizes with rfl | ⟨sizes, size, rfl⟩
  · exact kLongest_pos
  · rw [List.concat_eq_append] at heq ⊢
    have hlast : marks = (before ++ .began voicedBytes :: sizes.map .heard) ++ .heard size :: after := by
      rw [heq]
      simp
    have hproper := h _ _ _ hlast
    rw [← List.cons_append, List.dropLast_concat]
    exact hproper _ (spoken_utterance before voicedBytes sizes)

end Reading

/-- Every utterance that began in the stream's last run has ended. -/
def Stream.AllEnded (stream : Stream) : Prop := opened Mark.call (since Mark.starts stream.marks) = false

/-- What holds of a recording whenever the event loop waits. -/
structure WellFormed (s : Session) : Prop where
  /-- At every moment of a stream's history, the utterances of its run begin and end in turn. -/
  alternate : ∀ side history, history <+: (s.stream side).marks → Alternates Mark.call (since Mark.starts history)
  /-- What an utterance began with and the chunks it grew by, but for the last, are less than the longest. -/
  bounded : ∀ side before voicedBytes sizes after,
    (s.stream side).marks = before ++ .began voicedBytes :: (sizes.map .heard ++ after) →
      (voicedBytes :: sizes).dropLast.sum < kLongestUtteranceBytes
  /-- A stop ends the utterance of the microphone as its input stops, -/
  meEnded : s.phase = .stopping → s.me.running = true → s.me.input = .off → s.me.AllEnded
  /-- and that of system audio after it. -/
  themEnded : s.phase = .stopping → s.me.input = .off → s.them.running = true → s.them.input = .off → s.them.AllEnded
  /-- Recordings begin and finish in turn, -/
  reports : Alternates Output.side s.outputs
  /-- each that began finishes once, but for the one that runs. -/
  once : (s.outputs.filterMap Output.side).count true =
    (s.outputs.filterMap Output.side).count false + s.isRecording.toNat
  /-- A stop is taken, -/
  stops : s.stop.phase ≠ .recording
  /-- and waits for a stream only: the last to end finishes the recording, -/
  waits : s.phase = .stopping → s.me.running = true ∨ s.them.running = true
  /-- and the deadline does at the latest. -/
  deadline : s.phase = .stopping → ∃ s', step s .stopDeadline = some s' ∧ s'.phase = .off

theorem sound_start : Sound {} where
  kept := {
    me := ⟨.nil, fun _ => rfl, kLongest_pos, fun _ => rfl, fun _ => ⟨rfl, rfl⟩⟩
    them := ⟨.nil, fun _ => rfl, kLongest_pos, fun _ => rfl, fun _ => ⟨rfl, rfl⟩⟩
    meStarting := fun hinput => Input.noConfusion hinput
    themStarting := fun hinput => Input.noConfusion hinput
    off := fun _ => ⟨rfl, rfl⟩
    deadline := ⟨fun hfalse => absurd hfalse Bool.false_ne_true, fun hphase => Phase.noConfusion hphase⟩
    canceller := fun hnone => absurd hnone Bool.false_ne_true
    capturing := fun hfalse => absurd hfalse Bool.false_ne_true
    reports := .nil
    recording := rfl }
  stopping := fun hphase => Phase.noConfusion hphase

/-- The run lemma. -/
theorem sound_of_run {s : Session} (h : Reaches step (fun _ _ => True) {} s) : Sound s :=
  h.invariant sound_start fun _ _ _ _ hs hstep => sound_step hs hstep

/-- A stream that runs with its input off, and no utterance open, has ended all that began. -/
theorem Tracked.allEnded {stream : Stream} (h : Tracked stream) (hrunning : stream.running = true)
    (hclosed : stream.pauseActive = false) : stream.AllEnded := by
  rw [Stream.AllEnded, (alternates_run h.proper).2, h.counted hrunning, hclosed]
  rfl

/-- **A recording cuts well-formed utterances and finishes once**, whatever the order of its events. -/
theorem recordings_well_formed {s : Session} (h : Reaches step (fun _ _ => True) {} s) : WellFormed s := by
  have hsound := sound_of_run h
  exact {
    alternate := fun side history hprefix => by
      obtain ⟨rest, hmarks⟩ := hprefix
      refine (alternates_run fun before mark after heq => ?_).1
      exact (hsound.tracked side).proper before mark (after ++ rest) (by rw [← hmarks, heq]; simp)
    bounded := fun side _ _ _ _ heq => dropLast_sum_lt (hsound.tracked side).proper heq
    meEnded := fun hphase hrunning hoff =>
      hsound.kept.me.allEnded hrunning ((hsound.stopping hphase).me.closed hoff)
    themEnded := fun hphase hmeOff hrunning hoff =>
      hsound.kept.them.allEnded hrunning (((hsound.stopping hphase).them hmeOff).closed hoff)
    reports := hsound.kept.reports
    once := hsound.kept.recording ▸ hsound.kept.reports.count_opens
    stops := hsound.phase_stop
    waits := fun hphase => (hsound.stopping hphase).running
    deadline := fun hphase =>
      have hdeadline := hsound.kept.deadline.mpr hphase
      ⟨_, if_pos hdeadline, (hsound.deadline hdeadline).2⟩ }

/-- Both streams run, the microphone's fails as its input stops, and system audio's completes. -/
def oneRecording : List Event :=
  [.start ⟨false, true, true⟩, .inputStarted .me, .connected .me, .inputStarted .them, .connected .them,
    .audioChunk .me ⟨640, true⟩, .audioChunk .them ⟨640, true⟩, .pauseTimeout .them, .stop, .inputStopped .me true,
    .inputStopped .them false, .streamEnds .them]

theorem one_recording_well_formed : ∃ s : Session, WellFormed s ∧
    s.outputs = [.recordingChanged true, .startDone true, .recordingChanged false, .stopped] :=
  ⟨_, recordings_well_formed (Reaches.start.of_runs (show Reaches.runs _ _ _ oneRecording = some _ from rfl)), rfl⟩

end Speecher.RecordingSession
