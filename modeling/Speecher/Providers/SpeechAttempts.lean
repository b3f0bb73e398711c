import Speecher.Dictation.TranscriptState
import Speecher.Foundations.History
import Speecher.Foundations.Machine
import Speecher.Providers.Failure
import Speecher.Transcribe.Subtitles

/-!
# The speech attempts of a session

`SpeechAttempts` holds the transcriber of the provider a session is on and opens its attempts there. Each attempt has an
id, only what the transcriber reports for the current one counts, and its text goes into the session's transcript. A
dropped stream may be reopened as often as the provider's budget lasts, which a new provider and an attempt that streamed
for a while refill.

It is a re-entrant machine (`machine`): every signal it emits and every call it makes into the transcriber is a place
where the environment may call any of its operations, or the transcriber report anything, tagged with any id. The `log` of
its state says what happened, and reads nothing back.

* `kept`: what every run keeps of the log.
* `attempts_safe`: reports of another attempt change nothing, text is taken of the current attempt alone, the budget bounds
  the reconnects between two refills, and what is granted and handed on is of the attempt that is current.
-/

namespace Speecher.SpeechAttempts

structure SpeechFailure where
  attemptId : ℕ := 0
  message : Text := []
  retryable : Bool := false
  phase : SpeechPhase := .connect
  kind : ProviderFailureKind := .other
  httpStatus : ℕ := 0
  deriving DecidableEq

def kReconnectsPerProvider : ℕ := 2

/-- What is done to the session's transcript. -/
inductive Write
  | clear
  | setPartial (text : Text)
  | commitFinal (finalText : Text)
  | startAttempt (spokenLanguage : Text)
  | replaceAttemptFinals (attemptText : Text)
  deriving DecidableEq

def Write.apply (transcript : TranscriptState) : Write → TranscriptState
  | .clear => {}
  | .setPartial text => transcript.setPartial text
  | .commitFinal finalText => transcript.commitFinal finalText
  | .startAttempt spokenLanguage => transcript.startAttempt spokenLanguage
  | .replaceAttemptFinals attemptText => transcript.replaceAttemptFinals attemptText

/-- What happened. -/
inductive Entry
  /-- The id moved on. -/
  | moved (id : ℕ)
  /-- A text of an attempt was taken for the current one's. -/
  | heard (attemptId : ℕ)
  /-- The transcript was written, for a text of an attempt or by the session itself. -/
  | wrote (attemptId : Option ℕ) (write : Write)
  /-- The reconnects were refilled: the chain has a provider ready, or the attempt was stable. -/
  | ready
  | stable (attemptId : ℕ)
  /-- A reconnect or a rollover was granted. -/
  | reconnect (attemptId : ℕ)
  | rollover (attemptId : ℕ)
  /-- The end of an attempt was handed to the session. -/
  | completed (attemptId : ℕ)
  | failed (attemptId : ℕ)
  deriving DecidableEq

/-- The fields, `clock` being when the attempt's clock was started and `answer` what the last operation returned. -/
structure State where
  transcript : TranscriptState := {}
  held : Bool := false
  /-- The transcriber's signals are connected. -/
  connections : Bool := false
  id : ℕ := 0
  reconnectsLeft : ℕ := 0
  clock : Option ℕ := none
  now : ℕ := 0
  providerAttempts : ℕ := 0
  providerConnected : Bool := false
  attemptConnected : Bool := false
  attemptSentAudio : Bool := false
  answer : Bool := false
  log : List Entry := []

/-- The signals emitted and the calls into the transcriber. -/
inductive Call
  | connected
  | finalized (text : Text)
  | segments (timed : List TranscriptSegment)
  | utteranceFailed (message : Text)
  | completed
  | failed (failure : SpeechFailure)
  | transcriptChanged
  | startAttempt (attemptId : ℕ)
  | cancelAttempt (attemptId : ℕ)
  | sendAudio (attemptId : ℕ) (pcm : List UInt8)
  | finishInput (attemptId : ℕ)
  | beginUtterance (attemptId : ℕ)
  | endUtterance (attemptId : ℕ)
  deriving DecidableEq

/-- The session's operations, the transcriber's reports, and what is left of either at a call. -/
inductive Instr
  | acquire
  | release
  | ready
  | clear
  | startAttempt (language : Text)
  | cancel
  | forgetAttempt
  | sendAudio (pcm : List UInt8)
  | finishInput
  | beginUtterance
  | endUtterance
  | commitPartial
  | takeReconnect (failure : SpeechFailure)
  | takeRollover
  | elapse (ms : ℕ)
  | attemptConnected (attemptId : ℕ)
  | partialTranscript (attemptId : ℕ) (text : Text)
  | finalTranscript (attemptId : ℕ) (text : Text)
  | attemptTranscript (attemptId : ℕ) (text : Text)
  | attemptSegments (attemptId : ℕ) (timed : List TranscriptSegment)
  | utteranceFailed (failure : SpeechFailure)
  | attemptCompleted (attemptId : ℕ)
  | attemptFailed (failure : SpeechFailure)
  | call (what : Call)
  /-- A fresh or a shared transcriber is taken, when the registry offers the provider. -/
  | acquired
  | released
  /-- `startAttempt` once the transcriber returned, and once the partial is committed. -/
  | started (attemptId : ℕ) (language : Text)
  | committed (attemptId : ℕ) (language : Text)
  | sent (attemptId : ℕ)
  /-- A text once it marked the attempt connected, when the session takes it. -/
  | accept (attemptId : ℕ) (write : Write) (signals : List Call)

namespace State

def record (s : State) (entry : Entry) : State := { s with log := s.log ++ [entry] }

def moveOn (s : State) : State := { s with id := s.id + 1, log := s.log ++ [.moved (s.id + 1)] }

def writes (s : State) (attemptId : Option ℕ) (write : Write) : State :=
  { s with transcript := write.apply s.transcript, log := s.log ++ [.wrote attemptId write] }

def refill (s : State) (entry : Entry) : State :=
  { s with reconnectsLeft := kReconnectsPerProvider, log := s.log ++ [entry] }

/-- `SpeechAttemptPolicy::attemptWasStable`. -/
def attemptWasStable (stableAttemptMs : ℕ) (s : State) : Bool := s.clock.any fun clock => stableAttemptMs ≤ s.now - clock

/-- `SpeechAttemptPolicy::takeReconnect`. -/
def spendReconnect (s : State) : State :=
  if s.reconnectsLeft = 0 then { s with answer := false }
  else { s with reconnectsLeft := s.reconnectsLeft - 1, answer := true, log := s.log ++ [.reconnect s.id] }

end State

def markConnected (s : State) : State × List Instr :=
  if s.attemptConnected then (s, [])
  else ({ s with attemptConnected := true, providerConnected := true }, [.call .connected])

/-- A text of an attempt: one that is not current changes nothing. -/
def takesText (s : State) (attemptId : ℕ) (write : Write) (signals : List Call) : State × List Instr :=
  if attemptId ≠ s.id then (s, [])
  else
    let marked := markConnected (s.record (.heard attemptId))
    (marked.1, marked.2 ++ [.accept attemptId write signals])

def commitPartial (s : State) : State × List Instr :=
  let showing := s.transcript.partialText
  if showing.isEmpty then (s, [])
  else (s.writes none (.commitFinal showing), [.call .transcriptChanged, .call (.finalized showing)])

/-- Whether the provider's service may take the attempt's audio again. -/
def nothingReachedService (s : State) (failure : SpeechFailure) : Bool :=
  s.providerAttempts = 1 && !s.attemptConnected && (!s.attemptSentAudio || failure.phase = .connect)

/-- What one instruction does; `yes` is the registry's answer to `acquire`, and the session's to a text. -/
def exec (fresh : Bool) (stableAttemptMs : ℕ) (yes : Bool) : Instr → State → State × List Instr
  | .acquire, s => if fresh then (s, [.release, .acquired]) else ({ s with connections := false }, [.acquired])
  | .acquired, s => ({ s with held := yes, connections := yes }, [])
  | .release, s => if s.held then (s.moveOn, [.call (.cancelAttempt s.id), .released]) else (s, [])
  | .released, s => ({ s with held := false, connections := false }, [])
  | .ready, s => ({ s.refill .ready with providerAttempts := 0, providerConnected := false }, [])
  | .clear, s => (s.writes none .clear, [.call .transcriptChanged])
  | .startAttempt language, s =>
    let opened := State.moveOn
      { s with attemptConnected := false, attemptSentAudio := false, providerAttempts := s.providerAttempts + 1
               clock := some s.now }
    (opened, [.call (.startAttempt opened.id), .started opened.id language])
  | .started attemptId language, s =>
    if attemptId ≠ s.id then ({ s with answer := false }, [])
    else ((commitPartial s).1, (commitPartial s).2 ++ [.committed attemptId language])
  | .committed attemptId language, s =>
    if attemptId ≠ s.id then ({ s with answer := false }, [])
    else ({ s.writes none (.startAttempt language) with answer := true }, [])
  | .cancel, s => if s.held then (s.moveOn, [.call (.cancelAttempt s.id)]) else (s, [])
  | .forgetAttempt, s => (s.moveOn, [])
  | .sendAudio pcm, s => ({ s with attemptSentAudio := true }, [.call (.sendAudio s.id pcm), .sent s.id])
  | .sent attemptId, s => ({ s with answer := attemptId = s.id }, [])
  | .finishInput, s => (s, [.call (.finishInput s.id)])
  | .beginUtterance, s => (s, [.call (.beginUtterance s.id)])
  | .endUtterance, s => (s, [.call (.endUtterance s.id)])
  | .commitPartial, s => commitPartial s
  | .takeReconnect failure, s =>
    if !failure.retryable || failure.phase ≠ .streaming then ({ s with answer := false }, [])
    else if s.attemptWasStable stableAttemptMs then ((s.refill (.stable s.id)).spendReconnect, [])
    else (s.spendReconnect, [])
  | .takeRollover, s =>
    if s.attemptWasStable stableAttemptMs then
      ({ (s.refill (.stable s.id)).record (.rollover s.id) with answer := true }, [])
    else ({ s with answer := false }, [])
  | .elapse ms, s => ({ s with now := s.now + ms }, [])
  | .attemptConnected attemptId, s => if attemptId = s.id then markConnected s else (s, [])
  | .partialTranscript attemptId text, s => takesText s attemptId (.setPartial text) []
  | .finalTranscript attemptId text, s => takesText s attemptId (.commitFinal text) [.finalized text]
  | .attemptTranscript attemptId text, s => takesText s attemptId (.replaceAttemptFinals text) []
  | .attemptSegments attemptId timed, s => (s, if attemptId = s.id then [.call (.segments timed)] else [])
  | .utteranceFailed failure, s =>
    (s, if failure.attemptId = s.id then [.call (.utteranceFailed failure.message)] else [])
  | .attemptCompleted attemptId, s =>
    if attemptId = s.id then (s.record (.completed attemptId), [.call .completed]) else (s, [])
  | .attemptFailed failure, s =>
    if failure.attemptId = s.id then (s.record (.failed failure.attemptId), [.call (.failed failure)]) else (s, [])
  | .accept attemptId write signals, s =>
    if yes then (s.writes (some attemptId) write, .call .transcriptChanged :: signals.map .call) else (s, [])
  | .call _, s => (s, [])

/-- What may be called in a state: the transcriber's own operations while one is held, its reports while they are
connected, and the others always. -/
def enters (s : State) : Instr → Bool
  | .startAttempt _ | .sendAudio _ | .finishInput | .beginUtterance | .endUtterance => s.held
  | .acquire | .release | .ready | .clear | .cancel | .forgetAttempt | .commitPartial | .takeReconnect _ | .takeRollover
  | .elapse _ => true
  | .attemptConnected _ | .partialTranscript .. | .finalTranscript .. | .attemptTranscript .. | .attemptSegments ..
  | .utteranceFailed _ | .attemptCompleted _ | .attemptFailed _ => s.connections
  | .call _ | .acquired | .released | .started .. | .committed .. | .sent _ | .accept .. => false

def machine (fresh : Bool) (stableAttemptMs : ℕ) : Machine State Instr Bool where
  exec := exec fresh stableAttemptMs
  yields i := match i with
    | .call _ => true
    | _ => false
  enters := enters
  wakes _ _ := false

/-- The attempt a report of the transcriber is tagged with. -/
def Instr.tag : Instr → Option ℕ
  | .attemptConnected attemptId | .partialTranscript attemptId _ | .finalTranscript attemptId _
  | .attemptTranscript attemptId _ | .attemptSegments attemptId _ | .attemptCompleted attemptId => some attemptId
  | .utteranceFailed failure | .attemptFailed failure => some failure.attemptId
  | _ => none

/-! ## What the log says -/

/-- The id that was current after a log. -/
def current (log : List Entry) : ℕ := log.foldl (fun id entry => match entry with | .moved next => next | _ => id) 0

/-- A transcript after the writes of a log. -/
def replay (initial : TranscriptState) (log : List Entry) : TranscriptState :=
  log.foldl (fun transcript entry => match entry with | .wrote _ write => write.apply transcript | _ => transcript) initial

def refills : Entry → Bool
  | .ready | .stable _ => true
  | _ => false

def isReconnect : Entry → Bool
  | .reconnect _ => true
  | _ => false

/-- The reconnects since the last refill. -/
def spent (log : List Entry) : ℕ := (since refills log).countP isReconnect

/-- The attempt that something was granted to, or whose end was handed on. -/
def Entry.about : Entry → Option ℕ
  | .heard attemptId | .stable attemptId | .reconnect attemptId | .rollover attemptId | .completed attemptId
  | .failed attemptId => some attemptId
  | _ => none

/-- What may happen after a log. -/
structure Proper (before : List Entry) (entry : Entry) : Prop where
  about : ∀ attemptId, entry.about = some attemptId → attemptId = current before
  moved : ∀ id, entry = .moved id → id = current before + 1
  wrote : ∀ attemptId write, entry = .wrote (some attemptId) write → .heard attemptId ∈ before
  reconnect : isReconnect entry = true → spent before < kReconnectsPerProvider

/-- What every run keeps of the log, the id, the transcript and the reconnects left. -/
structure Kept (initial : TranscriptState) (log : List Entry) (id : ℕ) (transcript : TranscriptState) (left : ℕ) :
    Prop where
  proper : Each Proper log
  current : current log = id
  replay : replay initial log = transcript
  budget : spent log + left ≤ kReconnectsPerProvider

theorem current_snoc (log : List Entry) (entry : Entry) :
    current (log ++ [entry]) = match entry with | .moved next => next | _ => current log := by
  rw [current, List.foldl_append]
  rfl

theorem replay_snoc (initial : TranscriptState) (log : List Entry) (entry : Entry) :
    replay initial (log ++ [entry]) =
      match entry with | .wrote _ write => write.apply (replay initial log) | _ => replay initial log := by
  rw [replay, List.foldl_append]
  rfl

theorem spent_snoc (log : List Entry) (entry : Entry) :
    spent (log ++ [entry]) = if refills entry then 0 else spent log + if isReconnect entry then 1 else 0 := by
  rw [spent, since_snoc]
  split
  · rfl
  · rw [List.countP_append, List.countP_singleton]
    rfl

namespace Kept

variable {initial transcript : TranscriptState} {log : List Entry} {id left : ℕ}

theorem moveOn (h : Kept initial log id transcript left) :
    Kept initial (log ++ [.moved (id + 1)]) (id + 1) transcript left where
  proper := h.proper.snoc ⟨nofun, fun _ heq => by cases heq; rw [h.current], nofun, nofun⟩
  current := current_snoc ..
  replay := (replay_snoc ..).trans h.replay
  budget := by rw [spent_snoc]; exact h.budget

theorem writes (h : Kept initial log id transcript left) {attemptId : Option ℕ}
    (hheard : ∀ a, attemptId = some a → .heard a ∈ log) (write : Write) :
    Kept initial (log ++ [.wrote attemptId write]) id (write.apply transcript) left where
  proper := h.proper.snoc ⟨nofun, nofun, fun a _ heq => hheard a (by cases heq; rfl), nofun⟩
  current := (current_snoc ..).trans h.current
  replay := by rw [replay_snoc, ← h.replay]
  budget := by rw [spent_snoc]; exact h.budget

/-- A write of the session's own. -/
theorem writesOwn (h : Kept initial log id transcript left) (write : Write) :
    Kept initial (log ++ [.wrote none write]) id (write.apply transcript) left :=
  h.writes (fun _ hnone => by cases hnone) write

/-- A provider ready. -/
theorem ready (h : Kept initial log id transcript left) :
    Kept initial (log ++ [.ready]) id transcript kReconnectsPerProvider where
  proper := h.proper.snoc ⟨nofun, nofun, nofun, nofun⟩
  current := (current_snoc ..).trans h.current
  replay := (replay_snoc ..).trans h.replay
  budget := by rw [spent_snoc]; exact Nat.le_refl _

theorem proper_about (h : Kept initial log id transcript left) {entry : Entry} (habout : entry.about = some id)
    (hbudget : isReconnect entry = true → spent log < kReconnectsPerProvider) : Proper log entry := by
  refine ⟨fun a ha => ?_, fun _ heq => ?_, fun _ _ heq => ?_, hbudget⟩
  · rw [h.current]
    exact Option.some.inj (ha.symm.trans habout)
  · rw [heq] at habout
    cases habout
  · rw [heq] at habout
    cases habout

theorem current_about (h : Kept initial log id transcript left) {entry : Entry} (habout : entry.about = some id) :
    SpeechAttempts.current (log ++ [entry]) = id := by
  rw [current_snoc]
  cases entry <;> first | exact h.current | cases habout

theorem replay_about (h : Kept initial log id transcript left) {entry : Entry} (habout : entry.about = some id) :
    SpeechAttempts.replay initial (log ++ [entry]) = transcript := by
  rw [replay_snoc]
  cases entry <;> first | exact h.replay | cases habout

/-- A stable attempt. -/
theorem stable (h : Kept initial log id transcript left) :
    Kept initial (log ++ [.stable id]) id transcript kReconnectsPerProvider where
  proper := h.proper.snoc (h.proper_about rfl nofun)
  current := h.current_about rfl
  replay := h.replay_about rfl
  budget := by rw [spent_snoc]; exact Nat.le_refl _

/-- Something of the current attempt that leaves the reconnects alone. -/
theorem notes (h : Kept initial log id transcript left) {entry : Entry} (habout : entry.about = some id)
    (hrefills : refills entry = false) (hreconnect : isReconnect entry = false) :
    Kept initial (log ++ [entry]) id transcript left where
  proper := h.proper.snoc (h.proper_about habout fun htrue => by rw [hreconnect] at htrue; cases htrue)
  current := h.current_about habout
  replay := h.replay_about habout
  budget := by
    rw [spent_snoc, hrefills, hreconnect]
    exact h.budget

/-- A reconnect spent. -/
theorem reconnect (h : Kept initial log id transcript left) (hleft : left ≠ 0) :
    Kept initial (log ++ [.reconnect id]) id transcript (left - 1) := by
  have hbudget := h.budget
  refine ⟨h.proper.snoc (h.proper_about rfl fun _ => by omega), h.current_about rfl, h.replay_about rfl, ?_⟩
  rw [spent_snoc]
  simp only [refills, isReconnect, Bool.false_eq_true, if_false, if_true]
  omega

end Kept

/-- What every run keeps of the state. -/
def Sound (initial : TranscriptState) (s : State) : Prop := Kept initial s.log s.id s.transcript s.reconnectsLeft

variable {initial : TranscriptState} {s : State}

namespace Sound

theorem markConnected (h : Sound initial s) : Sound initial (markConnected s).1 := by
  rw [SpeechAttempts.markConnected]
  split <;> exact h

theorem takesText (h : Sound initial s) (attemptId : ℕ) (write : Write) (signals : List Call) :
    Sound initial (takesText s attemptId write signals).1 := by
  rw [SpeechAttempts.takesText]
  split
  · exact h
  · rename_i hcurrent
    have heard : Sound initial (s.record (.heard attemptId)) :=
      Kept.notes h (by rw [not_not.mp hcurrent]; rfl) rfl rfl
    exact heard.markConnected

theorem commitPartial (h : Sound initial s) : Sound initial (commitPartial s).1 := by
  rw [SpeechAttempts.commitPartial]
  split
  · exact h
  · exact Kept.writesOwn h _

theorem spendReconnect (h : Sound initial s) : Sound initial s.spendReconnect := by
  rw [State.spendReconnect]
  split
  · exact h
  · rename_i hleft
    exact Kept.reconnect h hleft

end Sound

/-- A text that waits to be taken was heard. -/
def Pending (s : State) : Instr → Prop
  | .accept attemptId _ _ => .heard attemptId ∈ s.log
  | _ => True

variable (fresh : Bool) (stableAttemptMs : ℕ)

/-- **An instruction** keeps it all. -/
theorem Sound.exec (h : Sound initial s) {yes : Bool} {i : Instr} (hi : Pending s i) :
    Sound initial (exec fresh stableAttemptMs yes i s).1 := by
  cases i with
  | acquire => rw [SpeechAttempts.exec]; split <;> exact h
  | acquired => exact h
  | release =>
    rw [SpeechAttempts.exec]
    split
    · exact Kept.moveOn h
    · exact h
  | released => exact h
  | ready => exact Kept.ready h
  | clear => exact Kept.writesOwn h _
  | startAttempt language => exact Kept.moveOn h
  | started attemptId language =>
    rw [SpeechAttempts.exec]
    split
    · exact h
    · exact h.commitPartial
  | committed attemptId language =>
    rw [SpeechAttempts.exec]
    split
    · exact h
    · exact Kept.writesOwn h _
  | cancel =>
    rw [SpeechAttempts.exec]
    split
    · exact Kept.moveOn h
    · exact h
  | forgetAttempt => exact Kept.moveOn h
  | commitPartial => exact h.commitPartial
  | takeReconnect failure =>
    rw [SpeechAttempts.exec]
    split
    · exact h
    · split
      · have hstable : Sound initial (s.refill (.stable s.id)) := Kept.stable h
        exact hstable.spendReconnect
      · exact h.spendReconnect
  | takeRollover =>
    rw [SpeechAttempts.exec]
    split
    · exact Kept.notes (Kept.stable h) rfl rfl rfl
    · exact h
  | attemptConnected attemptId =>
    rw [SpeechAttempts.exec]
    split
    · exact h.markConnected
    · exact h
  | partialTranscript attemptId text => exact h.takesText ..
  | finalTranscript attemptId text => exact h.takesText ..
  | attemptTranscript attemptId text => exact h.takesText ..
  | attemptCompleted attemptId =>
    rw [SpeechAttempts.exec]
    split
    · rename_i hcurrent
      exact Kept.notes h (by rw [hcurrent]; rfl) rfl rfl
    · exact h
  | attemptFailed failure =>
    rw [SpeechAttempts.exec]
    split
    · rename_i hcurrent
      exact Kept.notes h (by rw [hcurrent]; rfl) rfl rfl
    · exact h
  | accept attemptId write signals =>
    rw [SpeechAttempts.exec]
    split
    · refine Kept.writes h (fun a ha => ?_) write
      cases ha
      exact hi
    · exact h
  | sendAudio _ | sent _ | finishInput | beginUtterance | endUtterance | elapse _ | attemptSegments _ _
  | utteranceFailed _ | call _ => exact h

/-- A log that an instruction makes longer. -/
theorem log_grows (yes : Bool) (i : Instr) (s : State) : s.log <+: (exec fresh stableAttemptMs yes i s).1.log := by
  have hmark : ∀ s : State, s.log <+: (markConnected s).1.log := fun s => by
    rw [markConnected]
    split <;> exact List.prefix_rfl
  have hcommit : ∀ s : State, s.log <+: (commitPartial s).1.log := fun s => by
    rw [commitPartial]
    split
    · exact List.prefix_rfl
    · exact List.prefix_append ..
  have hspend : ∀ s : State, s.log <+: s.spendReconnect.log := fun s => by
    rw [State.spendReconnect]
    split
    · exact List.prefix_rfl
    · exact List.prefix_append ..
  have htake : ∀ (attemptId : ℕ) (write : Write) (signals : List Call),
      s.log <+: (takesText s attemptId write signals).1.log := fun attemptId write signals => by
    rw [takesText]
    split
    · exact List.prefix_rfl
    · exact (List.prefix_append s.log [.heard attemptId]).trans (hmark (s.record (.heard attemptId)))
  cases i <;> rw [exec] <;> (try split) <;> (try split) <;>
    first
      | exact List.prefix_rfl
      | exact hmark _
      | exact hcommit _
      | exact hspend _
      | exact htake ..
      | exact List.prefix_append ..
      | exact (List.prefix_append ..).trans (hspend _)
      | exact (List.prefix_append ..).trans (List.prefix_append ..)

/-- What an instruction leaves to run was heard. -/
theorem pending_exec {yes : Bool} {i j : Instr} (hj : j ∈ (exec fresh stableAttemptMs yes i s).2) :
    Pending (exec fresh stableAttemptMs yes i s).1 j := by
  have hmark : ∀ {s : State} {j : Instr}, j ∈ (markConnected s).2 → ∃ what, j = .call what := fun {s j} hj => by
    rw [markConnected] at hj
    split at hj
    · cases hj
    · exact ⟨_, List.mem_singleton.mp hj⟩
  have hcommit : ∀ {j : Instr}, j ∈ (commitPartial s).2 → ∃ what, j = .call what := fun {j} hj => by
    rw [commitPartial] at hj
    split at hj
    · cases hj
    · rcases List.mem_cons.mp hj with rfl | hj
      · exact ⟨_, rfl⟩
      · exact ⟨_, List.mem_singleton.mp hj⟩
  have htake : ∀ {attemptId : ℕ} {write : Write} {signals : List Call},
      j ∈ (takesText s attemptId write signals).2 → Pending (takesText s attemptId write signals).1 j :=
    fun {attemptId write signals} hj => by
      rw [takesText] at hj ⊢
      split at hj
      · cases hj
      · rename_i hcurrent
        rw [if_neg hcurrent]
        rcases List.mem_append.mp hj with hj | hj
        · obtain ⟨what, rfl⟩ := hmark hj
          trivial
        · rw [List.mem_singleton.mp hj]
          have hlog : (markConnected (s.record (.heard attemptId))).1.log = s.log ++ [.heard attemptId] := by
            rw [markConnected]
            split <;> rfl
          show Entry.heard attemptId ∈ (markConnected (s.record (.heard attemptId))).1.log
          rw [hlog]
          exact List.mem_append_right s.log (List.mem_singleton_self _)
  cases j with
  | accept attemptId write signals =>
    cases i with
    | partialTranscript a text => exact htake hj
    | finalTranscript a text => exact htake hj
    | attemptTranscript a text => exact htake hj
    | attemptConnected a =>
      rw [exec] at hj
      split at hj
      · obtain ⟨what, hcall⟩ := hmark hj
        cases hcall
      · cases hj
    | commitPartial =>
      obtain ⟨what, hcall⟩ := hcommit hj
      cases hcall
    | started a language =>
      rw [exec] at hj
      split at hj
      · cases hj
      · rcases List.mem_append.mp hj with hj | hj
        · obtain ⟨what, hcall⟩ := hcommit hj
          cases hcall
        · cases List.mem_singleton.mp hj
    | accept a write' signals' =>
      rw [exec] at hj
      split at hj
      · simp at hj
      · cases hj
    | _ =>
      rw [exec] at hj
      simp only [apply_ite Prod.snd, apply_ite (Instr.accept attemptId write signals ∈ ·)] at hj
      simp at hj
  | _ => trivial

theorem stackInvariant (initial : TranscriptState) :
    (machine fresh stableAttemptMs).StackInvariant (fun _ _ => True) (Sound initial) Pending where
  state _ _ _ _ _ h hi := h.exec fresh stableAttemptMs hi
  fresh _ _ _ _ _ _ _ _ hj := pending_exec fresh stableAttemptMs hj
  stable yes i _ s _ _ _ j hj := by
    cases j with
    | accept attemptId write signals => exact (log_grows fresh stableAttemptMs yes i s).subset hj
    | _ => trivial
  enter i s _ hi := by
    cases i with
    | accept attemptId write signals => cases hi
    | _ => trivial
  wake _ _ _ hi := by cases hi

/-- The runs from a transcript. -/
abbrev Runs (initial : TranscriptState) : Config State Instr → Prop :=
  (machine fresh stableAttemptMs).Reachable (fun _ _ => True) fun s => s = { transcript := initial }

/-- **What every run keeps.** -/
theorem kept {c : Config State Instr} (h : Runs fresh stableAttemptMs initial c) : Sound initial c.state := by
  refine ((stackInvariant fresh stableAttemptMs initial).holds (fun s hs => ?_) h).1
  subst hs
  exact ⟨.nil, rfl, rfl, Nat.le_refl 0 |>.trans (by decide)⟩

/-! ## Results -/

/-- **A report of another attempt** than the current one changes nothing. -/
theorem exec_of_stale {yes : Bool} {i : Instr} {a : ℕ} (htag : i.tag = some a) (ha : a ≠ s.id) :
    exec fresh stableAttemptMs yes i s = (s, []) := by
  have htakes : ∀ write signals, takesText s a write signals = (s, []) := fun write signals => by
    rw [takesText, if_pos ha]
  cases i <;> cases htag
  case attemptConnected => rw [exec, if_neg ha]
  case partialTranscript => exact htakes ..
  case finalTranscript => exact htakes ..
  case attemptTranscript => exact htakes ..
  case attemptSegments => rw [exec, if_neg ha]
  case utteranceFailed => rw [exec, if_neg ha]
  case attemptCompleted => rw [exec, if_neg ha]
  case attemptFailed => rw [exec, if_neg ha]

/-- Later in a log no earlier attempt is current, and an earlier one no more once the id moved on. -/
theorem current_le {before : List Entry} : ∀ {rest : List Entry}, Each Proper (before ++ rest) →
    current before ≤ current (before ++ rest) ∧ ((∃ id, .moved id ∈ rest) → current before < current (before ++ rest)) := by
  intro rest
  induction rest using List.reverseRecOn with
  | nil => exact fun _ => ⟨by rw [List.append_nil], by simp⟩
  | append_singleton rest entry ih =>
    intro h
    rw [← List.append_assoc] at h ⊢
    have hentry := h (before ++ rest) entry [] rfl
    obtain ⟨hle, hlt⟩ := ih fun first e later heq => h first e (later ++ [entry]) (by rw [heq]; simp)
    rw [current_snoc]
    cases entry with
    | moved id =>
      have hid := hentry.moved id rfl
      exact ⟨by simp only; omega, fun _ => by simp only; omega⟩
    | _ => exact ⟨hle, fun ⟨id, hid⟩ => hlt ⟨id, by simpa using hid⟩⟩

/-- Where no refill stands, no more reconnects do than the budget. -/
theorem reconnects_le {before : List Entry} : ∀ {stretch : List Entry}, Each Proper (before ++ stretch) →
    (∀ e ∈ stretch, refills e = false) → stretch.countP isReconnect ≤ kReconnectsPerProvider := by
  intro stretch
  induction stretch using List.reverseRecOn with
  | nil => exact fun _ _ => Nat.zero_le _
  | append_singleton stretch entry ih =>
    intro h hrefills
    rw [← List.append_assoc] at h
    have hstretch : ∀ e ∈ stretch, refills e = false := fun e he => hrefills e (List.mem_append_left _ he)
    have hbefore := ih (fun first e later heq => h first e (later ++ [entry]) (by rw [heq]; simp)) hstretch
    rw [List.countP_append, List.countP_singleton]
    split
    · rename_i hreconnect
      have hspent := (h (before ++ stretch) entry [] rfl).reconnect hreconnect
      rw [spent, since_append refills hstretch, List.countP_append] at hspent
      omega
    · exact hbefore

/-- **Only the current attempt writes to the transcript**, its reconnects are bounded by the budget, and what is granted
and handed on is of the attempt that is current: nothing of an earlier one once the id moved on. -/
theorem attempts_safe {c : Config State Instr} (h : Runs fresh stableAttemptMs initial c) :
    (∀ yes i a, i.tag = some a → a ≠ c.state.id → exec fresh stableAttemptMs yes i c.state = (c.state, [])) ∧
      c.state.transcript = replay initial c.state.log ∧
      (∀ before a write after, c.state.log = before ++ .wrote (some a) write :: after →
        ∃ first middle, before = first ++ .heard a :: middle ∧ current first = a) ∧
      (∀ before stretch after, c.state.log = before ++ stretch ++ after → (∀ e ∈ stretch, refills e = false) →
        stretch.countP isReconnect ≤ kReconnectsPerProvider) ∧
      ∀ before e middle e' after a a', c.state.log = before ++ e :: middle ++ e' :: after →
        e.about = some a → e'.about = some a' → a ≤ a' ∧ ((∃ id, .moved id ∈ middle) → a < a') := by
  have hkept := kept fresh stableAttemptMs h
  refine ⟨fun yes i a htag ha => exec_of_stale fresh stableAttemptMs htag ha, hkept.replay.symm,
    fun before a write after heq => ?_, fun before stretch after heq hrefills => ?_,
    fun before e middle e' after a a' heq he he' => ?_⟩
  · have hheard := (hkept.proper before _ after heq).wrote a write rfl
    obtain ⟨first, middle, rfl⟩ := List.append_of_mem hheard
    refine ⟨first, middle, rfl, ?_⟩
    have hfirst := hkept.proper first (.heard a) (middle ++ .wrote (some a) write :: after) (by rw [heq]; simp)
    exact (hfirst.about a rfl).symm
  · exact reconnects_le (fun first e later hsplit => hkept.proper first e (later ++ after) (by rw [heq, hsplit]; simp))
      hrefills
  · have hproper : Each Proper (before ++ e :: middle) := fun first entry later hsplit =>
      hkept.proper first entry (later ++ e' :: after) (by rw [heq, hsplit]; simp)
    have hfirst := (hkept.proper before e (middle ++ e' :: after) (by rw [heq]; simp)).about a he
    have hlater := (hkept.proper (before ++ e :: middle) e' after heq).about a' he'
    obtain ⟨hle, hlt⟩ := current_le hproper
    rw [hfirst, hlater]
    exact ⟨hle, fun ⟨id, hid⟩ => hlt ⟨id, List.mem_cons_of_mem e hid⟩⟩

/-- An attempt that streamed for a while, ended by the provider: the session asks twice. -/
def rolledOverTwice : List (Move Instr Bool) :=
  [.enter .acquire, .run true, .run true, .enter .ready, .run true, .enter (.startAttempt []), .run true, .run true,
    .run true, .run true, .enter (.elapse 10000), .run true, .enter .takeRollover, .run true, .enter .takeRollover, .run true]

theorem play_rolledOverTwice :
    ∃ c, (machine false 10000).play ⟨{ transcript := {} }, []⟩ rolledOverTwice = some c ∧ c.state.log =
      [.ready, .moved 1, .wrote none (.startAttempt []), .stable 1, .rollover 1, .stable 1, .rollover 1] :=
  ⟨_, rfl, rfl⟩

/-- **A rollover is granted again** while the attempt is current. -/
theorem rollover_granted_twice :
    ¬ ∀ c, Runs false 10000 {} c → ∀ a, c.state.log.count (.rollover a) ≤ 1 := by
  intro h
  obtain ⟨c, hplay, hlog⟩ := play_rolledOverTwice
  have hle := h c (Machine.reachable_of_play rfl hplay) 1
  rw [hlog] at hle
  exact absurd hle (by decide)

theorem rolled_over_twice_safe : ∃ c : Config State Instr, c.state.id = 1 ∧ c.state.transcript = replay {} c.state.log := by
  obtain ⟨c, hplay, hlog⟩ := play_rolledOverTwice
  have hsafe := attempts_safe false 10000 (Machine.reachable_of_play rfl hplay)
  have hkept := kept false 10000 (Machine.reachable_of_play rfl hplay)
  exact ⟨c, by rw [← hkept.current, hlog]; rfl, hsafe.2.1⟩

end Speecher.SpeechAttempts
