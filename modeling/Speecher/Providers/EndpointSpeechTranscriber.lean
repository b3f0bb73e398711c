import Mathlib.Algebra.Ring.Nat
import Mathlib.Data.List.Range
import Mathlib.Tactic.Common
import Speecher.Bindings.Words
import Speecher.Foundations.History
import Speecher.Foundations.Runs
import Speecher.Providers.SpeechAttempts

/-!
# The utterances of an endpoint attempt

`EndpointSpeechTranscriber` posts the audio of an attempt to a server. An attempt cut into utterances posts each on its
own, after the one before has been answered: a closed utterance waits, the oldest waiting make way past
`mostWaitingBytes`, and the attempt is over once its input has finished and the last utterance is answered, or with a
failure that would fail every utterance.

An attempt runs from `startAttempt`. Its operations and the replies of the server come one after the other, in any
order; a reply finishes once, and one to an upload of an earlier attempt can still come. What the upload carries beside
its audio (the form fields and the prompt) has no part in this. The `log` lists what the attempt did and reported, and
numbers the utterances in the order they were closed; nothing reads it, nor the numbers.

* `kept_step` is the step lemma: what a heeded attempt keeps, `Kept`.
* **`answered_once`**: in every run that closes no utterance and finishes no input after the attempt failed, each
  utterance is answered or dropped once, in order, and the attempt ends once (`AnsweredOnce`).
* `failed_goes_on`: a caller that goes on after the failure gets further answers, since nothing remembers it.
-/

namespace Speecher.EndpointSpeechTranscriber

open SpeechAttempts (SpeechFailure)

/-! ## The model -/

def kSpeechBytesPerSecond : ℕ := 32000

/-- 300 ms of quiet before an utterance go up with it. -/
def leadInBytes : ℕ := 16000 * 2 * 3 / 10

/-- Two minutes of speech at most wait for their upload. -/
def mostWaitingBytes : ℕ := 120 * kSpeechBytesPerSecond

structure Utterance where
  number : ℕ
  pcm : List UInt8
  deriving DecidableEq

/-- What an attempt did, and what it reported of an utterance or of the whole. -/
inductive Entry
  | attemptConnected
  | closed (utterance : Utterance)
  | uploaded (utterance : Utterance)
  | partialTranscript (number : ℕ) (text : Text)
  | finalTranscript (number : ℕ) (text : Text)
  /-- The `utteranceFailed` of an utterance that was uploaded. -/
  | utteranceFailed (number : ℕ) (failure : SpeechFailure)
  /-- The `utteranceFailed` of an utterance that made way. -/
  | dropped (number : ℕ) (failure : SpeechFailure)
  | inputFinished
  | attemptTranscript (text : Text)
  | attemptCompleted
  | failed (number : ℕ) (failure : SpeechFailure)
  deriving DecidableEq

structure State where
  attemptId : ℕ := 0
  inputFinished : Bool := false
  /-- The open utterance's audio, or outside one the lead-in for the next. -/
  pcm : List UInt8 := []
  cutIntoUtterances : Bool := false
  utteranceOpen : Bool := false
  /-- Utterances waiting for the one uploading, oldest first. -/
  utterances : List Utterance := []
  /-- The upload whose reply is awaited. -/
  reply : Option Utterance := none
  /-- How many utterances were closed. -/
  closed : ℕ := 0
  log : List Entry := []
  deriving DecidableEq

/-- A finished reply, as `finishReply` reads it. -/
structure Reply where
  streaming : Bool := false
  /-- An error event of the stream. -/
  streamError : Option ProviderFailure := none
  /-- A timer of the transcriber aborted the reply. -/
  timeoutReason : Option Text := none
  /-- The reply's own error, timeouts included. -/
  error : Option ProviderFailure := none
  streamedText : Text := []
  doneText : Text := []
  /-- The text of the JSON body, when it holds one. -/
  bodyText : Option Text := none
  /-- The body says that the quota is spent. -/
  quotaSpent : Bool := false
  deriving DecidableEq

def isTransientFailure (kind : ProviderFailureKind) : Bool :=
  kind == .network || kind == .timeout || kind == .server || kind == .rateLimited

def finalizeFailure (attemptId : ℕ) (kind : ProviderFailureKind) (message : Text) (httpStatus : ℕ) : SpeechFailure :=
  { attemptId := attemptId, message := message, phase := .finalize, kind := kind, httpStatus := httpStatus }

namespace State

def record (s : State) (entry : Entry) : State := { s with log := s.log ++ [entry] }

def cancelAttempt (attemptId : ℕ) (s : State) : State :=
  if attemptId ≠ s.attemptId then s else { s with pcm := [], utterances := [], reply := none }

/-- A new attempt, and its log. -/
def startAttempt (attemptId : ℕ) (cutIntoUtterances : Bool) (s : State) : State :=
  { cancelAttempt s.attemptId s with
    attemptId := attemptId, inputFinished := false, pcm := [], cutIntoUtterances := cutIntoUtterances
    utteranceOpen := false, utterances := [], closed := 0, log := [.attemptConnected] }

def sendAudio (attemptId : ℕ) (pcm : List UInt8) (s : State) : State :=
  if attemptId ≠ s.attemptId ∨ s.inputFinished then s
  else
    let s := { s with pcm := s.pcm ++ pcm }
    if s.cutIntoUtterances && !s.utteranceOpen && leadInBytes < s.pcm.length then
      { s with pcm := s.pcm.drop (s.pcm.length - leadInBytes) }
    else s

/-- The failure reported of an utterance that made way. -/
def fellBehind (attemptId bytes : ℕ) : SpeechFailure :=
  finalizeFailure attemptId .timeout ("Speech endpoint fell behind the speech; ".toList ++
    (toString (bytes / kSpeechBytesPerSecond)).toList ++ " s of it went untranscribed".toList) 0

/-- The loop of `closeUtterance`: the oldest waiting goes while there is too much and a newer one. -/
def dropOldest (attemptId waiting : ℕ) : List Utterance → List Entry × List Utterance
  | oldest :: next :: newer =>
    if mostWaitingBytes < waiting then
      let rest := dropOldest attemptId (waiting - oldest.pcm.length) (next :: newer)
      (.dropped oldest.number (fellBehind attemptId oldest.pcm.length) :: rest.1, rest.2)
    else ([], oldest :: next :: newer)
  | utterances => ([], utterances)

def waitingBytes (utterances : List Utterance) : ℕ := (utterances.map (·.pcm.length)).sum

def closeUtterance (s : State) : State :=
  if !s.utteranceOpen || s.pcm.isEmpty then { s with utteranceOpen := false }
  else
    let utterance : Utterance := ⟨s.closed, s.pcm⟩
    let utterances := s.utterances ++ [utterance]
    let kept := dropOldest s.attemptId (waitingBytes utterances) utterances
    { s with
      utteranceOpen := false, pcm := [], closed := s.closed + 1, utterances := kept.2
      log := s.log ++ .closed utterance :: kept.1 }

def postAudio (utterance : Utterance) (s : State) : State :=
  { s with reply := some utterance, log := s.log ++ [.uploaded utterance] }

def uploadNextUtterance (s : State) : State :=
  match s.utterances with
  | [] => if s.inputFinished then s.record .attemptCompleted else s
  | utterance :: utterances => postAudio utterance { s with utterances := utterances }

def finishInput (attemptId : ℕ) (s : State) : State :=
  if attemptId ≠ s.attemptId ∨ s.inputFinished then s
  else
    let s := record { s with inputFinished := true } .inputFinished
    if s.cutIntoUtterances then
      let s := { closeUtterance s with pcm := [] }
      if s.reply.isNone then uploadNextUtterance s else s
    else if s.pcm.isEmpty then s.record .attemptCompleted
    else postAudio ⟨s.closed, s.pcm⟩ { s with pcm := [], closed := s.closed + 1 }

def beginUtterance (attemptId : ℕ) (s : State) : State :=
  if attemptId = s.attemptId ∧ s.cutIntoUtterances ∧ !s.inputFinished then { s with utteranceOpen := true } else s

def endUtterance (attemptId : ℕ) (s : State) : State :=
  if attemptId ≠ s.attemptId ∨ !s.utteranceOpen then s
  else
    let s := closeUtterance s
    if s.reply.isNone then uploadNextUtterance s else s

/-- `readStream` reports the text streamed so far. -/
def readStream (number : ℕ) (text : Text) (s : State) : State := s.record (.partialTranscript number text)

/-- The failure a finished reply comes to, if it failed. -/
def failureOf (reply : Reply) : Option (ProviderFailureKind × Text × ℕ) :=
  let failing (failure : ProviderFailure) :=
    (failure.kind, "Speech endpoint failed: ".toList ++ failure.message.toList, failure.httpStatus)
  match reply.streamError, reply.error with
  | some failure, _ => some (failing failure)
  | none, none => none
  | none, some failure =>
    match reply.timeoutReason with
    | some reason => some (.timeout, "Speech endpoint failed: ".toList ++ reason, 0)
    | none => some (failing failure)

def invalidResult (attemptId : ℕ) : SpeechFailure :=
  finalizeFailure attemptId .invalidResult "Speech endpoint failed: the response held no transcript".toList 0

/-- `finishReply`, once the reply is the awaited one, to `utterance`. -/
def finishAwaited (utterance : Utterance) (reply : Reply) (s : State) : State :=
  let number := utterance.number
  let s := { s with reply := none }
  match failureOf reply with
  | some (kind, message, httpStatus) =>
    let failure := finalizeFailure s.attemptId kind message httpStatus
    let kept := if reply.streaming then trimmed reply.streamedText else []
    if s.cutIntoUtterances then
      let s := if kept.isEmpty then s else s.record (.finalTranscript number kept)
      if !isTransientFailure kind || (!reply.streaming && reply.quotaSpent) then s.record (.failed number failure)
      else uploadNextUtterance (s.record (.utteranceFailed number failure))
    else
      let s := if kept.isEmpty then s else s.record (.attemptTranscript kept)
      s.record (.failed number failure)
  | none =>
    let text :=
      if reply.streaming then some (if reply.doneText.isEmpty then reply.streamedText else reply.doneText)
      else reply.bodyText
    match text with
    | none => s.record (.failed number (invalidResult s.attemptId))
    | some text =>
      if s.cutIntoUtterances then uploadNextUtterance (s.record (.finalTranscript number (trimmed text)))
      else
        let s := if (trimmed text).isEmpty then s else s.record (.attemptTranscript (trimmed text))
        s.record .attemptCompleted

/-- The awaited upload, when a reply is to it. -/
def awaited (number : Option ℕ) (s : State) : Option Utterance :=
  s.reply.filter fun utterance => number == some utterance.number

end State

/-- What can happen. A reply is to the upload of an utterance of this attempt, or to one of an earlier attempt. -/
inductive Event
  | sendAudio (attemptId : ℕ) (pcm : List UInt8)
  | beginUtterance (attemptId : ℕ)
  | endUtterance (attemptId : ℕ)
  | finishInput (attemptId : ℕ)
  | replyReads (number : Option ℕ) (text : Text)
  | replyFinishes (number : Option ℕ) (reply : Reply)

def step (s : State) : Event → Option State
  | .sendAudio attemptId pcm => some (s.sendAudio attemptId pcm)
  | .beginUtterance attemptId => some (s.beginUtterance attemptId)
  | .endUtterance attemptId => some (s.endUtterance attemptId)
  | .finishInput attemptId => some (s.finishInput attemptId)
  | .replyReads number text =>
    match s.awaited number with
    | none => some s
    | some utterance => some (s.readStream utterance.number text)
  | .replyFinishes number reply =>
    match s.awaited number with
    | none => some s
    | some utterance => some (s.finishAwaited utterance reply)

/-! ## Reading the log -/

/-- The utterance that waits no longer, as it is uploaded or makes way. -/
def Entry.leaves : Entry → Option ℕ
  | .uploaded utterance => some utterance.number
  | .dropped number _ => some number
  | _ => none

/-- The utterance whose story an entry is part of. -/
def Entry.about : Entry → Option ℕ
  | .closed utterance => some utterance.number
  | .uploaded utterance => some utterance.number
  | .finalTranscript number _ => some number
  | .utteranceFailed number _ => some number
  | .dropped number _ => some number
  | .failed number _ => some number
  | _ => none

/-- The attempt ends. -/
def Entry.ends : Entry → Bool
  | .attemptCompleted => true
  | .failed _ _ => true
  | _ => false

def storyOf (number : ℕ) (log : List Entry) : List Entry := log.filter fun entry => entry.about == some number

/-- How an upload is answered: a final, an utterance that failed or the attempt's failure, and before a failure perhaps
the text streamed so far. -/
inductive Answers (number : ℕ) : List Entry → Prop
  | transcribed (text : Text) : Answers number [.finalTranscript number text]
  | missed (failure : SpeechFailure) : Answers number [.utteranceFailed number failure]
  | cutShort (text : Text) (failure : SpeechFailure) :
      Answers number [.finalTranscript number text, .utteranceFailed number failure]
  | refused (failure : SpeechFailure) : Answers number [.failed number failure]
  | cutOff (text : Text) (failure : SpeechFailure) :
      Answers number [.finalTranscript number text, .failed number failure]

/-- The whole story of an utterance: it made way unsent, or was uploaded and answered. -/
inductive Settled (utterance : Utterance) : List Entry → Prop
  | dropped (failure : SpeechFailure) :
      Settled utterance [.closed utterance, .dropped utterance.number failure]
  | answered {entries : List Entry} (answers : Answers utterance.number entries) :
      Settled utterance (.closed utterance :: .uploaded utterance :: entries)

theorem Answers.about {number : ℕ} {entries : List Entry} (h : Answers number entries) :
    ∀ entry ∈ entries, entry.about = some number ∧ entry.leaves = none := by
  cases h <;> simp [Entry.about, Entry.leaves]

/-- The attempt has not ended. -/
def Open (log : List Entry) : Prop := ∀ entry ∈ log, entry.ends = false

/-- An entry is as it should be after those before it. -/
structure Proper (before : List Entry) (entry : Entry) : Prop where
  /-- Nothing comes after the end. -/
  goes : Open before
  /-- The utterances are uploaded or make way in the order they were spoken, each once. -/
  inOrder : ∀ number, entry.leaves = some number → before.filterMap Entry.leaves = List.range number
  /-- One is uploaded once those before are answered. -/
  oneAtATime : ∀ utterance, entry = .uploaded utterance → ∀ earlier, .uploaded earlier ∈ before →
    ∃ entries, Answers earlier.number entries ∧
      storyOf earlier.number before = .closed earlier :: .uploaded earlier :: entries
  /-- Text streams for the utterance that is uploading. -/
  streams : ∀ number text, entry = .partialTranscript number text →
    ∃ utterance : Utterance, utterance.number = number ∧
      storyOf number before = [.closed utterance, .uploaded utterance]
  /-- The attempt is complete once its input finished and each utterance came to its end. -/
  completes : entry = .attemptCompleted →
    .inputFinished ∈ before ∧
      ∀ utterance, .closed utterance ∈ before → Settled utterance (storyOf utterance.number before)

section Stories

variable {number : ℕ} {log : List Entry} {entry : Entry}

theorem storyOf_snoc_of_about (h : entry.about = some number) :
    storyOf number (log ++ [entry]) = storyOf number log ++ [entry] := by
  rw [storyOf, List.filter_append, List.filter_singleton, h, beq_self_eq_true]
  rfl

theorem storyOf_snoc_of_ne (h : entry.about ≠ some number) : storyOf number (log ++ [entry]) = storyOf number log := by
  rw [storyOf, List.filter_append, List.filter_singleton, beq_eq_false_iff_ne.mpr h]
  exact List.append_nil _

theorem leaves_snoc (entry : Entry) (h : entry.leaves = some number) :
    (log ++ [entry]).filterMap Entry.leaves = log.filterMap Entry.leaves ++ [number] := by
  rw [List.filterMap_append, List.filterMap_cons_some h, List.filterMap_nil]

theorem mem_storyOf : entry ∈ storyOf number log ↔ entry ∈ log ∧ entry.about = some number := by
  rw [storyOf, List.mem_filter, beq_iff_eq]

theorem Open.snoc (h : Open log) (hentry : entry.ends = false) : Open (log ++ [entry]) := by
  intro other hother
  rcases List.mem_append.mp hother with hother | hother
  · exact h other hother
  · exact List.mem_singleton.mp hother ▸ hentry

theorem Settled.eq_of_closed {utterance closed : Utterance} {story : List Entry} (h : Settled utterance story)
    (hclosed : .closed closed ∈ story) : closed = utterance := by
  cases h with
  | dropped failure => simpa using hclosed
  | answered answers => cases answers <;> simpa using hclosed

theorem Settled.eq_of_uploaded {utterance uploaded : Utterance} {story : List Entry} (h : Settled utterance story)
    (huploaded : .uploaded uploaded ∈ story) : uploaded = utterance ∧
      ∃ entries, Answers utterance.number entries ∧ story = .closed utterance :: .uploaded utterance :: entries := by
  cases h with
  | dropped failure => exact absurd huploaded (by simp)
  | answered answers =>
    refine ⟨?_, _, answers, rfl⟩
    cases answers <;> simpa using huploaded

end Stories

/-- A front of a range is a range. -/
theorem eq_range_of_append {front rest : List ℕ} {number bound : ℕ} (h : front ++ number :: rest = List.range bound) :
    front = List.range number := by
  rw [List.range_eq_range'] at h
  obtain ⟨length, -, hfront, hrest⟩ := List.range'_eq_append_iff.mp h.symm
  obtain ⟨hnumber, -, -⟩ := List.range'_eq_cons_iff.mp hrest.symm
  rw [hfront, ← hnumber, Nat.zero_add, Nat.mul_one, ← List.range_eq_range']

/-- What the log tells of the utterances, those that wait and the one that uploads. -/
structure Told (log : List Entry) (utterances : List Utterance) (reply : Option Utterance) (closed : ℕ) : Prop where
  proper : Each Proper log
  order : log.filterMap Entry.leaves ++ utterances.map Utterance.number = List.range closed
  fresh : ∀ number, closed ≤ number → storyOf number log = []
  waiting : ∀ utterance ∈ utterances, storyOf utterance.number log = [.closed utterance]
  uploading : ∀ utterance, reply = some utterance →
    storyOf utterance.number log = [.closed utterance, .uploaded utterance]
  settled : ∀ number < closed, number ∉ utterances.map Utterance.number →
    (∀ utterance, reply = some utterance → utterance.number ≠ number) →
      ∃ utterance : Utterance, utterance.number = number ∧ Settled utterance (storyOf number log)

namespace Told

variable {log : List Entry} {utterances : List Utterance} {reply : Option Utterance} {closed : ℕ}

theorem lt_of_story (h : Told log utterances reply closed) {number : ℕ} (hstory : storyOf number log ≠ []) :
    number < closed := by
  by_contra hge
  exact hstory (h.fresh number (Nat.le_of_not_lt hge))

/-- An entry about no utterance. -/
theorem record (h : Told log utterances reply closed) {entry : Entry} (hproper : Proper log entry)
    (habout : entry.about = none) (hleaves : entry.leaves = none) : Told (log ++ [entry]) utterances reply closed := by
  have hstory (number : ℕ) : storyOf number (log ++ [entry]) = storyOf number log :=
    storyOf_snoc_of_ne (by rw [habout]; exact (Option.some_ne_none number).symm)
  exact {
    proper := h.proper.snoc hproper
    order := by
      rw [List.filterMap_append, List.filterMap_cons_none hleaves, List.filterMap_nil, List.append_nil, h.order]
    fresh := fun number hnumber => (hstory number).trans (h.fresh number hnumber)
    waiting := fun utterance hutterance => (hstory _).trans (h.waiting utterance hutterance)
    uploading := fun utterance hutterance => (hstory _).trans (h.uploading utterance hutterance)
    settled := fun number hnumber hwaiting huploading => by
      rw [hstory]
      exact h.settled number hnumber hwaiting huploading }

/-- An utterance is closed, and waits. -/
theorem close (h : Told log utterances reply closed) (hopen : Open log) (pcm : List UInt8) :
    Told (log ++ [.closed ⟨closed, pcm⟩]) (utterances ++ [⟨closed, pcm⟩]) reply (closed + 1) := by
  have hown : storyOf closed (log ++ [.closed ⟨closed, pcm⟩]) = [.closed ⟨closed, pcm⟩] := by
    rw [storyOf_snoc_of_about rfl, h.fresh closed (Nat.le_refl _), List.nil_append]
  have hother {number : ℕ} (hne : number ≠ closed) :
      storyOf number (log ++ [.closed ⟨closed, pcm⟩]) = storyOf number log :=
    storyOf_snoc_of_ne fun heq => hne (Option.some.inj heq).symm
  exact {
    proper := h.proper.snoc {
      goes := hopen
      inOrder := fun _ hleaves => absurd hleaves (Option.some_ne_none _).symm
      oneAtATime := fun _ heq => Entry.noConfusion heq
      streams := fun _ _ heq => Entry.noConfusion heq
      completes := fun heq => Entry.noConfusion heq }
    order := by
      rw [List.filterMap_append, List.filterMap_cons_none rfl, List.filterMap_nil, List.append_nil, List.map_append,
        ← List.append_assoc, h.order, List.range_succ]
      rfl
    fresh := fun number hnumber => by
      rw [hother (by omega)]
      exact h.fresh number (by omega)
    waiting := fun utterance hutterance => by
      rcases List.mem_append.mp hutterance with hold | hnew
      · have hstory := h.waiting utterance hold
        have hlt : utterance.number < closed := h.lt_of_story (by rw [hstory]; exact List.cons_ne_nil _ _)
        rw [hother (Nat.ne_of_lt hlt), hstory]
      · rw [List.mem_singleton.mp hnew]
        exact hown
    uploading := fun utterance hutterance => by
      have hstory := h.uploading utterance hutterance
      have hlt : utterance.number < closed := h.lt_of_story (by rw [hstory]; exact List.cons_ne_nil _ _)
      rw [hother (Nat.ne_of_lt hlt), hstory]
    settled := fun number hnumber hwaiting huploading => by
      rw [List.map_append, List.mem_append, not_or] at hwaiting
      have hne : number ≠ closed := fun heq => hwaiting.2 (by rw [heq]; exact List.mem_singleton_self _)
      rw [hother hne]
      exact h.settled number (by omega) hwaiting.1 huploading }

theorem number_lt (h : Told log utterances reply closed) {number : ℕ}
    (hnumber : number ∈ utterances.map Utterance.number) : number < closed := by
  have hmem : number ∈ List.range closed := by
    rw [← h.order]
    exact List.mem_append_right _ hnumber
  exact List.mem_range.mp hmem

variable {utterance : Utterance}

/-- The oldest that waits is the next to leave. -/
theorem leaves_eq (h : Told log (utterance :: utterances) reply closed) :
    log.filterMap Entry.leaves = List.range utterance.number := by
  have horder := h.order
  rw [List.map_cons] at horder
  exact eq_range_of_append horder

theorem not_mem_newer (h : Told log (utterance :: utterances) reply closed) :
    utterance.number ∉ utterances.map Utterance.number := by
  have hnodup := List.nodup_range (n := closed)
  rw [← h.order, List.map_cons] at hnodup
  exact (List.nodup_cons.mp (List.nodup_append.mp hnodup).2.1).1

/-- What was uploaded is answered, while nothing uploads. -/
theorem answered (h : Told log utterances none closed) {earlier : Utterance} (huploaded : .uploaded earlier ∈ log) :
    ∃ entries, Answers earlier.number entries ∧
      storyOf earlier.number log = .closed earlier :: .uploaded earlier :: entries := by
  have hmem : .uploaded earlier ∈ storyOf earlier.number log := mem_storyOf.mpr ⟨huploaded, rfl⟩
  have hlt : earlier.number < closed := h.lt_of_story (List.ne_nil_of_mem hmem)
  have hleft : earlier.number ∉ utterances.map Utterance.number := by
    intro hwaiting
    obtain ⟨waiting, hin, hnumber⟩ := List.mem_map.mp hwaiting
    rw [← hnumber, h.waiting waiting hin] at hmem
    exact absurd (List.mem_singleton.mp hmem) Entry.noConfusion
  obtain ⟨settled, hnumber, hsettled⟩ := h.settled _ hlt hleft fun _ hnone => absurd hnone (Option.some_ne_none _).symm
  obtain ⟨rfl, hentries⟩ := hsettled.eq_of_uploaded hmem
  exact hentries

/-- The oldest that waits makes way. -/
theorem drop (h : Told log (utterance :: utterances) reply closed) (hopen : Open log) (failure : SpeechFailure) :
    Told (log ++ [.dropped utterance.number failure]) utterances reply closed := by
  have hwaiting := h.waiting utterance List.mem_cons_self
  have hother {number : ℕ} (hne : number ≠ utterance.number) :
      storyOf number (log ++ [.dropped utterance.number failure]) = storyOf number log :=
    storyOf_snoc_of_ne fun heq => hne (Option.some.inj heq).symm
  exact {
    proper := h.proper.snoc {
      goes := hopen
      inOrder := fun _ hleaves => Option.some.inj hleaves ▸ h.leaves_eq
      oneAtATime := fun _ heq => Entry.noConfusion heq
      streams := fun _ _ heq => Entry.noConfusion heq
      completes := fun heq => Entry.noConfusion heq }
    order := by
      rw [leaves_snoc (.dropped utterance.number failure) rfl, List.append_assoc, List.singleton_append,
        ← List.map_cons, h.order]
    fresh := fun number hnumber => by
      have hlt : utterance.number < closed := h.number_lt List.mem_cons_self
      rw [hother (by omega)]
      exact h.fresh number hnumber
    waiting := fun newer hnewer => by
      have hne : newer.number ≠ utterance.number := fun heq =>
        h.not_mem_newer (heq ▸ List.mem_map_of_mem hnewer)
      rw [hother hne]
      exact h.waiting newer (List.mem_cons_of_mem _ hnewer)
    uploading := fun uploading huploading => by
      have hstory := h.uploading uploading huploading
      have hne : uploading.number ≠ utterance.number := fun heq => by
        rw [heq, hwaiting] at hstory
        simp at hstory
      rw [hother hne, hstory]
    settled := fun number hnumber hleft huploading => by
      by_cases hown : number = utterance.number
      · rw [hown]
        refine ⟨utterance, rfl, ?_⟩
        rw [storyOf_snoc_of_about rfl, hwaiting]
        exact .dropped failure
      · rw [hother hown]
        refine h.settled number hnumber (fun hmem => ?_) huploading
        rcases List.mem_cons.mp hmem with heq | hnewer
        · exact hown heq
        · exact hleft hnewer }

/-- The oldest that waits is uploaded. -/
theorem upload (h : Told log (utterance :: utterances) none closed) (hopen : Open log) :
    Told (log ++ [.uploaded utterance]) utterances (some utterance) closed := by
  have hwaiting := h.waiting utterance List.mem_cons_self
  have hother {number : ℕ} (hne : number ≠ utterance.number) :
      storyOf number (log ++ [.uploaded utterance]) = storyOf number log :=
    storyOf_snoc_of_ne fun heq => hne (Option.some.inj heq).symm
  exact {
    proper := h.proper.snoc {
      goes := hopen
      inOrder := fun _ hleaves => Option.some.inj hleaves ▸ h.leaves_eq
      oneAtATime := fun _ _ _ huploaded => h.answered huploaded
      streams := fun _ _ heq => Entry.noConfusion heq
      completes := fun heq => Entry.noConfusion heq }
    order := by
      rw [leaves_snoc (.uploaded utterance) rfl, List.append_assoc, List.singleton_append, ← List.map_cons, h.order]
    fresh := fun number hnumber => by
      have hlt : utterance.number < closed := h.number_lt List.mem_cons_self
      rw [hother (by omega)]
      exact h.fresh number hnumber
    waiting := fun newer hnewer => by
      have hne : newer.number ≠ utterance.number := fun heq =>
        h.not_mem_newer (heq ▸ List.mem_map_of_mem hnewer)
      rw [hother hne]
      exact h.waiting newer (List.mem_cons_of_mem _ hnewer)
    uploading := fun uploading huploading => by
      obtain rfl := Option.some.inj huploading
      rw [storyOf_snoc_of_about rfl, hwaiting]
      rfl
    settled := fun number hnumber hleft huploading => by
      have hown : number ≠ utterance.number := fun heq => huploading utterance rfl heq.symm
      rw [hother hown]
      refine h.settled number hnumber (fun hmem => ?_) fun _ hnone => absurd hnone (Option.some_ne_none _).symm
      rcases List.mem_cons.mp hmem with heq | hnewer
      · exact hown heq
      · exact hleft hnewer }

/-- The upload is answered. -/
theorem answer (h : Told log utterances (some utterance) closed) (hopen : Open log) {entries : List Entry}
    (hanswers : Answers utterance.number entries) : Told (log ++ entries) utterances none closed := by
  have huploading := h.uploading utterance rfl
  have hlt : utterance.number < closed := h.lt_of_story (by rw [huploading]; exact List.cons_ne_nil _ _)
  have hown : storyOf utterance.number (log ++ entries) = .closed utterance :: .uploaded utterance :: entries := by
    rw [storyOf, List.filter_append, ← storyOf, huploading, List.filter_eq_self.mpr]
    · rfl
    · exact fun entry hentry => beq_iff_eq.mpr (hanswers.about entry hentry).1
  have hother {number : ℕ} (hne : number ≠ utterance.number) :
      storyOf number (log ++ entries) = storyOf number log := by
    rw [storyOf, List.filter_append, ← storyOf, List.filter_eq_nil_iff.mpr, List.append_nil]
    intro entry hentry habout
    exact hne (Option.some.inj ((hanswers.about entry hentry).1.symm.trans (beq_iff_eq.mp habout))).symm
  have hplain (before : List Entry) (hbefore : Open before) (entry : Entry)
      (habout : entry.about = some utterance.number) (hleaves : entry.leaves = none) : Proper before entry := {
    goes := hbefore
    inOrder := fun _ hsome => absurd (hleaves.symm.trans hsome) (Option.some_ne_none _).symm
    oneAtATime := fun _ heq => by
      rw [heq] at hleaves
      exact absurd hleaves (Option.some_ne_none _)
    streams := fun _ _ heq => by
      rw [heq] at habout
      exact absurd habout (Option.some_ne_none _).symm
    completes := fun heq => by
      rw [heq] at habout
      exact absurd habout (Option.some_ne_none _).symm }
  exact {
    proper := by
      cases hanswers with
      | transcribed text => exact h.proper.snoc (hplain _ hopen _ rfl rfl)
      | missed failure => exact h.proper.snoc (hplain _ hopen _ rfl rfl)
      | refused failure => exact h.proper.snoc (hplain _ hopen _ rfl rfl)
      | cutShort text failure =>
        rw [List.append_cons]
        exact (h.proper.snoc (hplain _ hopen _ rfl rfl)).snoc (hplain _ (hopen.snoc rfl) _ rfl rfl)
      | cutOff text failure =>
        rw [List.append_cons]
        exact (h.proper.snoc (hplain _ hopen _ rfl rfl)).snoc (hplain _ (hopen.snoc rfl) _ rfl rfl)
    order := by
      have hnone : entries.filterMap Entry.leaves = [] :=
        List.filterMap_eq_nil_iff.mpr fun entry hentry => (hanswers.about entry hentry).2
      rw [List.filterMap_append, hnone, List.append_nil, h.order]
    fresh := fun number hnumber => by
      rw [hother (by omega)]
      exact h.fresh number hnumber
    waiting := fun waiting hin => by
      have hstory := h.waiting waiting hin
      have hne : waiting.number ≠ utterance.number := fun heq => by
        rw [heq, huploading] at hstory
        simp at hstory
      rw [hother hne, hstory]
    uploading := fun _ hnone => absurd hnone (Option.some_ne_none _).symm
    settled := fun number hnumber hleft _ => by
      by_cases heq : number = utterance.number
      · rw [heq]
        exact ⟨utterance, rfl, hown ▸ .answered hanswers⟩
      · rw [hother heq]
        refine h.settled number hnumber hleft fun uploading huploading => ?_
        rw [← Option.some.inj huploading]
        exact Ne.symm heq }

end Told

/-! ## A heeded attempt -/

/-- What waits is within the limit, or a single utterance. -/
def Bounded (utterances : List Utterance) : Prop :=
  State.waitingBytes utterances ≤ mostWaitingBytes ∨ utterances.length ≤ 1

theorem Bounded.tail {utterance : Utterance} {utterances : List Utterance} (h : Bounded (utterance :: utterances)) :
    Bounded utterances := by
  refine h.imp (fun hbytes => ?_) fun hlength => Nat.le_of_succ_le hlength
  exact (Nat.le_add_left _ utterance.pcm.length).trans hbytes

/-- The loop of `closeUtterance` leaves no more than may wait. -/
theorem bounded_dropOldest (attemptId : ℕ) (utterances : List Utterance) :
    Bounded (State.dropOldest attemptId (State.waitingBytes utterances) utterances).2 := by
  induction utterances with
  | nil => exact .inr (Nat.zero_le _)
  | cons oldest newer ih =>
    cases newer with
    | nil => exact .inr (Nat.le_refl _)
    | cons next newer =>
      rw [State.dropOldest]
      split_ifs with hmuch
      · have hrest : State.waitingBytes (oldest :: next :: newer) - oldest.pcm.length =
            State.waitingBytes (next :: newer) := Nat.add_sub_cancel_left _ _
        rw [hrest]
        exact ih
      · exact .inl (Nat.le_of_not_lt hmuch)

/-- The utterances that make way leave one after the other. -/
theorem Told.dropOldest {log : List Entry} {reply : Option Utterance} {closed : ℕ} (attemptId waiting : ℕ)
    {utterances : List Utterance} (h : Told log utterances reply closed) (hopen : Open log) :
    Told (log ++ (State.dropOldest attemptId waiting utterances).1) (State.dropOldest attemptId waiting utterances).2
      reply closed ∧ Open (log ++ (State.dropOldest attemptId waiting utterances).1) := by
  induction utterances generalizing log waiting with
  | nil => exact ⟨(List.append_nil log).symm ▸ h, (List.append_nil log).symm ▸ hopen⟩
  | cons oldest newer ih =>
    cases newer with
    | nil => exact ⟨(List.append_nil log).symm ▸ h, (List.append_nil log).symm ▸ hopen⟩
    | cons next newer =>
      rw [State.dropOldest]
      split_ifs
      · dsimp only
        rw [List.append_cons]
        exact ih _ (h.drop hopen _) (hopen.snoc rfl)
      · exact ⟨(List.append_nil log).symm ▸ h, (List.append_nil log).symm ▸ hopen⟩

/-- The state of an attempt that has not ended, whatever is left to do. -/
structure Ready (s : State) : Prop where
  told : Told s.log s.utterances s.reply s.closed
  goes : Open s.log
  cut : s.cutIntoUtterances = true
  bounded : Bounded s.utterances
  finished : s.inputFinished = true → .inputFinished ∈ s.log
  shut : s.inputFinished = true → s.utteranceOpen = false

/-- What a heeded attempt keeps. -/
structure Kept (s : State) : Prop where
  told : Told s.log s.utterances s.reply s.closed
  cut : s.cutIntoUtterances = true
  bounded : Bounded s.utterances
  finished : s.inputFinished = true → .inputFinished ∈ s.log
  shut : s.inputFinished = true → s.utteranceOpen = false
  ceased : ¬ Open s.log → s.reply = none
  /-- While the attempt goes on, what is left to do is done. -/
  working : Open s.log → s.reply = none → s.utterances = [] ∧ s.inputFinished = false

section Operations

variable {s : State}

theorem Ready.kept (h : Ready s) (hreply : s.reply ≠ none) : Kept s :=
  { h with
    ceased := fun hover => absurd h.goes hover
    working := fun _ hnone => absurd hnone hreply }

theorem Ready.uploadNextUtterance (h : Ready s) (hreply : s.reply = none) : Kept s.uploadNextUtterance := by
  have htold := h.told
  rw [hreply] at htold
  unfold State.uploadNextUtterance
  split
  next hnone =>
    rw [hnone] at htold
    split_ifs with hfinished
    · have hcompletes : Proper s.log .attemptCompleted :=
        { goes := h.goes
          inOrder := fun _ hleaves => absurd hleaves (Option.some_ne_none _).symm
          oneAtATime := fun _ heq => Entry.noConfusion heq
          streams := fun _ _ heq => Entry.noConfusion heq
          completes := fun _ => ⟨h.finished hfinished, fun utterance hclosed => by
            have hmem : .closed utterance ∈ storyOf utterance.number s.log := mem_storyOf.mpr ⟨hclosed, rfl⟩
            obtain ⟨settled, hnumber, hsettled⟩ := htold.settled utterance.number
              (htold.lt_of_story (List.ne_nil_of_mem hmem)) List.not_mem_nil
              fun _ hsome => absurd hsome (Option.some_ne_none _).symm
            exact hsettled.eq_of_closed hmem ▸ hsettled⟩ }
      exact {
        told := by
          change Told (s.log ++ [.attemptCompleted]) s.utterances s.reply s.closed
          exact h.told.record hcompletes rfl rfl
        cut := h.cut
        bounded := h.bounded
        finished := fun hf => List.mem_append_left _ (h.finished hf)
        shut := h.shut
        ceased := fun _ => hreply
        working := fun hopen => absurd (hopen .attemptCompleted (List.mem_append_right _ (List.mem_singleton_self _)))
          Bool.noConfusion }
    · exact { h with
        ceased := fun hover => absurd h.goes hover
        working := fun _ _ => ⟨hnone, Bool.eq_false_iff.mpr hfinished⟩ }
  next utterance utterances hsome =>
    have hbounded := h.bounded
    rw [hsome] at htold hbounded
    exact {
      told := htold.upload h.goes
      cut := h.cut
      bounded := hbounded.tail
      finished := fun hf => List.mem_append_left _ (h.finished hf)
      shut := h.shut
      ceased := fun hover => absurd (h.goes.snoc rfl) hover
      working := fun _ hnone => absurd hnone (Option.some_ne_none _) }

/-- The next utterance goes up if none is uploading. -/
theorem Ready.goesOn (h : Ready s) : Kept (if s.reply.isNone then s.uploadNextUtterance else s) := by
  split_ifs with hnone
  · exact h.uploadNextUtterance (Option.isNone_iff_eq_none.mp hnone)
  · exact h.kept fun heq => hnone (Option.isNone_iff_eq_none.mpr heq)

theorem ready_closeUtterance (htold : Told s.log s.utterances s.reply s.closed) (hopen : Open s.log)
    (hcut : s.cutIntoUtterances = true) (hbounded : Bounded s.utterances)
    (hfinished : s.inputFinished = true → .inputFinished ∈ s.log) : Ready s.closeUtterance := by
  unfold State.closeUtterance
  split_ifs
  · exact ⟨htold, hopen, hcut, hbounded, hfinished, fun _ => rfl⟩
  · have hclosed := htold.close hopen s.pcm
    obtain ⟨hdropped, hgoes⟩ := hclosed.dropOldest s.attemptId
      (State.waitingBytes (s.utterances ++ [⟨s.closed, s.pcm⟩])) (hopen.snoc rfl)
    rw [List.append_assoc, List.singleton_append] at hdropped hgoes
    exact {
      told := hdropped
      goes := hgoes
      cut := hcut
      bounded := bounded_dropOldest _ _
      finished := fun hf => List.mem_append_left _ (hfinished hf)
      shut := fun _ => rfl }

theorem Kept.ready (h : Kept s) (hopen : Open s.log) : Ready s := { h with goes := hopen }

theorem Kept.sendAudio (h : Kept s) (attemptId : ℕ) (pcm : List UInt8) : Kept (s.sendAudio attemptId pcm) := by
  unfold State.sendAudio
  split_ifs
  · exact h
  · dsimp only
    split_ifs <;> exact ⟨h.told, h.cut, h.bounded, h.finished, h.shut, h.ceased, h.working⟩

theorem Kept.beginUtterance (h : Kept s) (attemptId : ℕ) : Kept (s.beginUtterance attemptId) := by
  unfold State.beginUtterance
  split_ifs with hbegins
  · obtain ⟨-, -, hunfinished⟩ := hbegins
    exact { h with
      shut := fun hfinished => by
        rw [show s.inputFinished = true from hfinished] at hunfinished
        exact absurd hunfinished Bool.false_ne_true }
  · exact h

/-- An utterance ends; after a failure no more than its mark does. -/
theorem Kept.endUtterance (h : Kept s) {attemptId : ℕ}
    (hheeds : ¬ Open s.log → attemptId ≠ s.attemptId ∨ s.utteranceOpen = false ∨ s.pcm = [] ∧ s.utterances = []) :
    Kept (s.endUtterance attemptId) := by
  unfold State.endUtterance
  by_cases hignored : attemptId ≠ s.attemptId ∨ (!s.utteranceOpen) = true
  · rw [if_pos hignored]
    exact h
  · rw [if_neg hignored]
    by_cases hopen : Open s.log
    · exact (ready_closeUtterance h.told hopen h.cut h.bounded h.finished).goesOn
    · obtain ⟨hid, hstill⟩ := not_or.mp hignored
      have hutterance : s.utteranceOpen = true := by simpa using hstill
      obtain ⟨hpcm, hnone⟩ : s.pcm = [] ∧ s.utterances = [] :=
        ((hheeds hopen).resolve_left hid).resolve_left (by rw [hutterance]; exact Bool.noConfusion)
      have hunfinished : s.inputFinished = false := by
        by_contra hfinished
        rw [h.shut (Bool.eq_false_iff.not_left.mp hfinished)] at hutterance
        exact Bool.false_ne_true hutterance
      have hclosed : s.closeUtterance = { s with utteranceOpen := false } := if_pos (by rw [hpcm]; simp)
      have hquiet : (if s.reply.isNone then State.uploadNextUtterance { s with utteranceOpen := false }
          else { s with utteranceOpen := false }) = { s with utteranceOpen := false } := by
        simp only [State.uploadNextUtterance, hnone, hunfinished, Bool.false_eq_true, if_false, ite_self]
      dsimp only
      rw [hclosed]
      dsimp only
      rw [hquiet]
      exact { h with shut := fun _ => rfl }

theorem Kept.finishInput (h : Kept s) {attemptId : ℕ}
    (hheeds : ¬ Open s.log → attemptId ≠ s.attemptId ∨ s.inputFinished = true) : Kept (s.finishInput attemptId) := by
  unfold State.finishInput
  by_cases hignored : attemptId ≠ s.attemptId ∨ s.inputFinished = true
  · rw [if_pos hignored]
    exact h
  · rw [if_neg hignored]
    have hopen : Open s.log := by
      by_contra hover
      exact hignored (hheeds hover)
    have hfinished : Proper s.log .inputFinished :=
      { goes := hopen
        inOrder := fun _ hleaves => absurd hleaves (Option.some_ne_none _).symm
        oneAtATime := fun _ heq => Entry.noConfusion heq
        streams := fun _ _ heq => Entry.noConfusion heq
        completes := fun heq => Entry.noConfusion heq }
    have hready : Ready (State.closeUtterance (State.record { s with inputFinished := true } .inputFinished)) :=
      ready_closeUtterance (h.told.record hfinished rfl rfl) (hopen.snoc rfl) h.cut h.bounded
        fun _ => List.mem_append_right _ (List.mem_singleton_self _)
    have hempty : Ready { State.closeUtterance (State.record { s with inputFinished := true } .inputFinished) with
        pcm := [] } := ⟨hready.told, hready.goes, hready.cut, hready.bounded, hready.finished, hready.shut⟩
    have hcut : (State.record { s with inputFinished := true } .inputFinished).cutIntoUtterances = true := h.cut
    dsimp only
    rw [if_pos hcut]
    exact hempty.goesOn

theorem Kept.readStream (h : Kept s) {utterance : Utterance} (hreply : s.reply = some utterance) (text : Text) :
    Kept (s.readStream utterance.number text) := by
  have hopen : Open s.log := by
    by_contra hover
    exact absurd ((h.ceased hover).symm.trans hreply) (Option.some_ne_none _).symm
  have hstreams : Proper s.log (.partialTranscript utterance.number text) :=
    { goes := hopen
      inOrder := fun _ hleaves => absurd hleaves (Option.some_ne_none _).symm
      oneAtATime := fun _ heq => Entry.noConfusion heq
      streams := fun number _ heq => by
        obtain ⟨rfl, -⟩ := Entry.partialTranscript.inj heq
        exact ⟨utterance, rfl, h.told.uploading utterance hreply⟩
      completes := fun heq => Entry.noConfusion heq }
  have htold := h.told.record hstreams rfl rfl
  refine Ready.kept ?_ (hreply ▸ Option.some_ne_none _)
  exact ⟨htold, hopen.snoc rfl, h.cut, h.bounded, fun hf => List.mem_append_left _ (h.finished hf), h.shut⟩

/-- What a finished reply does: it answers the upload, and the attempt ends or goes on. -/
theorem finishAwaited_cases (hcut : s.cutIntoUtterances = true) (utterance : Utterance) (reply : Reply) :
    ∃ entries, Answers utterance.number entries ∧
      ((∃ entry ∈ entries, entry.ends = true) ∧
        s.finishAwaited utterance reply = { s with reply := none, log := s.log ++ entries } ∨
      Open entries ∧
        s.finishAwaited utterance reply =
          State.uploadNextUtterance { s with reply := none, log := s.log ++ entries }) := by
  have hgoing {entry : Entry} (hentry : entry.ends = false) : Open [entry] := fun other hother =>
    List.mem_singleton.mp hother ▸ hentry
  rcases hfailure : State.failureOf reply with _ | ⟨kind, message, httpStatus⟩
  · rcases htext : (if reply.streaming then some (if reply.doneText.isEmpty then reply.streamedText else reply.doneText)
      else reply.bodyText) with _ | text
    · refine ⟨_, .refused (State.invalidResult s.attemptId), .inl ⟨⟨_, List.mem_singleton_self _, rfl⟩, ?_⟩⟩
      simp only [State.finishAwaited, hfailure, htext]
      rfl
    · refine ⟨_, .transcribed (trimmed text), .inr ⟨hgoing rfl, ?_⟩⟩
      simp only [State.finishAwaited, hfailure, htext, hcut, if_true]
      rfl
  · have hlong (first last : Entry) (log : List Entry) : log ++ [first, last] = log ++ [first] ++ [last] :=
      List.append_cons ..
    by_cases hkept : (if reply.streaming then trimmed reply.streamedText else []).isEmpty = true
    · by_cases hlasting : (!isTransientFailure kind || (!reply.streaming && reply.quotaSpent)) = true
      · refine ⟨_, .refused (finalizeFailure s.attemptId kind message httpStatus),
          .inl ⟨⟨_, List.mem_singleton_self _, rfl⟩, ?_⟩⟩
        simp only [State.finishAwaited, hfailure, hcut, if_true, if_pos hkept, if_pos hlasting]
        rfl
      · refine ⟨_, .missed (finalizeFailure s.attemptId kind message httpStatus), .inr ⟨hgoing rfl, ?_⟩⟩
        simp only [State.finishAwaited, hfailure, hcut, if_true, if_pos hkept, if_neg hlasting]
        rfl
    · by_cases hlasting : (!isTransientFailure kind || (!reply.streaming && reply.quotaSpent)) = true
      · refine ⟨_, .cutOff (if reply.streaming then trimmed reply.streamedText else [])
          (finalizeFailure s.attemptId kind message httpStatus),
          .inl ⟨⟨_, List.mem_cons_of_mem _ (List.mem_singleton_self _), rfl⟩, ?_⟩⟩
        rw [hlong]
        simp only [State.finishAwaited, hfailure, hcut, if_true, if_neg hkept, if_pos hlasting]
        rfl
      · refine ⟨_, .cutShort (if reply.streaming then trimmed reply.streamedText else [])
          (finalizeFailure s.attemptId kind message httpStatus), .inr ⟨(hgoing rfl).snoc rfl, ?_⟩⟩
        rw [hlong]
        simp only [State.finishAwaited, hfailure, hcut, if_true, if_neg hkept, if_neg hlasting]
        rfl

theorem Kept.finishAwaited (h : Kept s) {utterance : Utterance} (hreply : s.reply = some utterance) (reply : Reply) :
    Kept (s.finishAwaited utterance reply) := by
  have hopen : Open s.log := by
    by_contra hover
    exact absurd ((h.ceased hover).symm.trans hreply) (Option.some_ne_none _).symm
  obtain ⟨entries, hanswers, ⟨⟨entry, hentry, hends⟩, heq⟩ | ⟨hgoes, heq⟩⟩ := finishAwaited_cases h.cut utterance reply
  all_goals
    have htold := (hreply ▸ h.told : Told s.log s.utterances (some utterance) s.closed).answer hopen hanswers
    rw [heq]
  · exact {
      told := htold
      cut := h.cut
      bounded := h.bounded
      finished := fun hf => List.mem_append_left _ (h.finished hf)
      shut := h.shut
      ceased := fun _ => rfl
      working := fun hstill => by
        rw [hstill entry (List.mem_append_right _ hentry)] at hends
        exact absurd hends Bool.false_ne_true }
  · refine Ready.uploadNextUtterance ?_ rfl
    refine ⟨htold, fun other hother => ?_, h.cut, h.bounded, fun hf => List.mem_append_left _ (h.finished hf), h.shut⟩
    exact (List.mem_append.mp hother).elim (hopen other) (hgoes other)

end Operations

/-! ## Whole runs -/

def State.ended (s : State) : Bool := s.log.any Entry.ends

/-- The caller heeds the failure of the attempt: it finishes no input after it and closes no utterance. -/
def Heeds (s : State) : Event → Prop
  | .finishInput attemptId => s.ended = true → attemptId ≠ s.attemptId ∨ s.inputFinished = true
  | .endUtterance attemptId =>
    s.ended = true → attemptId ≠ s.attemptId ∨ s.utteranceOpen = false ∨ s.pcm = [] ∧ s.utterances = []
  | _ => True

instance : ∀ s event, Decidable (Heeds s event)
  | s, .finishInput attemptId =>
    inferInstanceAs (Decidable (s.ended = true → attemptId ≠ s.attemptId ∨ s.inputFinished = true))
  | s, .endUtterance attemptId => inferInstanceAs (Decidable
      (s.ended = true → attemptId ≠ s.attemptId ∨ s.utteranceOpen = false ∨ s.pcm = [] ∧ s.utterances = []))
  | _, .sendAudio _ _ => .isTrue trivial
  | _, .beginUtterance _ => .isTrue trivial
  | _, .replyReads _ _ => .isTrue trivial
  | _, .replyFinishes _ _ => .isTrue trivial

theorem ended_of_not_open {s : State} (h : ¬ Open s.log) : s.ended = true := by
  by_contra hgoing
  exact h fun entry hentry => Bool.eq_false_iff.mpr fun hends => hgoing (List.any_eq_true.mpr ⟨entry, hentry, hends⟩)

/-- **The step lemma.** -/
theorem kept_step {s s' : State} {event : Event} (h : Kept s) (hheeds : Heeds s event)
    (hstep : step s event = some s') : Kept s' := by
  have hawaited {number : Option ℕ} {utterance : Utterance} (hsome : s.awaited number = some utterance) :
      s.reply = some utterance := (Option.filter_eq_some_iff.mp hsome).1
  cases event with
  | sendAudio attemptId pcm =>
    obtain rfl := Option.some.inj hstep
    exact h.sendAudio attemptId pcm
  | beginUtterance attemptId =>
    obtain rfl := Option.some.inj hstep
    exact h.beginUtterance attemptId
  | endUtterance attemptId =>
    obtain rfl := Option.some.inj hstep
    exact h.endUtterance fun hover => hheeds (ended_of_not_open hover)
  | finishInput attemptId =>
    obtain rfl := Option.some.inj hstep
    exact h.finishInput fun hover => hheeds (ended_of_not_open hover)
  | replyReads number text =>
    rw [step] at hstep
    split at hstep
    next =>
      obtain rfl := Option.some.inj hstep
      exact h
    next utterance hsome =>
      obtain rfl := Option.some.inj hstep
      exact h.readStream (hawaited hsome) text
  | replyFinishes number reply =>
    rw [step] at hstep
    split at hstep
    next =>
      obtain rfl := Option.some.inj hstep
      exact h
    next utterance hsome =>
      obtain rfl := Option.some.inj hstep
      exact h.finishAwaited (hawaited hsome) reply

theorem kept_start (s : State) (attemptId : ℕ) : Kept (s.startAttempt attemptId true) := by
  have hreply : (s.startAttempt attemptId true).reply = none := by
    unfold State.startAttempt State.cancelAttempt
    rw [if_neg (not_not_intro rfl)]
  have hconnected : Proper [] .attemptConnected :=
    { goes := fun _ hmem => absurd hmem List.not_mem_nil
      inOrder := fun _ hleaves => absurd hleaves (Option.some_ne_none _).symm
      oneAtATime := fun _ heq => Entry.noConfusion heq
      streams := fun _ _ heq => Entry.noConfusion heq
      completes := fun heq => Entry.noConfusion heq }
  exact {
    told :=
      { proper := Each.nil.snoc hconnected
        order := rfl
        fresh := fun _ _ => rfl
        waiting := fun _ hmem => absurd hmem List.not_mem_nil
        uploading := fun _ hsome => absurd (hreply.symm.trans hsome) (Option.some_ne_none _).symm
        settled := fun _ hlt => absurd hlt (Nat.not_lt_zero _) }
    cut := rfl
    bounded := .inl (Nat.zero_le _)
    finished := fun hfalse => absurd hfalse Bool.false_ne_true
    shut := fun _ => rfl
    ceased := fun _ => hreply
    working := fun _ _ => ⟨rfl, rfl⟩ }

/-- Every utterance of an attempt is answered or dropped once, in order, and the attempt ends once. -/
structure AnsweredOnce (s : State) : Prop where
  /-- Each entry of the log follows those before it as it should: one upload at a time, in the order spoken, what makes
  way older than what is kept, the end last, and a completed attempt with its input finished and nothing open. -/
  proper : Each Proper s.log
  /-- Each utterance is answered or dropped, or uploads, or waits. -/
  stories : ∀ utterance, .closed utterance ∈ s.log → Settled utterance (storyOf utterance.number s.log) ∨
    s.reply = some utterance ∧ storyOf utterance.number s.log = [.closed utterance, .uploaded utterance] ∨
    utterance ∈ s.utterances ∧ storyOf utterance.number s.log = [.closed utterance]
  /-- What waits is within the limit, or a single utterance. -/
  bounded : Bounded s.utterances
  /-- While the attempt goes on, an upload is under way as long as one waits or the input has finished. -/
  working : s.ended = false → s.utterances ≠ [] ∨ s.inputFinished = true → s.reply ≠ none
  /-- The attempt ends at most once. -/
  endsOnce : s.log.countP Entry.ends ≤ 1

theorem Kept.answeredOnce {s : State} (h : Kept s) : AnsweredOnce s where
  proper := h.told.proper
  stories := fun utterance hclosed => by
    have hmem : .closed utterance ∈ storyOf utterance.number s.log := mem_storyOf.mpr ⟨hclosed, rfl⟩
    have hlt := h.told.lt_of_story (List.ne_nil_of_mem hmem)
    by_cases hwaiting : utterance.number ∈ s.utterances.map Utterance.number
    · obtain ⟨waiting, hin, hnumber⟩ := List.mem_map.mp hwaiting
      have hstory := h.told.waiting waiting hin
      rw [hnumber] at hstory
      rw [hstory] at hmem
      obtain rfl := Entry.closed.inj (List.mem_singleton.mp hmem)
      exact .inr (.inr ⟨hin, hstory⟩)
    · by_cases huploading : ∀ uploading, s.reply = some uploading → uploading.number ≠ utterance.number
      · obtain ⟨settled, -, hsettled⟩ := h.told.settled _ hlt hwaiting huploading
        exact .inl (hsettled.eq_of_closed hmem ▸ hsettled)
      · obtain ⟨uploading, hother⟩ := not_forall.mp huploading
        obtain ⟨hreply, hnumber⟩ := Classical.not_imp.mp hother
        rw [ne_eq, not_not] at hnumber
        have hstory := h.told.uploading uploading hreply
        rw [hnumber] at hstory
        rw [hstory] at hmem
        obtain rfl : utterance = uploading := by simpa using hmem
        exact .inr (.inl ⟨hreply, hstory⟩)
  bounded := h.bounded
  working := fun hgoing hwork hreply => by
    have hopen : Open s.log := by
      by_contra hover
      rw [ended_of_not_open hover] at hgoing
      exact Bool.noConfusion hgoing
    obtain ⟨hnone, hunfinished⟩ := h.working hopen hreply
    rcases hwork with hwork | hwork
    · exact hwork hnone
    · exact Bool.false_ne_true (hunfinished.symm.trans hwork)
  endsOnce := Each.countP_le_one (h.told.proper.mono fun _ _ hproper _ => hproper.goes)

/-- **An attempt answers every utterance once and in order**, as long as its caller heeds its failure. -/
theorem answered_once (before : State) {s : State} {attemptId : ℕ}
    (h : Reaches step Heeds (before.startAttempt attemptId true) s) : AnsweredOnce s :=
  (h.invariant (kept_start before attemptId) fun _ _ _ hheeds hkept hstep => kept_step hkept hheeds hstep).answeredOnce

/-- Two utterances; the first fails in a way that may pass, and the second is answered after the input finished. -/
def twoUtterances : List Event :=
  [.beginUtterance 1, .sendAudio 1 [0, 0], .endUtterance 1, .beginUtterance 1, .sendAudio 1 [1, 1], .endUtterance 1,
    .replyFinishes none {}, .replyFinishes (some 0) { error := some { kind := .network } }, .finishInput 1,
    .replyFinishes (some 1) { bodyText := some [] }]

theorem two_utterances_answered_once : ∃ s : State, AnsweredOnce s ∧ s.closed = 2 ∧ s.ended = true := by
  have hrun : Reaches step Heeds (State.startAttempt 1 true {}) _ :=
    Reaches.start.of_runs (show Reaches.runs _ _ _ twoUtterances = some _ from rfl)
  exact ⟨_, answered_once {} hrun, rfl, rfl⟩

/-- A refused key fails the attempt; the caller goes on with an utterance, and finishes the input. -/
def goesOn : List Event :=
  [.beginUtterance 1, .sendAudio 1 [0, 0], .endUtterance 1,
    .replyFinishes (some 0) { error := some { kind := .authentication, httpStatus := 401 } },
    .beginUtterance 1, .sendAudio 1 [1, 1], .endUtterance 1, .finishInput 1,
    .replyFinishes (some 1) { bodyText := some [] }]

/-- The attempt that failed uploads another utterance, and then completes. -/
theorem failed_goes_on : ∃ s : State, Reaches step (fun _ _ => True) (State.startAttempt 1 true {}) s ∧
    ¬ AnsweredOnce s :=
  ⟨_, Reaches.start.of_runs (show Reaches.runs _ _ _ goesOn = some _ from rfl),
    fun h => absurd h.endsOnce (by decide)⟩

end Speecher.EndpointSpeechTranscriber
