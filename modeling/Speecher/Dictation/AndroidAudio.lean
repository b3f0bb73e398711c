import Speecher.Dictation.AndroidEngine
import Speecher.Foundations.Runs

/-!
# What the phone hears is handed out

The chunks a dictation captures go to its streams in the order they were heard, each at most once, and no stream gets
one after it was told that the input ended. Where no stream fails or fails to open and the microphone does not fail, the
words are only committed once every chunk has been handed out.

`Accounted` says where the audio of a dictation is: handed out, held back for the stream that is opening, or heard after
a resume while the paused stream finishes. What ends a listening, to commit, to clean up or to fail, leaves it where it
is or drops it (`Settled`), and so does all that a stream can report (`Reported`).
-/

namespace Speecher.Android

/-! ## The audio in a history -/

namespace Effect

def isStart : Effect → Bool
  | .started => true
  | _ => false

/-- The chunk an effect takes from the microphone. -/
def heard : Effect → Option Chunk
  | .captured audio => some audio
  | _ => none

/-- The chunk an effect hands to a stream. -/
def handed : Effect → Option Chunk
  | .sent _ audio => some audio
  | _ => none

/-- The stream an effect hands a chunk to. -/
def client : Effect → Option ℕ
  | .sent opening _ => some opening
  | _ => none

/-- The words go to the field, or the dictation is reported done. -/
def commits : Effect → Bool
  | .commit _ _ _ _ => true
  | .committed _ => true
  | _ => false

/-- The effect has no bearing on the audio. -/
def quiet : Effect → Bool
  | .started => false
  | .captured _ => false
  | .sent _ _ => false
  | .ended _ => false
  | _ => true

end Effect

/-- The event reports a failure of its stream. -/
def SpeechEvent.fails : SpeechEvent → Bool
  | .failed _ _ => true
  | _ => false

/-- What happened in the dictation under way. -/
abbrev dictation (log : List Effect) : List Effect := since Effect.isStart log

def heardIn (history : List Effect) : List Chunk := history.filterMap Effect.heard

def handedIn (history : List Effect) : List Chunk := history.filterMap Effect.handed

theorem heardIn_append (history effects : List Effect) :
    heardIn (history ++ effects) = heardIn history ++ heardIn effects :=
  List.filterMap_append

theorem handedIn_append (history effects : List Effect) :
    handedIn (history ++ effects) = handedIn history ++ handedIn effects :=
  List.filterMap_append

/-- No stream is handed a chunk after it was told that the input ended. -/
def Unended (log : List Effect) : Prop := Each (fun before e => ∀ k audio, e = .sent k audio → .ended k ∉ before) log

/-- Effects with no bearing on the audio. -/
def Quiet (effects : List Effect) : Prop := ∀ e ∈ effects, e.quiet

namespace Quiet

variable {effects more : List Effect}

theorem nil : Quiet [] := fun _ he => absurd he List.not_mem_nil

theorem one {e : Effect} (h : e.quiet) : Quiet [e] := fun _ he => List.mem_singleton.mp he ▸ h

theorem append (h : Quiet effects) (hmore : Quiet more) : Quiet (effects ++ more) :=
  fun e he => (List.mem_append.mp he).elim (h e) (hmore e)

theorem heardIn (h : Quiet effects) : heardIn effects = [] := by
  refine List.filterMap_eq_nil_iff.mpr fun e he => ?_
  have hquiet := h e he
  cases e <;> first | rfl | cases hquiet

theorem handedIn (h : Quiet effects) : handedIn effects = [] := by
  refine List.filterMap_eq_nil_iff.mpr fun e he => ?_
  have hquiet := h e he
  cases e <;> first | rfl | cases hquiet

theorem dictation (h : Quiet effects) (log : List Effect) : dictation (log ++ effects) = dictation log ++ effects := by
  refine since_append _ (fun e he => ?_) log
  have hquiet := h e he
  cases e <;> first | rfl | cases hquiet

theorem client (h : Quiet effects) : effects.filterMap Effect.client = [] := by
  refine List.filterMap_eq_nil_iff.mpr fun e he => ?_
  have hquiet := h e he
  cases e <;> first | rfl | cases hquiet

theorem mem_append {log : List Effect} (h : Quiet effects) {e : Effect} (he : e.quiet = false) :
    e ∈ log ++ effects ↔ e ∈ log := by
  rw [List.mem_append, or_iff_left fun hmem => Bool.false_ne_true (he.symm.trans (h e hmem))]

theorem unended {log : List Effect} (h : Quiet effects) (hlog : Unended log) : Unended (log ++ effects) := by
  refine Each.append hlog fun before e after heffects k audio he => ?_
  have hquiet := h e (heffects ▸ List.mem_append_right before List.mem_cons_self)
  rw [he] at hquiet
  cases hquiet

end Quiet

namespace DictationEngine

variable {s s' s'' : DictationEngine}

/-! ## Ending a listening -/

/-- The dictation moved on to words that are committed, cleaned up or kept for a retry: its audio is where it was, or
dropped. -/
structure Settled (s s' : DictationEngine) : Prop where
  session : s'.session = s.session
  attempt : s'.attempt = s.attempt
  openings : s'.openings = s.openings
  connected : s'.connected = s.connected
  audio : s'.client = s.client ∧ s'.unsent = s.unsent ∧ s'.heardAfterResume = s.heardAfterResume ∨
    s'.client = none ∧ s'.unsent = [] ∧ s'.heardAfterResume = []
  quiet : ∃ effects, Quiet effects ∧ s'.log = s.log ++ effects

namespace Settled

theorem refl (s : DictationEngine) : Settled s s :=
  ⟨rfl, rfl, rfl, rfl, .inl ⟨rfl, rfl, rfl⟩, [], Quiet.nil, (List.append_nil _).symm⟩

theorem trans (h : Settled s s') (h' : Settled s' s'') : Settled s s'' where
  session := h'.session.trans h.session
  attempt := h'.attempt.trans h.attempt
  openings := h'.openings.trans h.openings
  connected := h'.connected.trans h.connected
  audio := by
    rcases h'.audio with ⟨hclient, hunsent, hheld⟩ | hdropped
    · rw [hclient, hunsent, hheld]
      exact h.audio
    · exact .inr hdropped
  quiet := by
    obtain ⟨effects, hquiet, hlog⟩ := h.quiet
    obtain ⟨more, hmore, hlog'⟩ := h'.quiet
    exact ⟨effects ++ more, hquiet.append hmore, by rw [hlog', hlog, List.append_assoc]⟩

theorem logged {e : Effect} (h : e.quiet) : Settled s (s.logged e) :=
  ⟨rfl, rfl, rfl, rfl, .inl ⟨rfl, rfl, rfl⟩, [e], Quiet.one h, rfl⟩

theorem addCleanup (provider : CleanupProvider) : Settled s (s.addCleanup provider) :=
  ⟨rfl, rfl, rfl, rfl, .inl ⟨rfl, rfl, rfl⟩, [], Quiet.nil, (List.append_nil _).symm⟩

theorem cancelSession : Settled s s.cancelSession where
  session := rfl
  attempt := rfl
  openings := rfl
  connected := rfl
  audio := .inr ⟨rfl, rfl, rfl⟩
  quiet := by
    refine ⟨_, ?_, rfl⟩
    split
    · exact Quiet.one rfl
    · exact Quiet.nil

end Settled

theorem Settled.turned {phase : Phase} (h : Settled { s with phase } s') : Settled s s' :=
  ⟨h.session, h.attempt, h.openings, h.connected, h.audio, h.quiet⟩

/-- The dictation is not listening. -/
def Moved (s : DictationEngine) : Prop := ∀ mic finishingPause, s.phase ≠ .listening mic finishingPause

theorem Moved.of_idle (h : s.phase = .idle) : s.Moved := fun _ _ hp => Phase.noConfusion (h.symm.trans hp)

theorem Moved.of_failed {retry : Retry} {raw : Text} (h : s.phase = .failed retry raw) : s.Moved :=
  fun _ _ hp => Phase.noConfusion (h.symm.trans hp)

theorem Moved.of_refining {request : ℕ} {cleanup : Option CleanupProvider} {raw : Text}
    (h : s.phase = .refining request cleanup raw) : s.Moved :=
  fun _ _ hp => Phase.noConfusion (h.symm.trans hp)

theorem settled_showFailure (raw : Text) (retry : Retry) :
    Settled s (s.showFailure raw retry) ∧ (s.showFailure raw retry).Moved :=
  ⟨Settled.cancelSession.trans ⟨rfl, rfl, rfl, rfl, .inl ⟨rfl, rfl, rfl⟩, [], Quiet.nil, (List.append_nil _).symm⟩,
    .of_failed rfl⟩

theorem settled_report (text : Text) : Settled s (s.report text) ∧ (s.report text).Moved :=
  ⟨⟨rfl, rfl, rfl, rfl, .inl ⟨rfl, rfl, rfl⟩, _, Quiet.one rfl, rfl⟩, .of_idle rfl⟩

theorem settled_commitTranscript (field : Field) (text : Text) :
    Settled s (s.commitTranscript field text) ∧ (s.commitTranscript field text).Moved := by
  rw [commitTranscript]
  split_ifs
  · exact settled_showFailure _ _
  · exact settled_report _
  · exact (settled_report text).imp_left (Settled.logged rfl).trans
  · exact (settled_showFailure text _).imp_left (Settled.logged rfl).trans

variable {u : Unicode} {v : Digits}

theorem Settled.prepare (field : Field) (raw : Text) : Settled s (s.prepare u field raw) :=
  ⟨rfl, rfl, rfl, rfl, .inl ⟨rfl, rfl, rfl⟩, [], Quiet.nil, (List.append_nil _).symm⟩

theorem settled_commitHeard (field : Field) (raw : Text) :
    Settled s (s.commitHeard u field raw) ∧ (s.commitHeard u field raw).Moved := by
  rw [commitHeard]
  exact (settled_commitTranscript field _).imp_left (Settled.prepare field raw).trans

theorem settled_refineTranscript (field : Field) (provider : CleanupProvider) (raw : Text) :
    Settled s (s.refineTranscript u field provider raw) ∧ (s.refineTranscript u field provider raw).Moved := by
  rw [refineTranscript]
  split_ifs
  · exact settled_commitHeard field raw
  · exact ⟨⟨rfl, rfl, rfl, rfl, .inl ⟨rfl, rfl, rfl⟩, [], Quiet.nil, (List.append_nil _).symm⟩, .of_refining rfl⟩

theorem settled_finish (field : Field) (cleanup : Option CleanupProvider) (text : Text) :
    Settled s (s.finish u field cleanup text) ∧ (s.finish u field cleanup text).Moved := by
  cases cleanup with
  | some provider =>
    rw [finish.eq_def]
    split_ifs
    · exact settled_commitHeard field text
    · exact settled_refineTranscript field provider text
  | none => exact settled_commitHeard field text

theorem settled_insertBest (transcribes : Bool) (field : Field) (cleanup : Option CleanupProvider) :
    Settled s (s.insertBest u transcribes field cleanup) ∧ (s.insertBest u transcribes field cleanup).Moved := by
  rw [insertBest]
  split_ifs
  · exact settled_finish field cleanup _
  · exact ⟨⟨rfl, rfl, rfl, rfl, .inl ⟨rfl, rfl, rfl⟩, [], Quiet.nil, (List.append_nil _).symm⟩, .of_refining rfl⟩

/-- A failure changes nothing, or settles the dictation. -/
theorem settled_fail (current : ℕ) (raw : Option Text) :
    s.fail current raw = s ∨ Settled s (s.fail current raw) ∧ (s.fail current raw).Moved := by
  rw [fail]
  split_ifs
  · exact .inl rfl
  · split
    · exact .inl rfl
    · exact .inl rfl
    · exact .inr (settled_showFailure _ _)
    · exact .inr (settled_showFailure _ _)

theorem settled_fail_listening {mic : Mic} {finishingPause : Bool} (h : s.phase = .listening mic finishingPause)
    (raw : Option Text) : Settled s (s.fail s.session raw) ∧ (s.fail s.session raw).Moved := by
  rw [fail, if_neg (not_not.mpr rfl), h]
  exact settled_showFailure _ _

/-! ## What a stream reports -/

/-- What was heard after a resume waits for the stream that finishes a pause. -/
def Resumed (s : DictationEngine) : Prop := ∀ mic, s.phase = .listening mic false → s.heardAfterResume = []

/-- Where the audio and the streams are after the current stream's report. -/
inductive Ends (fails : Bool) (s s' : DictationEngine) : Prop
  /-- The stream goes on. -/
  | kept (phase : s'.phase = s.phase) (client : s'.client = s.client) (unsent : s'.unsent = s.unsent)
      (held : s'.heardAfterResume = s.heardAfterResume) (attempt : s'.attempt = s.attempt)
      (openings : s'.openings = s.openings) (log : s'.log = s.log)
  /-- The dictation moved on; unless the stream failed, all that it heard was handed out. -/
  | moved (phase : s'.Moved) (audio : s'.client = s.client ∧ s'.unsent = s.unsent ∧
        s'.heardAfterResume = s.heardAfterResume ∨
      s'.client = none ∧ s'.unsent ++ s'.heardAfterResume = s.unsent ++ s.heardAfterResume ∨
      s'.client = none ∧ s'.unsent = [] ∧ s'.heardAfterResume = [])
      (attempt : s'.attempt = s.attempt) (openings : s'.openings = s.openings)
      (log : ∃ effects, Quiet effects ∧ s'.log = s.log ++ effects)
      (handed : fails = false → ¬ s.Moved ∧ s.unsent ++ s.heardAfterResume = [])
  /-- The dictation is paused, with no stream. -/
  | rests (phase : s'.phase = .listening .paused false) (client : s'.client = none)
      (unsent : s'.unsent = s.unsent ++ s.heardAfterResume) (held : s'.heardAfterResume = [])
      (attempt : s'.attempt = s.attempt) (openings : s'.openings = s.openings) (log : s'.log = s.log)
      (listening : ¬ s.Moved)
  /-- The next stream is to open. -/
  | reopened (client : s'.client = none) (audio : s'.phase = s.phase ∧ s'.unsent = s.unsent ∧
        s'.heardAfterResume = s.heardAfterResume ∨
      ¬ s'.Moved ∧ s'.unsent = s.unsent ++ s.heardAfterResume ∧ s'.heardAfterResume = [])
      (attempt : s'.attempt = s.attempt + 1) (openings : s'.openings = s.openings ++ [⟨s.session, s.attempt + 1⟩])
      (log : s'.log = s.log) (listening : fails = false → ¬ s.Moved)

theorem Ends.weaken {fails : Bool} (h : Ends false s s') : Ends fails s s' := by
  cases h with
  | kept phase client unsent held attempt openings log => exact .kept phase client unsent held attempt openings log
  | moved phase audio attempt openings log handed =>
    exact .moved phase audio attempt openings log fun _ => handed rfl
  | rests phase client unsent held attempt openings log listening =>
    exact .rests phase client unsent held attempt openings log listening
  | reopened client audio attempt openings log listening =>
    exact .reopened client audio attempt openings log fun _ => listening rfl

/-- No report makes audio held back appear from nowhere, or change its order. -/
theorem Ends.held {fails : Bool} (h : Ends fails s s') :
    (s'.unsent ++ s'.heardAfterResume).Sublist (s.unsent ++ s.heardAfterResume) := by
  cases h with
  | kept _ _ unsent held => rw [unsent, held]
  | moved _ audio =>
    rcases audio with ⟨_, hunsent, hheld⟩ | ⟨_, hsame⟩ | ⟨_, hunsent, hheld⟩
    · rw [hunsent, hheld]
    · rw [hsame]
    · rw [hunsent, hheld]
      exact List.nil_sublist _
  | rests _ _ unsent held => rw [unsent, held, List.append_nil]
  | reopened _ audio =>
    rcases audio with ⟨_, hunsent, hheld⟩ | ⟨_, hunsent, hheld⟩
    · rw [hunsent, hheld]
    · rw [hunsent, hheld, List.append_nil]

/-- A client stays while its stream is the one waited on, with the audio held back as it was. -/
theorem Ends.client {fails : Bool} (h : Ends fails s s') :
    s'.client = none ∨ s'.client = s.client ∧ s'.unsent = s.unsent ∧ s'.attempt = s.attempt ∧
      (s'.phase = s.phase ∨ s'.Moved) := by
  cases h with
  | kept phase client unsent _ attempt => exact .inr ⟨client, unsent, attempt, .inl phase⟩
  | moved phase audio attempt =>
    rcases audio with ⟨hclient, hunsent, _⟩ | ⟨hclient, _⟩ | ⟨hclient, _⟩
    · exact .inr ⟨hclient, hunsent, attempt, .inr phase⟩
    · exact .inl hclient
    · exact .inl hclient
  | rests _ client => exact .inl client
  | reopened client => exact .inl client

/-- The streams still to open are the ones that were, and the next one where the stream is replaced. -/
theorem Ends.openings {fails : Bool} (h : Ends fails s s') : s'.attempt = s.attempt ∧ s'.openings = s.openings ∨
    s'.attempt = s.attempt + 1 ∧ s'.openings = s.openings ++ [⟨s.session, s.attempt + 1⟩] := by
  cases h with
  | kept _ _ _ _ attempt openings => exact .inl ⟨attempt, openings⟩
  | moved _ _ attempt openings => exact .inl ⟨attempt, openings⟩
  | rests _ _ _ _ attempt openings => exact .inl ⟨attempt, openings⟩
  | reopened _ _ attempt openings => exact .inr ⟨attempt, openings⟩

theorem Ends.quiet {fails : Bool} (h : Ends fails s s') : ∃ effects, Quiet effects ∧ s'.log = s.log ++ effects := by
  have hsame : s'.log = s.log → ∃ effects, Quiet effects ∧ s'.log = s.log ++ effects :=
    fun hlog => ⟨[], Quiet.nil, by rw [hlog, List.append_nil]⟩
  cases h with
  | kept _ _ _ _ _ _ log => exact hsame log
  | moved _ _ _ _ log => exact log
  | rests _ _ _ _ _ _ log => exact hsame log
  | reopened _ _ _ _ log => exact hsame log

/-- What the report of a stream does to the audio and the streams; `fails` when it reports a failure. -/
structure Reported (fails : Bool) (s s' : DictationEngine) : Prop where
  session : s'.session = s.session
  connected : s'.connected = s.connected
  ends : Ends fails s s'

variable {transcribes : Bool} {field : Field} {mic : Mic} {finishingPause fails : Bool}

theorem Reported.settled (h : Settled s s' ∧ s'.Moved)
    (hhanded : fails = false → ¬ s.Moved ∧ s.unsent ++ s.heardAfterResume = []) : Reported fails s s' :=
  ⟨h.1.session, h.1.connected, .moved h.2 (h.1.audio.imp_right .inr) h.1.attempt h.1.openings h.1.quiet hhanded⟩

theorem not_moved (h : s.phase = .listening mic finishingPause) : ¬ s.Moved := fun hmoved => hmoved _ _ h

theorem reported_reopen (h : s.phase = .listening mic finishingPause) : Reported fails s (s.reopen s.session) :=
  ⟨rfl, rfl, .reopened rfl (.inl ⟨rfl, rfl, rfl⟩) rfl rfl rfl fun _ => not_moved h⟩

/-- The engine as its paused stream ended, with all that was heard held back for the next one. -/
def regrouped (s : DictationEngine) (phase : Phase) : DictationEngine :=
  { s with phase, client := none, unsent := s.unsent ++ s.heardAfterResume, heardAfterResume := [] }

theorem Reported.regrouped (phase : Phase) (h : Settled (s.regrouped phase) s' ∧ s'.Moved)
    (hhanded : fails = false → ¬ s.Moved ∧ s.unsent ++ s.heardAfterResume = []) : Reported fails s s' := by
  refine ⟨h.1.session, h.1.connected, .moved h.2 ?_ h.1.attempt h.1.openings h.1.quiet hhanded⟩
  rcases h.1.audio with ⟨hclient, hunsent, hheld⟩ | hdropped
  · refine .inr (.inl ⟨hclient, ?_⟩)
    rw [hunsent, hheld]
    exact List.append_nil _
  · exact .inr (.inr hdropped)

theorem reported_pausedStreamEnded (h : s.phase = .listening mic true) (openFailed : Bool) :
    Reported openFailed s (s.pausedStreamEnded u transcribes field s.session mic openFailed) := by
  simp only [pausedStreamEnded]
  split
  · exact ⟨rfl, rfl, .reopened rfl (.inr ⟨not_moved h, rfl, rfl⟩) rfl rfl rfl fun _ => not_moved h⟩
  · rename_i hheld
    cases mic with
    | on => exact ⟨rfl, rfl, .reopened rfl (.inr ⟨not_moved rfl, rfl, rfl⟩) rfl rfl rfl fun _ => not_moved h⟩
    | paused => exact ⟨rfl, rfl, .rests rfl rfl rfl rfl rfl rfl rfl (not_moved h)⟩
    | stopped cleanup =>
      -- an Insert goes ahead only with nothing held back, or fails
      have hhanded : openFailed = false → ¬ s.Moved ∧ s.unsent ++ s.heardAfterResume = [] :=
        fun hopen => ⟨not_moved h, not_not.mp fun hne => hheld ⟨hopen, nofun, hne⟩⟩
      simp only
      split_ifs
      · exact .regrouped s.phase (settled_fail_listening (s := s.regrouped s.phase) h none) hhanded
      · exact .regrouped _ (settled_insertBest transcribes field cleanup) hhanded

theorem reported_streamFailed (h : s.phase = .listening mic finishingPause) (retryable : Bool)
    (kind : ProviderFailureKind) :
    Reported true s (s.streamFailed u transcribes field s.session mic retryable kind) := by
  cases mic with
  | stopped cleanup =>
    simp only [streamFailed]
    split_ifs
    · exact .settled (settled_insertBest transcribes field cleanup) nofun
    · exact .settled (settled_fail_listening h none) nofun
  | on =>
    simp only [streamFailed]
    split_ifs
    · exact ⟨rfl, rfl, .reopened rfl (.inl ⟨rfl, rfl, rfl⟩) rfl rfl rfl fun _ => not_moved h⟩
    · exact .settled (settled_fail_listening h none) nofun
  | paused => exact .settled (settled_fail_listening h none) nofun

theorem listeningTo_eq_some {current opening : ℕ} : s.listeningTo current opening = some (mic, finishingPause) ↔
    s.phase = .listening mic finishingPause ∧ current = s.session ∧ opening = s.attempt := by
  rw [listeningTo]
  split
  · rename_i hphase
    rw [Option.ite_none_right_eq_some, Option.some.injEq, Prod.mk.injEq, hphase, Phase.listening.injEq, and_comm]
  · rename_i hphase
    exact ⟨nofun, fun h => absurd h.1 (hphase _ _)⟩

/-- **All that a report does to the audio**; `hdone` asks for the audio a stopped microphone heard to have been handed
out before the stream completes. -/
theorem reported_onSpeech (hresumed : s.Resumed) (current opening : ℕ) (event : SpeechEvent)
    (hdone : event = .completed → ∀ cleanup, s.listeningTo current opening = some (.stopped cleanup, false) →
      s.unsent = []) :
    Reported event.fails s (s.onSpeech u transcribes field current opening event) := by
  rw [onSpeech]
  split
  · exact ⟨rfl, rfl, .kept rfl rfl rfl rfl rfl rfl rfl⟩
  · rename_i mic finishingPause hlistening
    obtain ⟨hphase, rfl, rfl⟩ := listeningTo_eq_some.mp hlistening
    cases event with
    | connected => exact ⟨rfl, rfl, .kept rfl rfl rfl rfl rfl rfl rfl⟩
    | interim text => exact ⟨rfl, rfl, .kept rfl rfl rfl rfl rfl rfl rfl⟩
    | final text => exact ⟨rfl, rfl, .kept rfl rfl rfl rfl rfl rfl rfl⟩
    | completed =>
      cases finishingPause with
      | true => exact reported_pausedStreamEnded hphase false
      | false =>
        cases mic with
        | on => exact reported_reopen hphase
        | paused => exact ⟨rfl, rfl, .kept rfl rfl rfl rfl rfl rfl rfl⟩
        | stopped cleanup =>
          refine .settled (settled_insertBest transcribes field cleanup) fun _ => ⟨not_moved hphase, ?_⟩
          rw [hdone rfl cleanup hlistening, hresumed _ hphase]
          rfl
    | failed kind retryable =>
      simp only
      split_ifs with hheld hpause
      · exact .settled (settled_fail_listening hphase none) fun h : true = false => nomatch h
      · subst hpause
        have h : Reported false s (s.pausedStreamEnded u transcribes field s.session mic false) :=
          reported_pausedStreamEnded hphase false
        exact ⟨h.session, h.connected, h.ends.weaken⟩
      · exact reported_streamFailed hphase retryable kind

/-! ## Where the audio is -/

/-- The number of an opening that is still to come. -/
def pending (s : DictationEngine) : List ℕ := s.openings.map Opening.opening

/-- Every chunk a dictation heard was handed out, once and in order, is held back, in order, or was dropped; and the
streams keep apart. -/
structure Accounted (s : DictationEngine) : Prop where
  order : (handedIn (dictation s.log) ++ (s.unsent ++ s.heardAfterResume)).Sublist (heardIn (dictation s.log))
  resumed : s.Resumed
  pending_le : ∀ k ∈ s.pending, k ≤ s.attempt
  distinct : s.pending.Nodup
  connected_le : ∀ o ∈ s.connected, o.opening ≤ s.attempt
  client : ∀ k, s.client = some k → k = s.attempt ∧ k ∉ s.pending ∧ ⟨s.session, k⟩ ∈ s.connected
  ended : ∀ k, .ended k ∈ s.log → k ≤ s.attempt ∧ k ∉ s.pending
  sent : ∀ k audio, .sent k audio ∈ s.log → k ≤ s.attempt
  /-- A client told that the input ended is handed nothing more. -/
  told : ∀ k, s.client = some k → .ended k ∈ s.log → s.phase ≠ .listening .on false
  /-- A stream that is open and is waited on has its client, or the dictation rests. -/
  awaited : ∀ mic finishingPause, s.phase = .listening mic finishingPause → s.client = none →
    ⟨s.session, s.attempt⟩ ∈ s.connected → mic = .paused ∧ finishingPause = false
  unended : Unended s.log
  successive : (s.log.filterMap Effect.client).Pairwise (· ≤ ·)

namespace Accounted

theorem reported (h : Accounted s) (hreported : Reported fails s s') : Accounted s' := by
  obtain ⟨hsession, hconnected, hends⟩ := hreported
  obtain ⟨effects, hquiet, hlog⟩ := hends.quiet
  have hattempt : s.attempt ≤ s'.attempt := by rcases hends.openings with ⟨h, _⟩ | ⟨h, _⟩ <;> omega
  have hpending : ∀ k ∈ s'.pending, k ≤ s.attempt → k ∈ s.pending := by
    intro k hk hle
    rcases hends.openings with ⟨_, hopenings⟩ | ⟨_, hopenings⟩
    · rwa [pending, hopenings] at hk
    · rw [pending, hopenings, List.map_append, List.mem_append] at hk
      rcases hk with hk | hk
      · exact hk
      · have hnext : k = s.attempt + 1 := List.mem_singleton.mp hk
        omega
  have hmem : ∀ k, Effect.ended k ∈ s'.log → Effect.ended k ∈ s.log :=
    fun k hk => (hquiet.mem_append rfl).mp (hlog ▸ hk)
  exact {
    order := by
      rw [hlog, hquiet.dictation, handedIn_append, heardIn_append, hquiet.handedIn, hquiet.heardIn, List.append_nil,
        List.append_nil]
      exact (hends.held.append_left _).trans h.order
    resumed := by
      intro mic hphase
      cases hends with
      | kept phase _ _ held =>
        rw [held]
        exact h.resumed mic (phase ▸ hphase)
      | moved phase => exact absurd hphase (phase _ _)
      | rests _ _ _ held => exact held
      | reopened _ audio =>
        rcases audio with ⟨hsame, _, hheld⟩ | ⟨_, _, hheld⟩
        · rw [hheld]
          exact h.resumed mic (hsame ▸ hphase)
        · exact hheld
    pending_le := by
      intro k hk
      rcases hends.openings with ⟨heq, hopenings⟩ | ⟨heq, hopenings⟩
      · rw [heq]
        exact h.pending_le k (by rwa [pending, hopenings] at hk)
      · rw [pending, hopenings, List.map_append, List.mem_append] at hk
        rcases hk with hk | hk
        · exact (h.pending_le k hk).trans hattempt
        · exact heq ▸ (List.mem_singleton.mp hk).le
    distinct := by
      rcases hends.openings with ⟨_, hopenings⟩ | ⟨_, hopenings⟩
      · rw [pending, hopenings]
        exact h.distinct
      · rw [pending, hopenings, List.map_append]
        refine h.distinct.append (List.nodup_singleton _) fun k hk hlast => ?_
        have hle := h.pending_le k hk
        have hnext : k = s.attempt + 1 := List.mem_singleton.mp hlast
        omega
    connected_le := fun o ho => (h.connected_le o (hconnected ▸ ho)).trans hattempt
    client := by
      intro k hk
      rcases hends.client with hnone | ⟨hclient, _, heq, _⟩
      · rw [hnone] at hk
        cases hk
      · obtain ⟨hk', hnot, hopen⟩ := h.client k (hclient ▸ hk)
        exact ⟨hk'.trans heq.symm, fun hmem => hnot (hpending k hmem hk'.le), by rwa [hsession, hconnected]⟩
    ended := by
      intro k hk
      obtain ⟨hle, hnot⟩ := h.ended k (hmem k hk)
      exact ⟨hle.trans hattempt, fun hmem => hnot (hpending k hmem hle)⟩
    sent := fun k audio hk => (h.sent k audio ((hquiet.mem_append rfl).mp (hlog ▸ hk))).trans hattempt
    told := by
      intro k hk hended
      rcases hends.client with hnone | ⟨hclient, _, _, hphase⟩
      · rw [hnone] at hk
        cases hk
      · rcases hphase with hphase | hmoved
        · rw [hphase]
          exact h.told k (hclient ▸ hk) (hmem k hended)
        · exact hmoved _ _
    awaited := by
      intro mic finishingPause hphase hclient hopen
      rw [hsession, hconnected] at hopen
      cases hends with
      | kept phase client _ _ attempt =>
        exact h.awaited mic finishingPause (phase ▸ hphase) (client ▸ hclient) (attempt ▸ hopen)
      | moved phase => exact absurd hphase (phase _ _)
      | rests phase =>
        cases phase.symm.trans hphase
        exact ⟨rfl, rfl⟩
      | reopened _ _ attempt =>
        have hle : s'.attempt ≤ s.attempt := h.connected_le _ hopen
        omega
    unended := hlog ▸ hquiet.unended h.unended
    successive := by
      rw [hlog, List.filterMap_append, hquiet.client, List.append_nil]
      exact h.successive }

end Accounted

/-- A client that is open has nothing held back from it. -/
def HandedOut (s : DictationEngine) : Prop := s.client ≠ none → s.unsent = []

theorem HandedOut.reported (h : s.HandedOut) (hreported : Reported fails s s') : s'.HandedOut := by
  intro hclient
  rcases hreported.ends.client with hnone | ⟨hsame, hunsent, _⟩
  · exact absurd hnone hclient
  · rw [hunsent]
    exact h (hsame ▸ hclient)

/-- Before a stopped microphone's stream completes, all that was held back has been handed to it. -/
theorem Accounted.handed (h : Accounted s) (hout : s.HandedOut) {o : Opening} (hopen : o ∈ s.connected)
    {cleanup : Option CleanupProvider} (hlistening : s.listeningTo o.session o.opening = some (.stopped cleanup, false)) :
    s.unsent = [] := by
  obtain ⟨hphase, hsession, hattempt⟩ := listeningTo_eq_some.mp hlistening
  have hcurrent : (⟨s.session, s.attempt⟩ : Opening) ∈ s.connected := by rwa [← hsession, ← hattempt]
  exact hout fun hclient => nomatch (h.awaited _ _ hphase hclient hcurrent).1

/-- All that the dictation heard was handed out before its words are committed. -/
structure AllHanded (s : DictationEngine) : Prop where
  listening : ¬ s.Moved → heardIn (dictation s.log) = handedIn (dictation s.log) ++ (s.unsent ++ s.heardAfterResume)
  ready : s.Moved → s.phase ≠ .idle → heardIn (dictation s.log) = handedIn (dictation s.log)
  commits : Each (fun before e => e.commits → heardIn before = handedIn before) (dictation s.log)

theorem AllHanded.moved (h : AllHanded s) (hall : heardIn (dictation s.log) = handedIn (dictation s.log))
    {effects : List Effect} (hquiet : Quiet effects) (hlog : s'.log = s.log ++ effects) (hmoved : s'.Moved) :
    AllHanded s' := by
  have hkept : ∀ before after, effects = before ++ after →
      heardIn (dictation s.log ++ before) = handedIn (dictation s.log ++ before) := by
    intro before after heffects
    have hbefore : Quiet before := fun e he => hquiet e (heffects ▸ List.mem_append_left after he)
    rw [heardIn_append, handedIn_append, hbefore.heardIn, hbefore.handedIn, hall]
  exact {
    listening := fun hnot => absurd hmoved hnot
    ready := fun _ _ => by
      rw [hlog, hquiet.dictation]
      exact hkept effects [] (List.append_nil _).symm
    commits := by
      rw [hlog, hquiet.dictation]
      exact h.commits.append fun before e after heffects _ => hkept before (e :: after) heffects }

theorem AllHanded.reported (h : AllHanded s) (hreported : Reported false s s') : AllHanded s' := by
  cases hreported.ends with
  | kept phase _ unsent held _ _ log =>
    have hmoved : s'.Moved ↔ s.Moved := by rw [Moved, Moved, phase]
    exact {
      listening := fun hnot => by
        rw [log, unsent, held]
        exact h.listening fun hm => hnot (hmoved.mpr hm)
      ready := fun hm hidle => by
        rw [log]
        exact h.ready (hmoved.mp hm) (phase ▸ hidle)
      commits := by
        rw [log]
        exact h.commits }
  | moved phase _ _ _ log handed =>
    obtain ⟨effects, hquiet, hlog⟩ := log
    obtain ⟨hnot, hheld⟩ := handed rfl
    refine h.moved ?_ hquiet hlog phase
    rw [h.listening hnot, hheld, List.append_nil]
  | rests phase _ unsent held _ _ log listening =>
    exact {
      listening := fun _ => by
        rw [log, unsent, held, List.append_nil]
        exact h.listening listening
      ready := fun hm => absurd hm (not_moved phase)
      commits := by
        rw [log]
        exact h.commits }
  | reopened _ audio _ _ log listening =>
    have hlistening := listening rfl
    have hstill : ¬ s'.Moved ∧ s'.unsent ++ s'.heardAfterResume = s.unsent ++ s.heardAfterResume := by
      rcases audio with ⟨hphase, hunsent, hheld⟩ | ⟨hnot, hunsent, hheld⟩
      · exact ⟨fun hm => hlistening fun mic finishingPause hp => hm mic finishingPause (hphase.trans hp), by
          rw [hunsent, hheld]⟩
      · exact ⟨hnot, by rw [hunsent, hheld, List.append_nil]⟩
    exact {
      listening := fun _ => by
        rw [log, hstill.2]
        exact h.listening hlistening
      ready := fun hm => absurd hm hstill.1
      commits := by
        rw [log]
        exact h.commits }

/-- What holds of the audio after each event; of a `smooth` dictation, in which nothing fails, also that it is all handed
out. -/
structure Tracked (smooth : Bool) (s : DictationEngine) : Prop where
  accounted : Accounted s
  handedOut : s.HandedOut
  allHanded : smooth = true → AllHanded s

namespace Tracked

variable {smooth : Bool}

theorem reported (h : Tracked smooth s) (hreported : Reported fails s s') (hfails : smooth = true → fails = false) :
    Tracked smooth s' where
  accounted := h.accounted.reported hreported
  handedOut := h.handedOut.reported hreported
  allHanded := by
    intro hsmooth
    obtain rfl := hfails hsmooth
    exact (h.allHanded hsmooth).reported hreported

variable (u transcribes field) in
theorem onSpeech (h : Tracked smooth s) {o : Opening} (hopen : o ∈ s.connected) (event : SpeechEvent)
    (hfails : smooth = true → event.fails = false) :
    Tracked smooth (s.onSpeech u transcribes field o.session o.opening event) ∧
      (s.onSpeech u transcribes field o.session o.opening event).connected = s.connected := by
  have hreported : Reported event.fails s (s.onSpeech u transcribes field o.session o.opening event) :=
    reported_onSpeech h.accounted.resumed o.session o.opening event fun _ _ => h.accounted.handed h.handedOut hopen
  exact ⟨h.reported hreported hfails, hreported.connected⟩

theorem emit (h : Tracked smooth s) {o : Opening} (hopen : o ∈ s.connected) (events : List SpeechEvent)
    (hfails : smooth = true → ∀ event ∈ events, event.fails = false) :
    Tracked smooth (s.emit u transcribes field o.session o.opening events) := by
  induction events generalizing s with
  | nil => exact h
  | cons event events ih =>
    obtain ⟨htracked, hconnected⟩ := h.onSpeech u transcribes field hopen event
      fun hsmooth => hfails hsmooth event List.mem_cons_self
    exact ih htracked (hconnected ▸ hopen) fun hsmooth e he => hfails hsmooth e (List.mem_cons_of_mem event he)

end Tracked

/-! ## Handing audio out -/

theorem dictation_snoc {log : List Effect} {e : Effect} (h : e.isStart = false) :
    dictation (log ++ [e]) = dictation log ++ [e] := by
  rw [dictation, since_snoc, h, if_neg Bool.false_ne_true]

/-- An effect on the audio: what is held back afterwards is what was, with what the effect takes from the microphone and
without what it hands out. -/
theorem Accounted.logs (h : Accounted s) {e : Effect} (hstart : e.isStart = false) {unsent held : List Chunk}
    (haudio : handedIn [e] ++ (unsent ++ held) = s.unsent ++ s.heardAfterResume ++ heardIn [e])
    (hresumed : ∀ mic, s.phase = .listening mic false → held = [])
    (hended : ∀ k, e = .ended k → s.client = some k ∧ s.phase ≠ .listening .on false)
    (hsent : ∀ k audio, e = .sent k audio → k = s.attempt ∧ .ended k ∉ s.log) :
    Accounted ({ s with unsent, heardAfterResume := held }.logged e) where
  order := by
    rw [logged, dictation_snoc hstart, handedIn_append, heardIn_append, List.append_assoc]
    simp only [haudio]
    rw [← List.append_assoc]
    exact h.order.append_right _
  resumed := hresumed
  pending_le := h.pending_le
  distinct := h.distinct
  connected_le := h.connected_le
  client := h.client
  ended := by
    intro k hk
    rcases List.mem_append.mp hk with hk | hk
    · exact h.ended k hk
    · obtain ⟨hattempt, hpending, _⟩ := h.client k (hended k (List.mem_singleton.mp hk).symm).1
      exact ⟨hattempt.le, hpending⟩
  sent := by
    intro k audio hk
    rcases List.mem_append.mp hk with hk | hk
    · exact h.sent k audio hk
    · exact (hsent k audio (List.mem_singleton.mp hk).symm).1.le
  told := by
    intro k hclient hk
    rcases List.mem_append.mp hk with hk | hk
    · exact h.told k hclient hk
    · exact (hended k (List.mem_singleton.mp hk).symm).2
  awaited := h.awaited
  unended := Each.snoc h.unended fun k audio he => (hsent k audio he).2
  successive := by
    rw [logged, List.filterMap_append]
    refine List.pairwise_append.mpr ⟨h.successive, ?_, fun j hj k hk => ?_⟩
    · cases e <;> first | exact List.Pairwise.nil | exact List.pairwise_singleton _ _
    · obtain ⟨before, hbefore, hjclient⟩ := List.mem_filterMap.mp hj
      obtain ⟨last, hlast, hkclient⟩ := List.mem_filterMap.mp hk
      obtain rfl := List.mem_singleton.mp hlast
      cases before with
      | sent _ audio =>
        cases last with
        | sent _ audio' =>
          obtain rfl := Option.some.inj hjclient
          obtain rfl := Option.some.inj hkclient
          exact (h.sent _ audio hbefore).trans (hsent _ audio' rfl).1.ge
        | _ => cases hkclient
      | _ => cases hjclient

theorem AllHanded.logs (h : AllHanded s) (hnot : ¬ s.Moved) {e : Effect} (hstart : e.isStart = false)
    (hcommits : e.commits = false) {unsent held : List Chunk}
    (haudio : handedIn [e] ++ (unsent ++ held) = s.unsent ++ s.heardAfterResume ++ heardIn [e]) :
    AllHanded ({ s with unsent, heardAfterResume := held }.logged e) where
  listening _ := by
    change heardIn (dictation (s.log ++ [e])) = handedIn (dictation (s.log ++ [e])) ++ (unsent ++ held)
    rw [dictation_snoc hstart, handedIn_append, heardIn_append, h.listening hnot, List.append_assoc, ← haudio,
      ← List.append_assoc]
  ready hm := absurd hm hnot
  commits := by
    rw [logged, dictation_snoc hstart]
    exact h.commits.snoc fun he => absurd (hcommits.symm.trans he) Bool.false_ne_true

namespace Tracked

variable {smooth : Bool}

theorem endInput (h : Tracked smooth s) (hphase : s.phase ≠ .listening .on false) (hnot : smooth = true → ¬ s.Moved)
    (events : List SpeechEvent) (hfails : smooth = true → ∀ event ∈ events, event.fails = false) :
    Tracked smooth (s.endInput u transcribes field events) := by
  rw [DictationEngine.endInput]
  split
  · exact h
  · rename_i opening hclient
    have htold : Tracked smooth (s.logged (.ended opening)) := {
      accounted := h.accounted.logs rfl (List.append_nil _).symm h.accounted.resumed
        (fun k hk => ⟨Effect.ended.inj hk ▸ hclient, hphase⟩) nofun
      handedOut := h.handedOut
      allHanded := fun hsmooth => (h.allHanded hsmooth).logs (hnot hsmooth) rfl rfl (List.append_nil _).symm }
    exact htold.emit (h.accounted.client opening hclient).2.2 events hfails

end Tracked

/-- Handing the first chunk held back to the open client. -/
theorem Accounted.sends (h : Accounted s) {opening : ℕ} (hclient : s.client = some opening)
    (hended : .ended opening ∉ s.log) {audio : Chunk} {rest : List Chunk} (hunsent : s.unsent = audio :: rest) :
    Accounted ({ s with unsent := rest }.logged (.sent opening audio)) := by
  refine h.logs rfl ?_ h.resumed nofun fun k a he => ?_
  · rw [hunsent]
    exact (List.append_nil _).symm
  · obtain ⟨rfl, _⟩ := Effect.sent.inj he
    exact ⟨(h.client _ hclient).1, hended⟩

theorem AllHanded.sends (h : AllHanded s) (hnot : ¬ s.Moved) (opening : ℕ) {audio : Chunk} {rest : List Chunk}
    (hunsent : s.unsent = audio :: rest) : AllHanded ({ s with unsent := rest }.logged (.sent opening audio)) := by
  refine h.logs hnot rfl rfl ?_
  rw [hunsent]
  exact (List.append_nil _).symm

theorem reported_sendAudio (hresumed : s.Resumed) (current opening : ℕ) (audio : Chunk) (failure : StreamFailure) :
    Reported true (s.logged (.sent opening audio))
      (s.sendAudio u transcribes field current opening audio (some failure)) :=
  reported_onSpeech (s := s.logged (.sent opening audio)) hresumed current opening
    (.failed failure.kind failure.retryable) nofun

/-- The audio held back was handed out to a client, which is gone or stays with the dictation as it was. -/
structure HandsOut (smooth : Bool) (before : Phase) (s : DictationEngine) : Prop where
  tracked : Tracked smooth s
  phase : s.client = none ∨ s.phase = before ∨ s.Moved
  listening : smooth = true → ¬ s.Moved

theorem handUnsent_of_client {o : Opening} (h : s.client ≠ some o.opening) (n : ℕ)
    (failures : List (Option StreamFailure)) :
    handUnsent u transcribes field o.session o.opening n failures s = s := by
  cases n with
  | zero => rfl
  | succ n =>
    rw [handUnsent]
    split
    · rfl
    · rw [if_neg h]

variable (u transcribes field) in
/-- Handing out the audio held back, chunk by chunk, until there is none or the client is gone. -/
theorem handsOut {smooth : Bool} {o : Opening} (n : ℕ) (failures : List (Option StreamFailure)) (h : Accounted s)
    (hclient : s.client = some o.opening) (hn : s.unsent.length ≤ n) (hended : .ended o.opening ∉ s.log)
    (hall : smooth = true → ¬ s.Moved ∧ AllHanded s ∧ ∀ failure ∈ failures, failure = none) :
    HandsOut smooth s.phase (handUnsent u transcribes field o.session o.opening n failures s) := by
  induction n generalizing s failures with
  | zero =>
    have hunsent := List.length_eq_zero_iff.mp (Nat.le_zero.mp hn)
    exact ⟨⟨h, fun _ => hunsent, fun hsmooth => (hall hsmooth).2.1⟩, .inr (.inl rfl), fun hsmooth => (hall hsmooth).1⟩
  | succ n ih =>
    rw [handUnsent]
    split
    · rename_i hunsent
      exact ⟨⟨h, fun _ => hunsent, fun hsmooth => (hall hsmooth).2.1⟩, .inr (.inl rfl),
        fun hsmooth => (hall hsmooth).1⟩
    · rename_i audio rest hunsent
      rw [if_pos hclient]
      have hsent := h.sends hclient hended hunsent
      have hrest : rest.length ≤ n := by
        rw [hunsent, List.length_cons] at hn
        omega
      have hmem : Effect.ended o.opening ∉ s.log ++ [.sent o.opening audio] :=
        fun hmem => hended ((List.mem_append.mp hmem).resolve_right (by simp))
      cases hfailure : failures.headD none with
      | none =>
        refine ih failures.tail hsent hclient hrest hmem fun hsmooth => ?_
        obtain ⟨hnot, hhanded, hnone⟩ := hall hsmooth
        exact ⟨hnot, hhanded.sends hnot o.opening hunsent, fun failure hf => hnone failure (List.mem_of_mem_tail hf)⟩
      | some failure =>
        -- the client failed: the dictation goes on without it, or stays with it as it moved on
        have hrough : smooth = true → False := by
          intro hsmooth
          cases failures with
          | nil => cases hfailure
          | cons first _ => cases ((hall hsmooth).2.2 first List.mem_cons_self).symm.trans hfailure
        have hreported : Reported true ({ s with unsent := rest }.logged (.sent o.opening audio))
            ({ s with unsent := rest }.sendAudio u transcribes field o.session o.opening audio (some failure)) :=
          reported_sendAudio (s := { s with unsent := rest }) h.resumed o.session o.opening audio failure
        have haccounted := hsent.reported hreported
        obtain ⟨effects, hquiet, hlog⟩ := hreported.ends.quiet
        rcases hreported.ends.client with hnone | ⟨hsame, hunsent', _, hphase⟩
        · rw [handUnsent_of_client (by rw [hnone]; exact nofun)]
          exact ⟨⟨haccounted, fun hne => absurd hnone hne, fun hsmooth => (hrough hsmooth).elim⟩, .inl hnone,
            fun hsmooth => (hrough hsmooth).elim⟩
        · have hnext := ih failures.tail haccounted (hsame.trans hclient) (by rw [hunsent']; exact hrest)
            (fun hend => hmem ((hquiet.mem_append rfl).mp (hlog ▸ hend))) fun hsmooth => (hrough hsmooth).elim
          refine ⟨hnext.tracked, ?_, hnext.listening⟩
          rcases hnext.phase with hnone | hsame' | hmoved
          · exact .inl hnone
          · rcases hphase with hphase | hmoved
            · exact .inr (.inl (hsame'.trans hphase))
            · exact .inr (.inr fun mic finishingPause hp => hmoved mic finishingPause (hsame'.symm.trans hp))
          · exact .inr (.inr hmoved)

theorem mem_pending_taken {o : Opening} {k : ℕ} (h : k ∈ (s.taken o).pending) : k ∈ s.pending :=
  (List.filter_sublist.map Opening.opening).subset h

/-- The opening that left the queue is not pending any more: its number is its own. -/
theorem not_mem_pending_taken (h : s.pending.Nodup) {o : Opening} (ho : o ∈ s.openings) :
    o.opening ∉ (s.taken o).pending := by
  intro hmem
  obtain ⟨o', ho', hsame⟩ := List.mem_map.mp hmem
  obtain ⟨hin, hne⟩ := List.mem_filter.mp ho'
  exact of_decide_eq_true hne (List.inj_on_of_nodup_map h hin ho hsame)

theorem Accounted.taken (h : Accounted s) (o : Opening) : Accounted (s.taken o) where
  order := h.order
  resumed := h.resumed
  pending_le := fun k hk => h.pending_le k (mem_pending_taken hk)
  distinct := h.distinct.sublist (List.filter_sublist.map Opening.opening)
  connected_le := h.connected_le
  client := fun k hk => (h.client k hk).imp_right fun hp => ⟨fun hk => hp.1 (mem_pending_taken hk), hp.2⟩
  ended := fun k hk => (h.ended k hk).imp_right fun hp hk => hp (mem_pending_taken hk)
  sent := h.sent
  told := h.told
  awaited := h.awaited
  unended := h.unended
  successive := h.successive

/-- The stream waited on is open; it was not told that the input ended. -/
theorem Accounted.connects (h : Accounted s) {o : Opening} (ho : o ∈ s.openings)
    (hlistening : s.listeningTo o.session o.opening = some (mic, finishingPause)) :
    Accounted { s.taken o with client := some o.opening, connected := s.connected ++ [o] } ∧
      .ended o.opening ∉ s.log := by
  obtain ⟨_, hsession, hattempt⟩ := listeningTo_eq_some.mp hlistening
  have hended : .ended o.opening ∉ s.log :=
    fun hmem => (h.ended _ hmem).2 (List.mem_map_of_mem ho)
  refine ⟨{ h.taken o with
    connected_le := ?_
    client := ?_
    told := ?_
    awaited := nofun }, hended⟩
  · intro o' ho'
    rcases List.mem_append.mp ho' with ho' | ho'
    · exact h.connected_le o' ho'
    · exact List.mem_singleton.mp ho' ▸ hattempt.le
  · intro k hk
    obtain rfl := Option.some.inj hk
    refine ⟨hattempt, not_mem_pending_taken h.distinct ho, List.mem_append_right _ ?_⟩
    exact hsession ▸ List.mem_singleton_self _
  · intro k hk hend
    exact absurd (Option.some.inj hk ▸ hend) hended

namespace Tracked

variable {smooth : Bool}

theorem taken (h : Tracked smooth s) (o : Opening) : Tracked smooth (s.taken o) where
  accounted := h.accounted.taken o
  handedOut := h.handedOut
  allHanded hsmooth := ⟨(h.allHanded hsmooth).listening, (h.allHanded hsmooth).ready, (h.allHanded hsmooth).commits⟩

theorem opened (h : Tracked smooth s) {o : Opening} (ho : o ∈ s.openings) (failures : List (Option StreamFailure))
    (atEnd : List SpeechEvent)
    (hfails : smooth = true → (∀ failure ∈ failures, failure = none) ∧ ∀ event ∈ atEnd, event.fails = false) :
    Tracked smooth ((s.taken o).opened u transcribes field o failures atEnd) := by
  rw [DictationEngine.opened]
  split
  · exact h.taken o
  · rename_i mic finishingPause hlistening
    have hphase := (listeningTo_eq_some.mp hlistening).1
    obtain ⟨haccounted, hended⟩ := h.accounted.connects ho hlistening
    have hhands := handsOut u transcribes field s.unsent.length failures haccounted rfl le_rfl hended
      fun hsmooth => ⟨not_moved hphase,
        ⟨(h.allHanded hsmooth).listening, (h.allHanded hsmooth).ready, (h.allHanded hsmooth).commits⟩,
        (hfails hsmooth).1⟩
    simp only
    split_ifs with hend
    · refine hhands.tracked.endInput (fun hon => ?_) hhands.listening atEnd fun hsmooth => (hfails hsmooth).2
      rcases hhands.phase with hnone | hsame | hmoved
      · exact Option.some_ne_none _ (hend.1.symm.trans hnone)
      · cases hphase.symm.trans (hsame.symm.trans hon)
        exact hend.2.elim (absurd rfl) Bool.false_ne_true
      · exact hmoved _ _ hon
    · exact hhands.tracked

theorem openFailed (h : Tracked false s) {o : Opening} (kind : ProviderFailureKind) :
    Tracked false ((s.taken o).openFailed u transcribes field o kind) := by
  rw [DictationEngine.openFailed]
  split
  · exact h.taken o
  · rename_i mic finishingPause hlistening
    obtain ⟨hphase, hsession, _⟩ := listeningTo_eq_some.mp hlistening
    rw [hsession]
    split_ifs with hpause
    · obtain rfl : finishingPause = true := by simp only [Bool.and_eq_true] at hpause; exact hpause.1.1
      exact (h.taken o).reported (reported_pausedStreamEnded hphase true) nofun
    · exact (h.taken o).reported (reported_streamFailed hphase _ kind) nofun

theorem settled (h : Tracked smooth s) (hmoved : smooth = true → s.Moved ∧ s.phase ≠ .idle)
    (hsettled : Settled s s' ∧ s'.Moved) : Tracked smooth s' := by
  have hreported : Reported true s s' := .settled hsettled nofun
  refine ⟨h.accounted.reported hreported, h.handedOut.reported hreported, fun hsmooth => ?_⟩
  obtain ⟨effects, hquiet, hlog⟩ := hsettled.1.quiet
  obtain ⟨hm, hidle⟩ := hmoved hsmooth
  exact (h.allHanded hsmooth).moved ((h.allHanded hsmooth).ready hm hidle) hquiet hlog hsettled.2

/-- A step that leaves the audio and the streams alone. -/
theorem kept (h : Tracked smooth s) (hsession : s'.session = s.session) (hconnected : s'.connected = s.connected)
    (hends : Ends false s s') : Tracked smooth s' :=
  h.reported ⟨hsession, hconnected, hends⟩ fun _ => rfl

theorem record (h : Tracked smooth s) (audio : Chunk) : Tracked smooth (s.record transcribes audio) := by
  rw [DictationEngine.record]
  simp only
  split_ifs
  · exact h.kept rfl rfl (.kept rfl rfl rfl rfl rfl rfl rfl)
  · exact h.kept rfl rfl (.kept rfl rfl rfl rfl rfl rfl rfl)
  · exact h.kept rfl rfl (.kept rfl rfl rfl rfl rfl rfl rfl)

theorem captureAudio (h : Tracked smooth s) (current : ℕ) (audio : Chunk) (failure : Option StreamFailure)
    (hfails : smooth = true → failure = none) :
    Tracked smooth (s.captureAudio u transcribes field current audio failure) := by
  rw [DictationEngine.captureAudio]
  split
  · rename_i finishingPause hphase
    have hnot := not_moved hphase
    split_ifs with hcurrent hpause
    · exact h
    · refine record ?_ audio
      have haudio : s.unsent ++ (s.heardAfterResume ++ [audio]) = s.unsent ++ s.heardAfterResume ++ [audio] :=
        (List.append_assoc _ _ _).symm
      exact {
        accounted := h.accounted.logs rfl haudio
          (fun mic hp => by cases hpause ▸ hphase.symm.trans hp) nofun nofun
        handedOut := h.handedOut
        allHanded := fun hsmooth => (h.allHanded hsmooth).logs hnot rfl rfl haudio }
    · refine record ?_ audio
      obtain rfl : finishingPause = false := Bool.eq_false_iff.mpr hpause
      have haudio : s.unsent ++ [audio] ++ s.heardAfterResume = s.unsent ++ s.heardAfterResume ++ [audio] := by
        rw [h.accounted.resumed .on hphase, List.append_nil, List.append_nil]
      have hcaptured : Accounted ({ s with unsent := s.unsent ++ [audio] }.logged (.captured audio)) :=
        h.accounted.logs rfl haudio h.accounted.resumed nofun nofun
      have hall : smooth = true → AllHanded ({ s with unsent := s.unsent ++ [audio] }.logged (.captured audio)) :=
        fun hsmooth => (h.allHanded hsmooth).logs hnot rfl rfl haudio
      split
      · rename_i hclient
        exact ⟨hcaptured, fun hne => absurd hclient hne, hall⟩
      · rename_i opening hclient
        have hunsent : s.unsent = [] := h.handedOut fun hnone => nomatch hclient.symm.trans hnone
        have hended : Effect.ended opening ∉ s.log ++ [.captured audio] := by
          refine fun hmem => h.accounted.told opening hclient ?_ hphase
          exact (List.mem_append.mp hmem).resolve_right (by simp)
        have hsame : ({ s with unsent := s.unsent ++ [audio] }.logged (.captured audio)).unsent = audio :: [] := by
          change s.unsent ++ [audio] = [audio]
          rw [hunsent, List.nil_append]
        have hsent := hcaptured.sends hclient hended hsame
        have hstate : { { s with unsent := s.unsent ++ [audio] }.logged (.captured audio) with unsent := [] }.logged
            (.sent opening audio) = (s.logged (.captured audio)).logged (.sent opening audio) := by
          simp only [logged, hunsent]
        rw [hstate] at hsent
        have htracked : Tracked smooth ((s.logged (.captured audio)).logged (.sent opening audio)) :=
          ⟨hsent, fun _ => hunsent, fun hsmooth => hstate ▸ (hall hsmooth).sends hnot opening hsame⟩
        cases failure with
        | none => exact htracked
        | some failure =>
          exact htracked.reported (reported_sendAudio (s := s.logged (.captured audio)) h.accounted.resumed _ _ _ _)
            fun hsmooth => nomatch hfails hsmooth
  · exact h

/-! ## Taps -/

/-- The microphone of a listening dictation is turned on, off or stopped. -/
theorem turned (h : Tracked smooth s) (hphase : s.phase = .listening mic finishingPause)
    (hrests : ¬ (mic = .paused ∧ finishingPause = false)) {mic' : Mic} {finishingPause' : Bool}
    (hpause : finishingPause' = false → finishingPause = false) (hon : mic' = .on → finishingPause' = true) :
    Tracked smooth { s with phase := .listening mic' finishingPause' } where
  accounted := { h.accounted with
    resumed := by
      intro other hp
      cases hp
      exact h.accounted.resumed mic (hpause rfl ▸ hphase)
    told := by
      intro k _ _ hp
      cases hp
      cases hon rfl
    awaited := fun _ _ _ hclient hopen => absurd (h.accounted.awaited mic finishingPause hphase hclient hopen) hrests }
  handedOut := h.handedOut
  allHanded hsmooth := ⟨fun _ => (h.allHanded hsmooth).listening (not_moved hphase),
    fun hm => absurd rfl (hm mic' finishingPause'), (h.allHanded hsmooth).commits⟩

theorem pause (h : Tracked smooth s) (reports : List SpeechEvent)
    (hfails : smooth = true → ∀ event ∈ reports, event.fails = false) :
    Tracked smooth (s.pause u transcribes field reports) := by
  rw [DictationEngine.pause]
  split
  · rename_i finishingPause hphase
    have hpaused : Tracked smooth { s with phase := .listening .paused true } :=
      h.turned hphase (fun hrests => nomatch hrests.1) nofun nofun
    simp only
    split_ifs
    · exact hpaused
    · exact hpaused.endInput nofun (fun _ => not_moved rfl) reports hfails
  · exact h

/-- A dictation that rests, with its microphone turned on again or for what is held back, opens the next stream. -/
theorem reopens (h : Tracked smooth s) (hphase : s.phase = .listening mic false) {mic' : Mic} {finishingPause' : Bool}
    (hopened : s' = reopen { s with phase := .listening mic' finishingPause' } s.session) : Tracked smooth s' := by
  have hheld : s.heardAfterResume = [] := h.accounted.resumed mic hphase
  subst hopened
  have hreported : Reported false s (reopen { s with phase := .listening mic' finishingPause' } s.session) := by
    refine ⟨rfl, rfl, .reopened rfl (.inr ⟨not_moved rfl, ?_, hheld⟩) rfl rfl rfl fun _ => not_moved hphase⟩
    rw [hheld]
    exact (List.append_nil _).symm
  exact h.reported hreported fun _ => rfl

theorem resume (h : Tracked smooth s) : Tracked smooth s.resume := by
  rw [DictationEngine.resume]
  split
  · rename_i finishingPause hphase
    simp only
    split_ifs with hpause
    · subst hpause
      exact h.turned hphase (fun hrests => nomatch hrests.2) nofun fun _ => rfl
    · obtain rfl : finishingPause = false := Bool.eq_false_iff.mpr hpause
      exact h.reopens hphase rfl
  · exact h

theorem stop (h : Tracked smooth s) (cleanup : Option CleanupProvider) (reports : List SpeechEvent)
    (hfails : smooth = true → ∀ event ∈ reports, event.fails = false) :
    Tracked smooth (s.stop u transcribes field cleanup reports) := by
  rw [DictationEngine.stop]
  split
  · rename_i finishingPause hphase
    simp only
    split_ifs with hpause hheld
    · subst hpause
      exact h.turned hphase (fun hrests => nomatch hrests.2) nofun nofun
    · obtain rfl : finishingPause = false := Bool.eq_false_iff.mpr hpause
      exact (h.reopens hphase rfl).kept rfl rfl (.kept rfl rfl rfl rfl rfl rfl rfl)
    · obtain rfl : finishingPause = false := Bool.eq_false_iff.mpr hpause
      have hsettled := settled_insertBest (u := u) transcribes field cleanup
        (s := { s with phase := .listening (.stopped cleanup) false })
      refine h.reported (.settled (hsettled.imp_left Settled.turned) fun _ => ⟨not_moved hphase, ?_⟩) fun _ => rfl
      rw [not_not.mp hheld, h.accounted.resumed .paused hphase]
      rfl
  · rename_i finishingPause hphase
    have hstopped : Tracked smooth { s with phase := .listening (.stopped cleanup) finishingPause } :=
      h.turned hphase (fun hrests => nomatch hrests.1) (fun hp => hp) nofun
    simp only
    split_ifs
    · exact hstopped
    · exact hstopped.endInput nofun (fun _ => not_moved rfl) reports hfails
  · exact h

end Tracked

/-- A dictation that is given up keeps nothing of its audio. -/
theorem Accounted.dropped (h : Accounted s) (session : ℕ) : Accounted { s.cancelSession with session } := by
  obtain ⟨effects, hquiet, hlog⟩ := (Settled.cancelSession (s := s)).quiet
  have hmem : ∀ {e : Effect}, e.quiet = false → e ∈ s.cancelSession.log → e ∈ s.log :=
    fun he hin => (hquiet.mem_append he).mp (hlog ▸ hin)
  exact {
    order := by
      change (handedIn (dictation s.cancelSession.log) ++ []).Sublist (heardIn (dictation s.cancelSession.log))
      rw [hlog, hquiet.dictation, handedIn_append, heardIn_append, hquiet.handedIn, hquiet.heardIn]
      simp only [List.append_nil]
      exact (List.sublist_append_left _ _).trans h.order
    resumed := fun _ _ => rfl
    pending_le := h.pending_le
    distinct := h.distinct
    connected_le := h.connected_le
    client := nofun
    ended := fun k hk => h.ended k (hmem rfl hk)
    sent := fun k audio hk => h.sent k audio (hmem rfl hk)
    told := nofun
    awaited := nofun
    unended := by
      change Unended s.cancelSession.log
      rw [hlog]
      exact hquiet.unended h.unended
    successive := by
      change (s.cancelSession.log.filterMap Effect.client).Pairwise (· ≤ ·)
      rw [hlog, List.filterMap_append, hquiet.client, List.append_nil]
      exact h.successive }

theorem Accounted.startSession (h : Accounted s) (provider : SpeechProvider) (priorTranscript : Text) :
    Accounted (s.startSession provider priorTranscript) := by
  have hreported : Reported true { s.cancelSession with session := s.session + 1 }
      (s.startSession provider priorTranscript) :=
    ⟨rfl, rfl, .reopened rfl (.inr ⟨not_moved rfl, rfl, rfl⟩) rfl rfl rfl nofun⟩
  exact (h.dropped (s.session + 1)).reported hreported

theorem AllHanded.startSession (h : AllHanded s) (hmoved : s.Moved) (hidle : s.phase ≠ .idle)
    (provider : SpeechProvider) (priorTranscript : Text) : AllHanded (s.startSession provider priorTranscript) := by
  obtain ⟨effects, hquiet, hlog⟩ := (Settled.cancelSession (s := s)).quiet
  have hdropped : AllHanded { s.cancelSession with phase := .failed .restart [] } :=
    h.moved (h.ready hmoved hidle) hquiet hlog (.of_failed rfl)
  exact {
    listening := fun _ => by
      refine (hdropped.ready (.of_failed rfl) nofun).trans ?_
      exact (List.append_nil _).symm
    ready := fun hm => absurd hm (not_moved rfl)
    commits := hdropped.commits }

theorem Accounted.starts (h : Accounted s) (hunsent : s.unsent = []) (hheld : s.heardAfterResume = []) :
    Accounted (s.logged .started) := by
  have hmem : ∀ {e : Effect}, e ≠ .started → e ∈ s.log ++ [.started] → e ∈ s.log :=
    fun he hin => (List.mem_append.mp hin).resolve_right fun hlast => he (List.mem_singleton.mp hlast)
  exact { h with
    order := by
      change (handedIn (dictation (s.log ++ [.started])) ++ (s.unsent ++ s.heardAfterResume)).Sublist _
      rw [dictation, since_snoc, hunsent, hheld]
      exact List.nil_sublist _
    ended := fun k hk => h.ended k (hmem nofun hk)
    sent := fun k audio hk => h.sent k audio (hmem nofun hk)
    told := fun k hclient hk => h.told k hclient (hmem nofun hk)
    unended := Each.snoc h.unended nofun
    successive := by
      rw [logged, List.filterMap_append]
      exact (List.append_nil _).symm ▸ h.successive }

theorem AllHanded.starts (hunsent : s.unsent = []) (hheld : s.heardAfterResume = []) : AllHanded (s.logged .started) := by
  have hnew : dictation (s.logged .started).log = [] := since_snoc _ _ _
  exact {
    listening := fun _ => by
      change _ = handedIn _ ++ (s.unsent ++ s.heardAfterResume)
      rw [hnew, hunsent, hheld]
      rfl
    ready := fun _ _ => by
      rw [hnew]
      rfl
    commits := by
      rw [hnew]
      exact Each.nil }

namespace Tracked

variable {smooth : Bool}

theorem startSession (h : Tracked smooth s) (hready : smooth = true → s.Moved ∧ s.phase ≠ .idle)
    (provider : SpeechProvider) (priorTranscript : Text) : Tracked smooth (s.startSession provider priorTranscript) where
  accounted := h.accounted.startSession provider priorTranscript
  handedOut _ := rfl
  allHanded hsmooth :=
    (h.allHanded hsmooth).startSession (hready hsmooth).1 (hready hsmooth).2 provider priorTranscript

/-- A start begins a dictation with nothing heard, whatever came before. -/
theorem start (h : Tracked false s) (provider : SpeechProvider) : Tracked smooth (s.start provider) := by
  have hreset : Tracked false { s with recorded := [], recordedTooLong := false, heardBytes := 0, cleanupsCalled := [] } :=
    h.kept rfl rfl (.kept rfl rfl rfl rfl rfl rfl rfl)
  exact ⟨(hreset.accounted.startSession provider []).starts rfl rfl, fun _ => rfl, fun _ => AllHanded.starts rfl rfl⟩

theorem cancel (h : Tracked smooth s) : Tracked smooth s.cancel := by
  have hreported : Reported true { s.cancelSession with session := s.session + 1 } s.cancel :=
    .settled ⟨Settled.logged rfl, .of_idle rfl⟩ nofun
  refine ⟨(h.accounted.dropped (s.session + 1)).reported hreported, fun hclient => absurd rfl hclient, fun hsmooth => ?_⟩
  exact {
    listening := fun hnot => absurd (Moved.of_idle rfl) hnot
    ready := fun _ hidle => absurd rfl hidle
    commits := by
      have hcommits := (h.allHanded hsmooth).commits
      change Each _ (dictation (s.cancelSession.log ++ [.cancelled]))
      rw [dictation_snoc rfl]
      refine Each.snoc ?_ nofun
      rw [cancelSession]
      split
      · rw [dictation_snoc rfl]
        exact hcommits.snoc nofun
      · rw [List.append_nil]
        exact hcommits }

theorem addCleanup (h : Tracked smooth s) (provider : CleanupProvider) : Tracked smooth (s.addCleanup provider) :=
  h.kept rfl rfl (.kept rfl rfl rfl rfl rfl rfl rfl)

theorem insert (h : Tracked smooth s) (reports : List SpeechEvent)
    (hfails : smooth = true → ∀ event ∈ reports, event.fails = false) :
    Tracked smooth (s.insert u transcribes field reports) := by
  rw [DictationEngine.insert]
  split
  · exact h.stop none reports hfails
  · rename_i request cleanup raw hphase
    split
    · exact h
    · rename_i provider
      split_ifs
      · exact h
      · refine h.settled (fun _ => ⟨.of_refining hphase, fun hidle => nomatch hphase.symm.trans hidle⟩) ?_
        exact (settled_commitHeard field raw).imp_left
          (Settled.cancelSession.trans (Settled.addCleanup provider)).trans
  · rename_i retry raw hphase
    split_ifs
    · exact h
    · have hready : smooth = true → s.Moved ∧ s.phase ≠ .idle :=
        fun _ => ⟨.of_failed hphase, fun hidle => nomatch hphase.symm.trans hidle⟩
      split
      · exact h.settled hready (settled_commitTranscript field _)
      · exact h.settled hready (settled_commitHeard field raw)
  · exact h

theorem insertRefined (h : Tracked smooth s) (cleanup : Option CleanupProvider) (reports : List SpeechEvent)
    (hfails : smooth = true → ∀ event ∈ reports, event.fails = false) :
    Tracked smooth (s.insertRefined u transcribes field cleanup reports) := by
  rw [DictationEngine.insertRefined]
  split
  · exact h
  · refine stop ?_ cleanup reports hfails
    split_ifs
    · exact h
    · exact h.kept rfl rfl (.kept rfl rfl rfl rfl rfl rfl rfl)
  · exact h

theorem retry (h : Tracked smooth s) : Tracked smooth (s.retry u field) := by
  have hready : ∀ {retry : Retry} {raw : Text}, s.phase = .failed retry raw → smooth = true → s.Moved ∧ s.phase ≠ .idle :=
    fun hphase _ => ⟨.of_failed hphase, fun hidle => nomatch hphase.symm.trans hidle⟩
  rw [DictationEngine.retry]
  split
  · rename_i hphase
    exact h.settled (hready hphase) (settled_commitTranscript field _)
  · rename_i hphase
    exact h.settled (hready hphase) (settled_refineTranscript field _ _)
  · rename_i hphase
    exact h.startSession (hready hphase) _ _
  · exact h

/-! ## Answers and failures -/

theorem fail (h : Tracked false s) (current : ℕ) (raw : Option Text) : Tracked false (s.fail current raw) := by
  rcases settled_fail (s := s) current raw with hsame | hsettled
  · rw [hsame]
    exact h
  · exact h.settled nofun hsettled

end Tracked

theorem settled_fail_moved (hmoved : s.Moved) (current : ℕ) (raw : Option Text) :
    Settled s (s.fail current raw) ∧ (s.fail current raw).Moved := by
  rcases settled_fail (s := s) current raw with hsame | hsettled
  · rw [hsame]
    exact ⟨Settled.refl s, hmoved⟩
  · exact hsettled

theorem phase_of_isRunning {request : ℕ} (h : s.isRunning request = true) :
    ∃ cleanup raw, s.phase = .refining request cleanup raw := by
  rw [isRunning] at h
  split at h
  · rename_i running cleanup raw hphase
    exact ⟨cleanup, raw, of_decide_eq_true h ▸ hphase⟩
  · cases h

theorem settled_cleanupAnswered (hmoved : s.Moved) {c : Cleanup} (hrunning : s.isRunning c.request = true)
    (text : Option Text) : Settled s (s.cleanupAnswered u v field c text) ∧ (s.cleanupAnswered u v field c text).Moved := by
  rw [cleanupAnswered.eq_def, if_pos hrunning]
  cases text with
  | none =>
    simp only
    split
    · exact settled_commitTranscript field _
    · exact settled_fail_moved hmoved _ _
  | some text =>
    have htaken : Settled s ((s.addCleanup c.provider).logged (.answered c.request c.replaced c.edited text)) :=
      (Settled.addCleanup c.provider).trans (Settled.logged rfl)
    simp only
    split
    · exact (settled_commitTranscript field _).imp_left htaken.trans
    · split
      · exact (settled_commitTranscript field _).imp_left htaken.trans
      · exact (settled_fail_moved (s := (s.addCleanup c.provider).logged _) hmoved _ _).imp_left htaken.trans

namespace Tracked

variable {smooth : Bool}

/-- What settles a dictation that waits on a request. -/
theorem answered (h : Tracked smooth s) {request : ℕ} (hrunning : s.isRunning request = true)
    (hsettled : Settled s s' ∧ s'.Moved) : Tracked smooth s' := by
  obtain ⟨cleanup, raw, hphase⟩ := phase_of_isRunning hrunning
  exact h.settled (fun _ => ⟨.of_refining hphase, fun hidle => nomatch hphase.symm.trans hidle⟩) hsettled

theorem cleanupAnswered (h : Tracked smooth s) (c : Cleanup) (text : Option Text) :
    Tracked smooth (s.cleanupAnswered u v field c text) := by
  cases hrunning : s.isRunning c.request with
  | true =>
    obtain ⟨cleanup, raw, hphase⟩ := phase_of_isRunning hrunning
    exact h.answered hrunning (settled_cleanupAnswered (.of_refining hphase) hrunning text)
  | false =>
    rw [DictationEngine.cleanupAnswered.eq_def, hrunning]
    exact h

theorem cleanupFailed (h : Tracked smooth s) (c : Cleanup) : Tracked smooth (s.cleanupFailed c) := by
  have hcalled : Tracked smooth (if c.session = s.session then s.addCleanup c.provider else s) := by
    split_ifs
    · exact h.addCleanup c.provider
    · exact h
  rw [DictationEngine.cleanupFailed]
  split
  · rename_i hrunning
    obtain ⟨cleanup, raw, hphase⟩ := phase_of_isRunning hrunning
    have hsame : ∀ called : DictationEngine, called.phase = s.phase → Tracked smooth called →
        Tracked smooth (called.fail c.session (some c.raw)) := by
      intro called hcall htracked
      have hrefining := hcall.trans hphase
      have hstill : called.isRunning c.request = true := by rw [isRunning, hrefining]; exact decide_eq_true rfl
      exact htracked.answered hstill (settled_fail_moved (.of_refining hrefining) _ _)
    refine hsame _ ?_ hcalled
    split_ifs <;> rfl
  · exact hcalled

theorem batchAnswered (h : Tracked smooth s) (b : Batch) (batch : Option Text) :
    Tracked smooth (s.batchAnswered u field b batch) := by
  rw [DictationEngine.batchAnswered]
  split_ifs with hrunning
  · exact h.answered hrunning (settled_finish field b.cleanup _)
  · exact h

end Tracked

/-! ## Runs -/

/-- No stream fails in an event, and none fails to open. -/
def Event.streamsLast : Event → Bool
  | .pause _ reports => reports.all fun event => !event.fails
  | .insert _ reports => reports.all fun event => !event.fails
  | .insertRefined _ _ reports => reports.all fun event => !event.fails
  | .audio _ _ _ failure => failure.isNone
  | .opened _ _ failures atEnd => failures.all Option.isNone && atEnd.all fun event => !event.fails
  | .openFailed _ _ _ => false
  | .cannotListen _ => false
  | .speech _ _ event => !event.fails
  | _ => true

/-- The microphone does not fail in an event. -/
def Event.microphoneLasts : Event → Bool
  | .captureFailed _ => false
  | _ => true

/-- Neither a stream nor the microphone fails in an event. -/
def Event.smooth (e : Event) : Bool := e.streamsLast && e.microphoneLasts

theorem Tracked.step {smooth : Bool} (h : Tracked smooth s) (e : Event) (he : smooth = true → e.smooth = true)
    (hstep : DictationEngine.step u v transcribes s e = some s') : Tracked smooth s' := by
  have hfails : ∀ {reports : List SpeechEvent}, (reports.all fun event => !event.fails) = true →
      ∀ event ∈ reports, event.fails = false :=
    fun hall event hmem => (Bool.not_eq_true' _).mp (List.all_eq_true.mp hall event hmem)
  have hlast : smooth = true → e.streamsLast = true := fun hsmooth => (Bool.and_eq_true_iff.mp (he hsmooth)).1
  have hmicrophone : smooth = true → e.microphoneLasts = true := fun hsmooth => (Bool.and_eq_true_iff.mp (he hsmooth)).2
  -- in a dictation in which nothing fails a failure does not occur
  have hrough : (smooth = true → False) → smooth = false := fun hno => Bool.eq_false_iff.mpr hno
  cases e with
  | start provider =>
    cases hstep
    exact Tracked.start ⟨h.accounted, h.handedOut, nofun⟩ provider
  | pause field reports =>
    cases hstep
    exact h.pause reports fun hsmooth => hfails (hlast hsmooth)
  | resume =>
    cases hstep
    exact h.resume
  | cancel =>
    cases hstep
    exact h.cancel
  | insert field reports =>
    cases hstep
    exact h.insert reports fun hsmooth => hfails (hlast hsmooth)
  | insertRefined cleanup field reports =>
    cases hstep
    exact h.insertRefined cleanup reports fun hsmooth => hfails (hlast hsmooth)
  | retry field =>
    cases hstep
    exact h.retry
  | audio current chunk field failure =>
    cases hstep
    exact h.captureAudio current chunk failure fun hsmooth => Option.isNone_iff_eq_none.mp (hlast hsmooth)
  | captureFailed current =>
    cases hstep
    obtain rfl := hrough fun hsmooth => nomatch hmicrophone hsmooth
    exact h.fail current none
  | opened o field failures atEnd =>
    obtain ⟨ho, hs'⟩ := Option.ite_none_right_eq_some.mp hstep
    cases hs'
    refine h.opened ho failures atEnd fun hsmooth => ?_
    obtain ⟨hnone, hend⟩ := Bool.and_eq_true_iff.mp (hlast hsmooth)
    exact ⟨fun failure hmem => Option.isNone_iff_eq_none.mp (List.all_eq_true.mp hnone failure hmem), hfails hend⟩
  | openFailed o field kind =>
    obtain ⟨ho, hs'⟩ := Option.ite_none_right_eq_some.mp hstep
    cases hs'
    obtain rfl := hrough fun hsmooth => nomatch hlast hsmooth
    exact h.openFailed kind
  | cannotListen o =>
    obtain ⟨ho, hs'⟩ := Option.ite_none_right_eq_some.mp hstep
    obtain rfl := hrough fun hsmooth => nomatch hlast hsmooth
    cases hs'
    split_ifs
    · exact (h.taken o).fail o.session none
    · exact h.taken o
  | speech o field event =>
    obtain ⟨ho, hs'⟩ := Option.ite_none_right_eq_some.mp hstep
    cases hs'
    exact (h.onSpeech u transcribes field ho event fun hsmooth => (Bool.not_eq_true' _).mp (hlast hsmooth)).1
  | piece request text =>
    cases hstep
    exact h
  | cleanupAnswered request field text =>
    obtain ⟨c, _, rfl⟩ := Option.map_eq_some_iff.mp hstep
    have htaken : Tracked smooth { s with cleanups := s.cleanups.filter (·.request ≠ request) } :=
      h.kept rfl rfl (.kept rfl rfl rfl rfl rfl rfl rfl)
    exact htaken.cleanupAnswered c text
  | cleanupFailed request =>
    obtain ⟨c, _, rfl⟩ := Option.map_eq_some_iff.mp hstep
    have htaken : Tracked smooth { s with cleanups := s.cleanups.filter (·.request ≠ request) } :=
      h.kept rfl rfl (.kept rfl rfl rfl rfl rfl rfl rfl)
    exact htaken.cleanupFailed c
  | batchAnswered request field batch =>
    obtain ⟨b, _, rfl⟩ := Option.map_eq_some_iff.mp hstep
    have htaken : Tracked smooth { s with batches := s.batches.filter (·.request ≠ request) } :=
      h.kept rfl rfl (.kept rfl rfl rfl rfl rfl rfl rfl)
    exact htaken.batchAnswered b batch

theorem tracked_initial (smooth : Bool) : Tracked smooth initial where
  accounted :=
    { order := List.nil_sublist _
      resumed := fun _ _ => rfl
      pending_le := nofun
      distinct := List.nodup_nil
      connected_le := nofun
      client := nofun
      ended := nofun
      sent := nofun
      told := nofun
      awaited := nofun
      unended := Each.nil
      successive := List.Pairwise.nil }
  handedOut _ := rfl
  allHanded _ := ⟨fun hnot => absurd (Moved.of_idle rfl) hnot, fun _ hidle => absurd rfl hidle, Each.nil⟩

theorem tracked_of_reaches (h : Reaches (step u v transcribes) (fun _ _ => True) initial s) : Tracked false s :=
  h.invariant (tracked_initial false) fun _ e _ _ htracked hstep => htracked.step e nofun hstep

/-- The audio of a dictation is handed out in the order it was heard, each chunk at most once, to one stream after the
other and to none that was told that the input ended. -/
structure InOrder (log : List Effect) : Prop where
  order : (handedIn (dictation log)).Sublist (heardIn (dictation log))
  successive : (log.filterMap Effect.client).Pairwise (· ≤ ·)
  unended : Unended log

/-- Whenever words go to the field, or the dictation is reported done, all that it heard has been handed out. -/
def CommitsAll (log : List Effect) : Prop :=
  Each (fun before e => e.commits → heardIn before = handedIn before) (dictation log)

/-- **The phone delivers what it hears.** Whatever came before, the audio of a dictation goes to its streams in the order
it was heard, each chunk at most once, to none that was told that the input ended; and in a dictation in which no stream
fails, none fails to open and the microphone does not fail, every chunk has been handed out before words are committed. -/
theorem delivers_audio (u : Unicode) (v : Digits) (transcribes : Bool) {s : DictationEngine}
    (h : Reaches (step u v transcribes) (fun _ _ => True) initial s) :
    InOrder s.log ∧ ∀ provider s', Reaches (step u v transcribes) (fun _ e => e.smooth = true) (s.start provider) s' →
      CommitsAll s'.log := by
  have htracked := tracked_of_reaches h
  refine ⟨⟨(List.sublist_append_left _ _).trans htracked.accounted.order, htracked.accounted.successive,
    htracked.accounted.unended⟩, fun provider s' hs' => ?_⟩
  have hsmooth : Tracked true s' :=
    hs'.invariant (htracked.start provider) fun _ e _ he ht hstep => ht.step e (fun _ => he) hstep
  exact (hsmooth.allHanded rfl).commits

/-- An empty field that takes any text, with no replacements. -/
def openField : Field := ⟨none, none, fun _ => true, []⟩

/-- A chunk is heard before the stream opens, and the stream completes once it was stopped. -/
def heldBackRun (audio : Chunk) : List Event :=
  [.audio 1 audio openField none, .opened ⟨1, 1⟩ openField [none] [], .insert openField [],
    .speech ⟨1, 1⟩ openField (.final "hi".toList), .speech ⟨1, 1⟩ openField .completed]

/-- A dictation that hears a chunk before its stream opens hands it out before it commits. -/
theorem delivers_audio_heldBack : ∃ s : DictationEngine, InOrder s.log ∧ CommitsAll s.log ∧
    handedIn (dictation s.log) = [⟨0, [1, 2]⟩] ∧ (dictation s.log).any Effect.commits := by
  have hrun : (Reaches.runs (step Unicode.basic Digits.basic false) (fun _ e => e.smooth = true)
      (initial.start .claude) (heldBackRun ⟨0, [1, 2]⟩)).any (fun s =>
        handedIn (dictation s.log) = [⟨0, [1, 2]⟩] && (dictation s.log).any Effect.commits) := by decide
  obtain ⟨s, hs, hend⟩ := (Option.any_eq_true _ _).mp hrun
  obtain ⟨hhanded, hcommits⟩ := Bool.and_eq_true_iff.mp hend
  have hstarted : Reaches (step Unicode.basic Digits.basic false) (fun _ e => e.smooth = true)
      (initial.start .claude) s := .of_runs .start hs
  have hreached : Reaches (step Unicode.basic Digits.basic false) (fun _ _ => True) initial s :=
    hstarted.invariant (.next (.start .claude) .start trivial rfl) fun _ e _ _ h hstep => .next e h trivial hstep
  exact ⟨s, (delivers_audio Unicode.basic Digits.basic false hreached).1,
    (delivers_audio Unicode.basic Digits.basic false .start).2 .claude s hstarted, of_decide_eq_true hhanded, hcommits⟩

/-- The microphone fails after the words were stopped for, with the next stream still to open; the Insert that follows
takes the words heard. -/
def microphoneFailureRun (audio : Chunk) : List Event :=
  [.opened ⟨1, 1⟩ openField [] [], .speech ⟨1, 1⟩ openField (.final "hi".toList), .speech ⟨1, 1⟩ openField .completed,
    .audio 1 audio openField none, .insert openField [], .captureFailed 1, .insert openField []]

/-- **A failure of the microphone loses audio**: the words are then committed without a chunk that waits for its stream,
though no stream failed and none failed to open. -/
theorem microphone_failure_loses_audio : ¬ ∀ (u : Unicode) (v : Digits) (transcribes : Bool) (s : DictationEngine),
    Reaches (step u v transcribes) (fun _ _ => True) initial s →
    ∀ provider s', Reaches (step u v transcribes) (fun _ e => e.streamsLast = true) (s.start provider) s' →
      CommitsAll s'.log := by
  intro hall
  have hrun : (Reaches.runs (step Unicode.basic Digits.basic false) (fun _ e => e.streamsLast = true)
      (initial.start .claude) (microphoneFailureRun ⟨0, [1, 2]⟩)).any (fun s =>
        dictation s.log = [.captured ⟨0, [1, 2]⟩, .commit "hi".toList none none true,
          .committed ⟨"hi".toList, 0, .claude, [], "hi".toList⟩]) := by decide
  obtain ⟨s, hs, hlog⟩ := (Option.any_eq_true _ _).mp hrun
  have hcommits := hall Unicode.basic Digits.basic false initial .start .claude s (.of_runs .start hs)
  have hhanded := hcommits [.captured ⟨0, [1, 2]⟩] (.commit "hi".toList none none true) _ (of_decide_eq_true hlog) rfl
  exact absurd hhanded (by decide)

end DictationEngine

end Speecher.Android
