import Speecher.Providers.StreamLifecycle

/-!
# What an Android speech stream keeps

Over every interleaving of its threads a stream ends once, and hands its audio over in order: what was handed to the
provider is a start of what was accepted (`Audio`), nothing is handed over once the provider was asked to close, and a
live stream that was not cancelled has handed over all of it.

Two things hold only of the runs in which no thread crosses another (`Uncrossed`). A socket callback that looked at
`ended`, or `goLive` past its look at `stopped`, reports whatever another thread reported meanwhile; and `stop` and
`goLive`, each setting its flag before it looks at the other's, both ask the provider to close when they cross.
-/

namespace Speecher.Android.StreamLifecycle

open Threads

/-! ## What is seen of a run -/

namespace Effect

def accepted? : Effect → Option (List UInt8)
  | accepted pcm => some pcm
  | _ => none

def handed? : Effect → Option (List UInt8)
  | handed pcm => some pcm
  | _ => none

def reports : Effect → Bool
  | reported _ => true
  | _ => false

def ends : Effect → Bool
  | reported report => report.ends
  | _ => false

def asksToClose : Effect → Bool
  | askedToClose => true
  | _ => false

def hands : Effect → Bool
  | handed _ => true
  | _ => false

end Effect

/-- The chunks a stream took, in the order given. -/
def acceptedIn (log : List Effect) : List (List UInt8) := log.filterMap Effect.accepted?

/-- The chunks handed to the provider. -/
def handedIn (log : List Effect) : List (List UInt8) := log.filterMap Effect.handed?

/-- What a stream keeps in every state of a run. -/
structure Kept (s : Stream) : Prop where
  endsOnce : s.log.countP Effect.ends ≤ 1
  quietAfterEnd : Each (fun before e => e.reports = true → ∀ b ∈ before, b.ends = false) s.log
  closesOnce : s.log.countP Effect.asksToClose ≤ 1
  inOrder : handedIn s.log <+: acceptedIn s.log
  noneAfterClose : Each (fun before e => e.hands = true → ∀ b ∈ before, b.asksToClose = false) s.log
  handsOver : s.live = true → s.cancelled = false → handedIn s.log = acceptedIn s.log

/-! ## The kinds of instruction -/

namespace Instr

/-- A report that does not end the stream is about to be made. -/
def isNote : Instr → Bool
  | report r => !r.ends
  | _ => false

/-- A report that ends the stream is about to be made. -/
def isEnd : Instr → Bool
  | report r => r.ends
  | _ => false

def isRequestClose : Instr → Bool
  | requestClose => true
  | _ => false

def isWentLive : Instr → Bool
  | wentLive => true
  | _ => false

def isCloseIfLive : Instr → Bool
  | closeIfLive => true
  | _ => false

/-- A chunk is under way past the look at `stopped`. -/
def isOpenAudio : Instr → Bool
  | unlessEnded (.audio _) | unlessFinished (.audio _) | queueAudio _ => true
  | _ => false

/-- A chunk is under way past the look at `cancelled`. -/
def isUncancelledAudio : Instr → Bool
  | unlessFinished (.audio _) | queueAudio _ => true
  | _ => false

/-- `stop` is under way past its look at `stopped`. -/
def isStopping : Instr → Bool
  | unlessEnded .stop | unlessFinished .stop | setStopped => true
  | _ => false

def isClearPending : Instr → Bool
  | clearPending => true
  | _ => false

/-- The app is inside a call, before what it set is seen. -/
def isApp : Instr → Bool
  | sendAudio _ | stop | cancel => true
  | i => i.isOpenAudio || i.isStopping

theorem isApp_of_isStopping (i : Instr) (h : i.isStopping = true) : i.isApp = true := by
  cases i <;> first | exact absurd h Bool.false_ne_true | exact (Bool.or_eq_true _ _).mpr (.inr h) | rfl

theorem isApp_of_isOpenAudio (i : Instr) (h : i.isOpenAudio = true) : i.isApp = true := by
  cases i <;> first | exact absurd h Bool.false_ne_true | exact (Bool.or_eq_true _ _).mpr (.inl h) | rfl

theorem isOpenAudio_of_isUncancelledAudio (i : Instr) (h : i.isUncancelledAudio = true) : i.isOpenAudio = true := by
  cases i <;> first | exact absurd h Bool.false_ne_true | rfl | skip
  case unlessFinished next => cases next <;> first | rfl | exact absurd h Bool.false_ne_true

end Instr

/-- A move with which a thread crosses another: it reports the end while another report is about to be made, or passes
`goLive`'s look at `stopped`, on a stream not stopped, once the end was reported; it takes `goLive`'s lock while `stop`
stands between its two flags, or sets `stopped` while `goLive` stands between them. -/
def crosses (c : Threads.State Stream Instr Party) : Threads.Move Instr Party → Bool
  | .call _ _ => false
  | .run t =>
    match (c.code t).head? with
    | some (.report report) => report.ends && pending Instr.isNote c.code ≠ 0
    | some .wentLive => !c.shared.stopped && c.shared.log.countP Effect.ends ≠ 0
    | some .goLive => !c.shared.live && pending Instr.isCloseIfLive c.code ≠ 0
    | some .setStopped => pending Instr.isWentLive c.code ≠ 0
    | _ => false

/-- **No thread crosses another.** -/
def Uncrossed (c : Threads.State Stream Instr Party) (move : Threads.Move Instr Party) : Prop := crosses c move = false

instance (c : Threads.State Stream Instr Party) (move : Threads.Move Instr Party) : Decidable (Uncrossed c move) :=
  inferInstanceAs (Decidable (crosses c move = false))

namespace Uncrossed

variable {c : Threads.State Stream Instr Party} {t : Party} {k : List Instr}

/-- The end is reported while no other report is about to be made. -/
theorem report {r : Report} (h : Uncrossed c (.run t)) (hcode : c.code t = .report r :: k) (hr : r.ends = true) :
    pending Instr.isNote c.code = 0 := by
  simpa [Uncrossed, crosses, hcode, hr] using h

/-- `goLive` passes its look at `stopped` before the end was reported. -/
theorem wentLive (h : Uncrossed c (.run t)) (hcode : c.code t = .wentLive :: k) (hstopped : c.shared.stopped = false) :
    c.shared.log.countP Effect.ends = 0 := by
  have := h
  rw [Uncrossed, crosses, hcode] at this
  simpa only [List.head?_cons, hstopped, Bool.not_false, Bool.true_and, decide_eq_false_iff_not, not_not] using this

/-- `goLive` takes its lock while `stop` is not between its flags. -/
theorem goLive (h : Uncrossed c (.run t)) (hcode : c.code t = .goLive :: k) (hlive : c.shared.live = false) :
    pending Instr.isCloseIfLive c.code = 0 := by
  simpa [Uncrossed, crosses, hcode, hlive] using h

/-- `stopped` is set while `goLive` is not between its flags. -/
theorem setStopped (h : Uncrossed c (.run t)) (hcode : c.code t = .setStopped :: k) :
    pending Instr.isWentLive c.code = 0 := by
  simpa [Uncrossed, crosses, hcode] using h

end Uncrossed

/-! ## Steps that change little -/

namespace Effect

/-- Neither audio, nor a report, nor a request to close. -/
def quiet : Effect → Bool
  | accepted _ | handed _ | reported _ | askedToClose => false
  | _ => true

end Effect

namespace Effect

variable {e : Effect}

theorem ends_of_quiet (h : e.quiet = true) : e.ends = false := by cases e <;> first | rfl | cases h

theorem reports_of_ends (h : e.ends = true) : e.reports = true := by cases e <;> first | rfl | cases h

theorem reports_of_quiet (h : e.quiet = true) : e.reports = false := by cases e <;> first | rfl | cases h

theorem asksToClose_of_quiet (h : e.quiet = true) : e.asksToClose = false := by cases e <;> first | rfl | cases h

theorem hands_of_quiet (h : e.quiet = true) : e.hands = false := by cases e <;> first | rfl | cases h

theorem accepted?_of_quiet (h : e.quiet = true) : e.accepted? = none := by cases e <;> first | rfl | cases h

theorem handed?_of_quiet (h : e.quiet = true) : e.handed? = none := by cases e <;> first | rfl | cases h

end Effect

/-- The stream's flags and audio are the same, and nothing of note was done. -/
structure Same (s s' : Stream) : Prop where
  live : s'.live = s.live
  stopped : s'.stopped = s.stopped
  cancelled : s'.cancelled = s.cancelled
  finished : s'.finished = s.finished
  pending : s'.pending = s.pending
  log : ∃ effects : List Effect, s'.log = s.log ++ effects ∧ ∀ e ∈ effects, e.quiet = true

namespace Same

theorem refl (s : Stream) : Same s s := ⟨rfl, rfl, rfl, rfl, rfl, [], (List.append_nil _).symm, by simp⟩

theorem note (s : Stream) {e : Effect} (he : e.quiet = true) : Same s (s.note e) :=
  ⟨rfl, rfl, rfl, rfl, rfl, [e], rfl, by simpa using he⟩

theorem schedule (s : Stream) (task : Task) : Same s (s.schedule task).1 := by
  rw [Stream.schedule]
  split_ifs
  · exact refl s
  · exact ⟨rfl, rfl, rfl, rfl, rfl, [], (List.append_nil _).symm, by simp⟩

theorem extendCloseWait (s : Stream) : Same s s.extendCloseWait := by
  rw [Stream.extendCloseWait]
  split
  · exact refl s
  · rename_i id _
    split_ifs
    · exact refl s
    · have h := schedule { s with tasks := s.tasks.filter fun task => task.1 ≠ id } .close
      exact ⟨h.live, h.stopped, h.cancelled, h.finished, h.pending, h.log⟩

variable {s s' : Stream}

/-- A count of what is not quiet is the same. -/
theorem countP_log (h : Same s s') {p : Effect → Bool} (hp : ∀ e, e.quiet = true → p e = false) :
    s'.log.countP p = s.log.countP p := by
  obtain ⟨effects, hlog, hquiet⟩ := h.log
  have hnone : effects.countP p = 0 :=
    List.countP_eq_zero.mpr fun e he hpe => Bool.false_ne_true ((hp e (hquiet e he)).symm.trans hpe)
  rw [hlog, List.countP_append, hnone, Nat.add_zero]

/-- So is a list of what is not quiet. -/
theorem filterMap_log {α : Type} (h : Same s s') {f : Effect → Option α} (hf : ∀ e, e.quiet = true → f e = none) :
    s'.log.filterMap f = s.log.filterMap f := by
  obtain ⟨effects, hlog, hquiet⟩ := h.log
  rw [hlog, List.filterMap_append, List.filterMap_eq_nil_iff.mpr fun e he => hf e (hquiet e he), List.append_nil]

/-- Nothing was reported. -/
theorem log_reports (h : Same s s') :
    ∃ effects : List Effect, s'.log = s.log ++ effects ∧ ∀ e ∈ effects, e.reports = false := by
  obtain ⟨effects, hlog, hquiet⟩ := h.log
  exact ⟨effects, hlog, fun e he => Effect.reports_of_quiet (hquiet e he)⟩

/-- A history that only says something of what is not quiet goes on. -/
theorem each_log (h : Same s s') {P : List Effect → Effect → Prop} (hP : ∀ before e, e.quiet = true → P before e)
    (heach : Each P s.log) : Each P s'.log := by
  obtain ⟨effects, hlog, hquiet⟩ := h.log
  rw [hlog]
  exact heach.append fun before e after heq => hP _ e (hquiet e (heq ▸ by simp))

end Same

/-- The instructions that change a flag or the audio, or do something of note. -/
def Instr.marks : Instr → Bool
  | queueAudio _ | setStopped | requestClose | cancel | clearPending | goLive | report _ | finish _ => true
  | _ => false

section Steps

variable (same : Char → Char → Bool) (client : Client)

theorem guarded_same (s : Stream) (next : Guarded) : Same s (guarded same client s next).1 := by
  rcases next with pcm | _ | _ | ((_ | event) | event) | _
  · exact .refl s
  · exact .refl s
  · cases client
    · exact .note s rfl
    · exact .note s rfl
  · exact .refl s
  · simp only [guarded, onCodexText]
    split_ifs <;> first | exact .refl s | exact ⟨rfl, rfl, rfl, rfl, rfl, [], (List.append_nil _).symm, by simp⟩
  · cases event <;> simp only [guarded, onClaudeText] <;> try exact .refl s
    · split_ifs
      · exact .refl s
      · exact ⟨rfl, rfl, rfl, rfl, rfl, [], (List.append_nil _).symm, by simp⟩
    · exact ⟨rfl, rfl, rfl, rfl, rfl, [], (List.append_nil _).symm, by simp⟩
  · exact .note s rfl

/-- Every other instruction leaves the flags and the audio. -/
theorem exec_same {i : Instr} (hi : i.marks = false) (s : Stream) : Same s (exec same client i s).1 := by
  cases i <;> try cases hi
  all_goals simp only [exec]
  all_goals try exact .refl s
  · split_ifs
    · exact .refl s
    · exact guarded_same same client s _
  · have h := Same.schedule s .close
    exact ⟨h.live, h.stopped, h.cancelled, h.finished, h.pending, h.log⟩
  · exact ⟨rfl, rfl, rfl, rfl, rfl, [], (List.append_nil _).symm, by simp⟩
  · exact .note s rfl
  · exact .note s rfl
  · exact .extendCloseWait s
  · exact .schedule s _
  · exact .schedule s _
  · rename_i id task
    cases task <;> simp only [fire]
    · exact ⟨rfl, rfl, rfl, rfl, rfl, [], (List.append_nil _).symm, by simp⟩
    · exact ⟨rfl, rfl, rfl, rfl, rfl, [], (List.append_nil _).symm, by simp⟩
    · exact .refl s
  · exact ⟨rfl, rfl, rfl, rfl, rfl, [], (List.append_nil _).symm, by simp⟩

/-! ## What an instruction leaves to do -/

/-- An instruction may be left by another. -/
def Instr.leftBy (j i : Instr) : Bool :=
  match j with
  | unlessEnded (.audio _) => match i with | sendAudio _ => true | _ => false
  | unlessEnded .stop => match i with | stop => true | _ => false
  | unlessEnded .keepAlive | taskDone _ => match i with | fire .. => true | _ => false
  | unlessFinished next => match i with | unlessEnded next' => next = next' | _ => false
  | queueAudio _ => match i with | unlessFinished (.audio _) => true | _ => false
  | setStopped => match i with | unlessFinished .stop => true | _ => false
  | closeIfLive | afterStop => match i with | setStopped => true | _ => false
  | requestClose | waitForClose => match i with | closeIfLive | wentLive => true | _ => false
  | clearPending => match i with | cancel => true | _ => false
  | shutdownTimer | drop => match i with | cancel | finish _ => true | _ => false
  | close => match i with | unlessFinished _ | completeIfStopped => true | _ => false
  | goLive | keepAlive _ | extendCloseWait | completeIfStopped | report (.interim _) | report (.final _) =>
    match i with | unlessFinished _ => true | _ => false
  | wentLive => match i with | goLive => true | _ => false
  | report .connected => match i with | wentLive => true | _ => false
  | report (.ended _) => match i with | finish _ => true | _ => false
  | finish _ =>
    match i with
    | queueAudio _ | unlessFinished _ | completeIfStopped | onClosed .. | onClosedLive .. | onFailure .. | fire .. => true
    | _ => false
  | onClosedLive .. => match i with | onClosed .. => true | _ => false
  | failUnlessLiveWithin .. => match i with | afterStop => true | _ => false
  | _ => false

theorem guarded_leftBy (s : Stream) (next : Guarded) :
    ∀ j ∈ (guarded same client s next).2, j.leftBy (.unlessFinished next) = true := by
  rcases next with pcm | _ | _ | ((_ | event) | event) | _
  · simp only [guarded]
    split_ifs <;> exact List.all_eq_true.mp rfl
  · exact List.all_eq_true.mp rfl
  · cases client <;> exact List.all_eq_true.mp rfl
  · exact List.all_eq_true.mp rfl
  · simp only [guarded, onCodexText]
    split_ifs <;> exact List.all_eq_true.mp rfl
  · cases event with
    | working text =>
      simp only [guarded, onClaudeText]
      split_ifs <;> exact List.all_eq_true.mp rfl
    | endpoint text =>
      simp only [guarded, onClaudeText]
      generalize (if collapsed (trim text) = [] then s.lastInterim else collapsed (trim text)) = value
      split_ifs <;> exact List.all_eq_true.mp rfl
    | transcriptError _ | serverError _ | unknown => exact List.all_eq_true.mp rfl
  · exact List.all_eq_true.mp rfl

theorem exec_leftBy (i : Instr) (s : Stream) : ∀ j ∈ (exec same client i s).2, j.leftBy i = true := by
  cases i with
  | unlessFinished next =>
    simp only [exec]
    split_ifs
    · exact List.all_eq_true.mp rfl
    · exact guarded_leftBy same client s next
  | unlessEnded next =>
    simp only [exec]
    split_ifs
    · exact List.all_eq_true.mp rfl
    · exact List.forall_mem_singleton.mpr (decide_eq_true rfl)
  | queueAudio pcm =>
    simp only [exec, queueAudio]
    split_ifs <;> exact List.all_eq_true.mp rfl
  | goLive =>
    simp only [exec, goLive]
    split_ifs <;> exact List.all_eq_true.mp rfl
  | finish how =>
    simp only [exec, finish]
    split_ifs <;> exact List.all_eq_true.mp rfl
  | fire id task =>
    cases task with
    | live seconds detail retryable =>
      simp only [exec, fire]
      split_ifs <;> exact List.all_eq_true.mp rfl
    | close | keepAlive _ => exact List.all_eq_true.mp rfl
  | setStopped => cases client <;> exact List.all_eq_true.mp rfl
  | sendAudio _ | stop | closeIfLive | afterStop | wentLive | completeIfStopped | onClosed _ _ =>
    simp only [exec, closing]
    split_ifs <;> exact List.all_eq_true.mp rfl
  | _ => exact List.all_eq_true.mp rfl

/-- A kind of instruction that another does not leave is as often pending as before. -/
theorem exec_countP {p : Instr → Bool} {i : Instr} (hp : ∀ j, j.leftBy i = true → p j = false) (s : Stream) :
    (exec same client i s).2.countP p = 0 :=
  List.countP_eq_zero.mpr fun j hj hpj => Bool.false_ne_true ((hp j (exec_leftBy same client i s j hj)).symm.trans hpj)

/-- Only a report is a report, or the stream's end. -/
theorem exec_log_reports {i : Instr} (hi : ∀ r, i ≠ .report r) (s : Stream) :
    ∃ effects : List Effect, (exec same client i s).1.log = s.log ++ effects ∧ ∀ e ∈ effects, e.reports = false := by
  cases i with
  | report r => exact absurd rfl (hi r)
  | queueAudio pcm =>
    simp only [exec, queueAudio]
    split_ifs
    · exact ⟨[.accepted pcm, .handed pcm], List.append_assoc _ _ _, by simp [Effect.reports]⟩
    · exact ⟨[.accepted pcm], rfl, by simp [Effect.reports]⟩
    · exact ⟨[], (List.append_nil _).symm, by simp⟩
  | setStopped => exact ⟨[.stopped], rfl, by simp [Effect.reports]⟩
  | requestClose => exact ⟨[.askedToClose], rfl, by simp [Effect.reports]⟩
  | cancel | clearPending => exact ⟨[], (List.append_nil _).symm, by simp⟩
  | goLive =>
    simp only [exec, goLive]
    split_ifs
    · exact ⟨[], (List.append_nil _).symm, by simp⟩
    · exact ⟨s.pending.map .handed, rfl, by simp [Effect.reports]⟩
  | finish how =>
    simp only [exec, finish]
    split_ifs <;> exact ⟨[], (List.append_nil _).symm, by simp⟩
  | _ => exact Same.log_reports (exec_same same client (by rfl) s)

/-- Only `finish` marks a stream finished. -/
theorem exec_finished {i : Instr} (hi : ∀ how, i ≠ .finish how) (s : Stream) :
    (exec same client i s).1.finished = s.finished := by
  cases i with
  | finish how => exact absurd rfl (hi how)
  | queueAudio pcm =>
    simp only [exec, queueAudio]
    split_ifs <;> rfl
  | goLive =>
    simp only [exec, goLive]
    split_ifs <;> rfl
  | setStopped | requestClose | cancel | clearPending | report _ => rfl
  | _ => exact Same.finished (exec_same same client (by rfl) s)

/-- Only a look at `finished`, or at `stopped` once live, leaves another report. -/
theorem exec_isNote {i : Instr} {s : Stream} (h : 0 < (exec same client i s).2.countP Instr.isNote) :
    s.finished = false ∨ (i = .wentLive ∧ s.stopped = false) := by
  cases i with
  | unlessFinished next =>
    refine .inl (Bool.not_eq_true _ ▸ fun hfinished => ?_)
    simp [exec, hfinished] at h
  | wentLive =>
    refine .inr ⟨rfl, Bool.not_eq_true _ ▸ fun hstopped => ?_⟩
    simp [exec, hstopped, closing, Instr.isNote] at h
  | _ =>
    exfalso
    obtain ⟨j, hj, hnote⟩ := List.countP_pos_iff.mp h
    have hby := exec_leftBy same client _ s j hj
    cases j <;> try cases hnote
    case report r =>
      cases r <;> first | exact Bool.false_ne_true hby | exact Bool.false_ne_true hnote

/-- What setting `stopped` leaves. -/
theorem exec_setStopped {p : Instr → Bool} (hcloseIfLive : p .closeIfLive = false) (hafterStop : p .afterStop = false)
    (s : Stream) : (exec same client .setStopped s).2.countP p = 0 := by
  cases client <;> simp [exec, hcloseIfLive, hafterStop]

/-- Only `setStopped` stops a stream. -/
theorem exec_stopped {i : Instr} (hi : i ≠ .setStopped) (s : Stream) :
    (exec same client i s).1.stopped = s.stopped := by
  cases i with
  | setStopped => exact absurd rfl hi
  | queueAudio pcm =>
    simp only [exec, queueAudio]
    split_ifs <;> rfl
  | goLive =>
    simp only [exec, goLive]
    split_ifs <;> rfl
  | finish how =>
    simp only [exec, finish]
    split_ifs <;> rfl
  | requestClose | cancel | clearPending | report _ => rfl
  | _ => exact Same.stopped (exec_same same client (by rfl) s)

/-- Only `cancel` cancels it. -/
theorem exec_cancelled {i : Instr} (hi : i ≠ .cancel) (s : Stream) :
    (exec same client i s).1.cancelled = s.cancelled := by
  cases i with
  | cancel => exact absurd rfl hi
  | queueAudio pcm =>
    simp only [exec, queueAudio]
    split_ifs <;> rfl
  | goLive =>
    simp only [exec, goLive]
    split_ifs <;> rfl
  | finish how =>
    simp only [exec, finish]
    split_ifs <;> rfl
  | requestClose | setStopped | clearPending | report _ => rfl
  | _ => exact Same.cancelled (exec_same same client (by rfl) s)

/-- Only `goLive` makes it live. -/
theorem exec_live {i : Instr} (hi : i ≠ .goLive) (s : Stream) : (exec same client i s).1.live = s.live := by
  cases i with
  | goLive => exact absurd rfl hi
  | queueAudio pcm =>
    simp only [exec, queueAudio]
    split_ifs <;> rfl
  | finish how =>
    simp only [exec, finish]
    split_ifs <;> rfl
  | requestClose | setStopped | cancel | clearPending | report _ => rfl
  | _ => exact Same.live (exec_same same client (by rfl) s)

/-- Only `requestClose` asks the provider to close. -/
theorem exec_log_asksToClose {i : Instr} (hi : i ≠ .requestClose) (s : Stream) :
    (exec same client i s).1.log.countP Effect.asksToClose = s.log.countP Effect.asksToClose := by
  cases i with
  | requestClose => exact absurd rfl hi
  | queueAudio pcm =>
    simp only [exec, queueAudio]
    split_ifs <;> simp [Stream.note, Effect.asksToClose]
  | goLive =>
    simp only [exec, goLive]
    split_ifs <;> simp [Effect.asksToClose, List.countP_map, Function.comp_def]
  | finish how =>
    simp only [exec, finish]
    split_ifs <;> rfl
  | setStopped | report _ => simp [exec, Stream.note, Effect.asksToClose]
  | cancel | clearPending => rfl
  | _ => exact Same.countP_log (exec_same same client (by rfl) s) fun _ => Effect.asksToClose_of_quiet

/-- What comes to ask the provider to close comes from one of five instructions. -/
theorem exec_closing {i : Instr} (hi : i ∉ [.goLive, .wentLive, .closeIfLive, .setStopped, .requestClose]) (s : Stream) :
    (exec same client i s).2.countP Instr.isRequestClose = 0 ∧ (exec same client i s).2.countP Instr.isWentLive = 0 ∧
      (exec same client i s).2.countP Instr.isCloseIfLive = 0 := by
  refine ⟨exec_countP same client (fun j hj => ?_) s, exec_countP same client (fun j hj => ?_) s,
    exec_countP same client (fun j hj => ?_) s⟩
  all_goals
    cases j <;> first | rfl | skip
    cases i <;> first | exact absurd hj Bool.false_ne_true | simp at hi

/-- A `stop` past its look at `stopped` comes from that look. -/
theorem exec_isStopping {i : Instr} {s : Stream} (h : 0 < (exec same client i s).2.countP Instr.isStopping) :
    i.isStopping = true ∨ (i = .stop ∧ s.stopped = false) := by
  obtain ⟨j, hj, hstopping⟩ := List.countP_pos_iff.mp h
  have hby := exec_leftBy same client i s j hj
  cases j with
  | unlessEnded next =>
    cases next with
    | stop =>
      cases i with
      | stop =>
        refine .inr ⟨rfl, Bool.not_eq_true _ ▸ fun hstopped => ?_⟩
        simp [exec, hstopped] at hj
      | _ => exact absurd hby Bool.false_ne_true
    | _ => exact absurd hstopping Bool.false_ne_true
  | unlessFinished next =>
    cases next with
    | stop =>
      cases i with
      | unlessEnded next => exact .inl (of_decide_eq_true hby ▸ rfl)
      | _ => exact absurd hby Bool.false_ne_true
    | _ => exact absurd hstopping Bool.false_ne_true
  | setStopped =>
    cases i with
    | unlessFinished next => cases next <;> first | exact .inl rfl | exact absurd hby Bool.false_ne_true
    | _ => exact absurd hby Bool.false_ne_true
  | _ => exact absurd hstopping Bool.false_ne_true

/-- A chunk past the look at `stopped` comes from that look. -/
theorem exec_isOpenAudio {i : Instr} {s : Stream} (h : 0 < (exec same client i s).2.countP Instr.isOpenAudio) :
    i.isOpenAudio = true ∨ s.stopped = false := by
  obtain ⟨j, hj, hopen⟩ := List.countP_pos_iff.mp h
  have hby := exec_leftBy same client i s j hj
  cases j with
  | unlessEnded next =>
    cases next with
    | audio pcm =>
      cases i with
      | sendAudio pcm =>
        refine .inr (Bool.not_eq_true _ ▸ fun hstopped => ?_)
        simp [exec, hstopped] at hj
      | _ => exact absurd hby Bool.false_ne_true
    | _ => exact absurd hopen Bool.false_ne_true
  | unlessFinished next =>
    cases next with
    | audio pcm =>
      cases i with
      | unlessEnded next => exact .inl (of_decide_eq_true hby ▸ rfl)
      | _ => exact absurd hby Bool.false_ne_true
    | _ => exact absurd hopen Bool.false_ne_true
  | queueAudio pcm =>
    cases i with
    | unlessFinished next => cases next <;> first | exact .inl rfl | exact absurd hby Bool.false_ne_true
    | _ => exact absurd hby Bool.false_ne_true
  | _ => exact absurd hopen Bool.false_ne_true

/-- A chunk past the look at `cancelled` comes from that look. -/
theorem exec_isUncancelledAudio {i : Instr} {s : Stream}
    (h : 0 < (exec same client i s).2.countP Instr.isUncancelledAudio) :
    i.isUncancelledAudio = true ∨ s.cancelled = false := by
  obtain ⟨j, hj, hopen⟩ := List.countP_pos_iff.mp h
  have hby := exec_leftBy same client i s j hj
  cases j with
  | unlessFinished next =>
    cases next with
    | audio pcm =>
      cases i with
      | unlessEnded next =>
        refine .inr (Bool.not_eq_true _ ▸ fun hcancelled => ?_)
        simp [exec, hcancelled] at hj
      | _ => exact absurd hby Bool.false_ne_true
    | _ => exact absurd hopen Bool.false_ne_true
  | queueAudio pcm =>
    cases i with
    | unlessFinished next => cases next <;> first | exact .inl rfl | exact absurd hby Bool.false_ne_true
    | _ => exact absurd hby Bool.false_ne_true
  | _ => exact absurd hopen Bool.false_ne_true

/-- The app's own calls come from the app's own calls. -/
theorem isApp_of_leftBy {i j : Instr} (h : j.leftBy i = true) (hj : j.isApp = true) : i.isApp = true := by
  cases j with
  | unlessEnded next =>
    cases next <;> first | exact absurd hj Bool.false_ne_true | skip
    all_goals cases i <;> first | rfl | exact absurd h Bool.false_ne_true
  | unlessFinished next =>
    cases next <;> first | exact absurd hj Bool.false_ne_true | skip
    all_goals cases i <;> first | exact absurd h Bool.false_ne_true | exact of_decide_eq_true h ▸ rfl
  | queueAudio pcm =>
    cases i with
    | unlessFinished next => cases next <;> first | rfl | exact absurd h Bool.false_ne_true
    | _ => exact absurd h Bool.false_ne_true
  | setStopped =>
    cases i with
    | unlessFinished next => cases next <;> first | rfl | exact absurd h Bool.false_ne_true
    | _ => exact absurd h Bool.false_ne_true
  | sendAudio _ | stop | cancel => cases i <;> exact absurd h Bool.false_ne_true
  | _ => exact absurd hj Bool.false_ne_true

/-- What is left of the app's own calls is one instruction. -/
theorem exec_isApp (i : Instr) (s : Stream) :
    (exec same client i s).2.countP Instr.isApp ≤ if i.isApp then 1 else 0 := by
  split_ifs with hi
  · cases i with
    | sendAudio _ | stop | unlessEnded _ =>
      simp only [exec]
      split_ifs
      · exact Nat.zero_le 1
      · exact List.countP_le_length
    | unlessFinished next =>
      simp only [exec]
      split_ifs
      · exact Nat.zero_le 1
      · cases next with
        | audio pcm =>
          simp only [guarded]
          split_ifs
          · exact Nat.zero_le 1
          · exact List.countP_le_length
        | stop => exact List.countP_le_length
        | _ => exact absurd hi Bool.false_ne_true
    | queueAudio pcm =>
      simp only [exec, queueAudio]
      split_ifs
      · exact Nat.zero_le 1
      · exact Nat.zero_le 1
      · exact List.countP_le_length
    | setStopped =>
      simp only [exec]
      split_ifs <;> exact Nat.zero_le 1
    | cancel => exact Nat.zero_le 1
    | _ => exact absurd hi Bool.false_ne_true
  · rw [exec_countP same client fun j hj => Bool.not_eq_true _ ▸ fun happ => hi (isApp_of_leftBy hj happ)]

end Steps

/-! ## The end -/

/-- The end was reported or is about to be, at most once, and only of a finished stream; no other report is made after
it. -/
structure Ends (c : Threads.State Stream Instr Party) : Prop where
  once : c.shared.log.countP Effect.ends + pending Instr.isEnd c.code ≤ c.shared.finished.toNat
  open_ : 0 < pending Instr.isNote c.code → c.shared.log.countP Effect.ends = 0
  quiet : Each (fun before e => e.reports = true → ∀ b ∈ before, b.ends = false) c.shared.log

section Ends

variable {same : Char → Char → Bool} {client : Client} {c : Threads.State Stream Instr Party}
  {t : Party} {i : Instr} {k : List Instr}

/-- An instruction that reports nothing and does not finish the stream. -/
theorem Ends.other (h : Ends c) (hcode : c.code t = i :: k) (hok : Uncrossed c (.run t)) (hreport : ∀ r, i ≠ .report r)
    (hfinish : ∀ how, i ≠ .finish how) :
    Ends ⟨(exec same client i c.shared).1, Function.update c.code t ((exec same client i c.shared).2 ++ k)⟩ := by
  obtain ⟨effects, hlog, hquiet⟩ := exec_log_reports same client hreport c.shared
  have hnoEnd : effects.countP Effect.ends = 0 := List.countP_eq_zero.mpr fun e he hends =>
    Bool.false_ne_true ((hquiet e he).symm.trans (Effect.reports_of_ends hends))
  have hcount : (exec same client i c.shared).1.log.countP Effect.ends = c.shared.log.countP Effect.ends := by
    rw [hlog, List.countP_append, hnoEnd, Nat.add_zero]
  have hfinished := exec_finished same client hfinish c.shared
  have hend := pending_run Instr.isEnd hcode (exec same client i c.shared).2
  have hnone : (exec same client i c.shared).2.countP Instr.isEnd = 0 := by
    refine exec_countP same client (fun j hj => ?_) c.shared
    cases j <;> try rfl
    case report r =>
      cases r <;> try rfl
      cases i <;> first | exact absurd rfl (hfinish _) | cases hj
  refine ⟨?_, fun hnote => ?_, ?_⟩
  · have := h.once
    simp only [hcount, hfinished]
    omega
  · have hleft := pending_run Instr.isNote hcode (exec same client i c.shared).2
    simp only [hcount]
    by_cases hbefore : 0 < pending Instr.isNote c.code
    · exact h.open_ hbefore
    · -- what was left is a report, of a stream not finished or just live
      have hnew : 0 < (exec same client i c.shared).2.countP Instr.isNote := by
        dsimp only at hnote
        omega
      obtain ⟨hunfinished⟩ | ⟨rfl, hunstopped⟩ := exec_isNote same client hnew
      · have := h.once
        rw [hunfinished, Bool.toNat_false] at this
        omega
      · exact hok.wentLive hcode hunstopped
  · simp only [hlog]
    exact h.quiet.append fun before e after heq hreports => absurd hreports (by simp [hquiet e (heq ▸ by simp)])

/-- **A report** keeps the end the last. -/
theorem Ends.report {r : Report} (h : Ends c) (hcode : c.code t = .report r :: k) (hok : Uncrossed c (.run t)) :
    Ends ⟨c.shared.note (.reported r), Function.update c.code t k⟩ := by
  have hend : pending Instr.isEnd (Function.update c.code t k) + (if r.ends then 1 else 0)
      = pending Instr.isEnd c.code := pending_run Instr.isEnd hcode []
  have hnote : pending Instr.isNote (Function.update c.code t k) + (if !r.ends then 1 else 0)
      = pending Instr.isNote c.code := pending_run Instr.isNote hcode []
  have honce := h.once
  have hfinished := Bool.toNat_le c.shared.finished
  -- in either case no end was reported before
  have hnone : c.shared.log.countP Effect.ends = 0 := by
    cases hr : r.ends with
    | true =>
      rw [hr, if_pos rfl] at hend
      omega
    | false =>
      rw [hr, Bool.not_false, if_pos rfl] at hnote
      exact h.open_ (by omega)
  have hlog : (c.shared.note (.reported r)).log.countP Effect.ends = if r.ends then 1 else 0 := by
    rw [Stream.note, List.countP_append, hnone, List.countP_singleton, Nat.zero_add]
    rfl
  refine ⟨?_, fun hpending => ?_, h.quiet.snoc fun _ b hb => ?_⟩
  · change (c.shared.note (.reported r)).log.countP Effect.ends + pending Instr.isEnd (Function.update c.code t k)
      ≤ c.shared.finished.toNat
    omega
  · change (c.shared.note (.reported r)).log.countP Effect.ends = 0
    cases hr : r.ends with
    | true =>
      have hother := hok.report hcode hr
      dsimp only at hpending
      omega
    | false => rw [hlog, hr, if_neg Bool.false_ne_true]
  · exact Bool.not_eq_true _ ▸ List.countP_eq_zero.mp hnone b hb

/-- What `finish` does: nothing to a stream that ended, and else it leaves one report of the end. -/
theorem finish_cases (s : Stream) (how : End) :
    finish s how = (s, []) ∨
      (s.cancelled = false ∧ s.finished = false ∧ (finish s how).1 = { s with finished := true } ∧
        (finish s how).2.countP Instr.isEnd = 1 ∧ (finish s how).2.countP Instr.isNote = 0) := by
  rw [finish]
  split_ifs with hended hhow
  · exact .inl rfl
  · rw [Bool.or_eq_true, not_or, Bool.not_eq_true, Bool.not_eq_true] at hended
    exact .inr ⟨hended.1, hended.2, rfl, rfl, rfl⟩
  · rw [Bool.or_eq_true, not_or, Bool.not_eq_true, Bool.not_eq_true] at hended
    exact .inr ⟨hended.1, hended.2, rfl, rfl, rfl⟩

/-- **Finishing** reports one end, of a stream that had not ended. -/
theorem Ends.finish {how : End} (h : Ends c) (hcode : c.code t = .finish how :: k) :
    Ends ⟨(finish c.shared how).1, Function.update c.code t ((finish c.shared how).2 ++ k)⟩ := by
  have hend : pending Instr.isEnd (Function.update c.code t ((StreamLifecycle.finish c.shared how).2 ++ k))
      = pending Instr.isEnd c.code + _ := pending_run Instr.isEnd hcode (StreamLifecycle.finish c.shared how).2
  have hnote : pending Instr.isNote (Function.update c.code t ((StreamLifecycle.finish c.shared how).2 ++ k))
      = pending Instr.isNote c.code + _ := pending_run Instr.isNote hcode (StreamLifecycle.finish c.shared how).2
  obtain hnone | ⟨-, hopen, hshared, hone, hnotes⟩ := finish_cases c.shared how
  · rw [hnone] at hend hnote ⊢
    exact ⟨hend ▸ h.once, fun hpending => h.open_ (lt_of_lt_of_eq hpending hnote), h.quiet⟩
  · have honce := h.once
    rw [hopen, Bool.toNat_false] at honce
    rw [hone] at hend
    rw [hnotes] at hnote
    rw [hshared]
    refine ⟨?_, fun hpending => ?_, h.quiet⟩
    · change c.shared.log.countP Effect.ends + _ ≤ true.toNat
      rw [Bool.toNat_true]
      dsimp only
      omega
    · exact h.open_ (lt_of_lt_of_eq hpending hnote)

/-- A call reports nothing. -/
theorem Ends.call (h : Ends c) (hcode : c.code t = []) (hcall : calls client t c.shared i = true) :
    Ends ⟨c.shared, Function.update c.code t [i]⟩ := by
  have hkind : i.isEnd = false ∧ i.isNote = false := by
    cases i <;> first | exact ⟨rfl, rfl⟩ | (cases t <;> cases hcall)
  have hend := pending_call Instr.isEnd hcode i
  have hnote := pending_call Instr.isNote hcode i
  rw [hkind.1, if_neg Bool.false_ne_true] at hend
  rw [hkind.2, if_neg Bool.false_ne_true] at hnote
  exact ⟨hend ▸ h.once, fun hpending => h.open_ (lt_of_lt_of_eq hpending hnote), h.quiet⟩

end Ends

/-! ## The app's calls -/

/-- Whatever the app is inside of, the flags it looked at are still as it saw them. -/
structure App (c : Threads.State Stream Instr Party) : Prop where
  stopping : 0 < pending Instr.isStopping c.code → c.shared.stopped = false
  openAudio : 0 < pending Instr.isOpenAudio c.code → c.shared.stopped = false
  uncancelled : 0 < pending Instr.isUncancelledAudio c.code → c.shared.cancelled = false
  clearing : 0 < pending Instr.isClearPending c.code → c.shared.cancelled = true

section App

variable (same : Char → Char → Bool) (client : Client) {c : Threads.State Stream Instr Party}
  {t : Party} {i : Instr} {k : List Instr}

/-- While the app is inside one of its calls it is inside no other. -/
theorem pending_eq_zero {p : Instr → Bool} (hone : pending Instr.isApp c.code ≤ 1) (hcode : c.code t = i :: k)
    (hi : i.isApp = true) (hp : ∀ j, p j = true → j.isApp = true ∧ j ≠ i) : pending p c.code = 0 := by
  have hself := pending_pos (p := (· == i)) hcode (beq_self_eq_true i)
  have hsum := pending_add_le (p := p) (q := (· == i)) (r := Instr.isApp)
    (fun j hj => ⟨(hp j hj).1, beq_eq_false_iff_ne.mpr (hp j hj).2⟩) (fun j hj => eq_of_beq hj ▸ hi) c.code
  omega

theorem App.run (h : App c) (hone : pending Instr.isApp c.code ≤ 1) (hcode : c.code t = i :: k) :
    App ⟨(exec same client i c.shared).1, Function.update c.code t ((exec same client i c.shared).2 ++ k)⟩ := by
  refine ⟨fun hpos => ?_, fun hpos => ?_, fun hpos => ?_, fun hpos => ?_⟩
  · obtain rfl | hi := eq_or_ne i .setStopped
    · have hrun := pending_run_self (p := Instr.isStopping) rfl hcode (exec same client .setStopped c.shared).2
      rw [exec_setStopped same client rfl rfl c.shared] at hrun
      have hle := pending_mono Instr.isApp_of_isStopping c.code
      dsimp only at hpos
      omega
    · rw [exec_stopped same client hi]
      obtain hbefore | hnew := pending_run_pos hcode hpos
      · exact h.stopping hbefore
      · obtain hself | ⟨-, hstopped⟩ := exec_isStopping same client hnew
        · exact h.stopping (pending_pos hcode hself)
        · exact hstopped
  · obtain rfl | hi := eq_or_ne i .setStopped
    · have hnone := pending_eq_zero hone hcode rfl fun j hj =>
        ⟨Instr.isApp_of_isOpenAudio j hj, by rintro rfl; exact Bool.false_ne_true hj⟩
      obtain hbefore | hnew := pending_run_pos hcode hpos
      · omega
      · rw [exec_setStopped same client rfl rfl c.shared] at hnew
        omega
    · rw [exec_stopped same client hi]
      obtain hbefore | hnew := pending_run_pos hcode hpos
      · exact h.openAudio hbefore
      · obtain hself | hstopped := exec_isOpenAudio same client hnew
        · exact h.openAudio (pending_pos hcode hself)
        · exact hstopped
  · obtain rfl | hi := eq_or_ne i .cancel
    · have hnone := pending_eq_zero hone hcode rfl fun j hj =>
        ⟨Instr.isApp_of_isOpenAudio j (Instr.isOpenAudio_of_isUncancelledAudio j hj), by
          rintro rfl
          exact Bool.false_ne_true hj⟩
      obtain hbefore | hnew := pending_run_pos hcode hpos
      · omega
      · exact absurd hnew (Nat.lt_irrefl 0)
    · rw [exec_cancelled same client hi]
      obtain hbefore | hnew := pending_run_pos hcode hpos
      · exact h.uncancelled hbefore
      · obtain hself | hcancelled := exec_isUncancelledAudio same client hnew
        · exact h.uncancelled (pending_pos hcode hself)
        · exact hcancelled
  · obtain rfl | hi := eq_or_ne i .cancel
    · rfl
    · rw [exec_cancelled same client hi]
      obtain hbefore | hnew := pending_run_pos hcode hpos
      · exact h.clearing hbefore
      · have hnone : (exec same client i c.shared).2.countP Instr.isClearPending = 0 := by
          refine exec_countP same client (fun j hj => ?_) c.shared
          cases j <;> first | rfl | skip
          cases i <;> first | exact absurd rfl hi | exact absurd hj Bool.false_ne_true
        omega

theorem App.call (h : App c) (hcode : c.code t = []) (hcall : calls client t c.shared i = true) :
    App ⟨c.shared, Function.update c.code t [i]⟩ := by
  have hkind : i.isStopping = false ∧ i.isOpenAudio = false ∧ i.isUncancelledAudio = false ∧
      i.isClearPending = false := by
    cases i <;> first | exact ⟨rfl, rfl, rfl, rfl⟩ | skip
    case unlessEnded next => cases next <;> first | exact ⟨rfl, rfl, rfl, rfl⟩ | (cases t <;> cases hcall)
    all_goals cases t <;> cases hcall
  refine ⟨fun hpos => ?_, fun hpos => ?_, fun hpos => ?_, fun hpos => ?_⟩
  · obtain hbefore | hi := pending_call_pos hcode hpos
    · exact h.stopping hbefore
    · exact absurd (hkind.1.symm.trans hi) Bool.false_ne_true
  · obtain hbefore | hi := pending_call_pos hcode hpos
    · exact h.openAudio hbefore
    · exact absurd (hkind.2.1.symm.trans hi) Bool.false_ne_true
  · obtain hbefore | hi := pending_call_pos hcode hpos
    · exact h.uncancelled hbefore
    · exact absurd (hkind.2.2.1.symm.trans hi) Bool.false_ne_true
  · obtain hbefore | hi := pending_call_pos hcode hpos
    · exact h.clearing hbefore
    · exact absurd (hkind.2.2.2.symm.trans hi) Bool.false_ne_true

end App

/-! ## Closing -/

/-- The provider was asked to close, or is about to be, or a thread may still come to ask: one of these at most, as
long as `stop` and `goLive` do not cross. -/
structure Closing (c : Threads.State Stream Instr Party) : Prop where
  once : c.shared.log.countP Effect.asksToClose + pending Instr.isRequestClose c.code +
    pending Instr.isWentLive c.code + pending Instr.isCloseIfLive c.code ≤ 1
  unstopped : c.shared.stopped = false →
    c.shared.log.countP Effect.asksToClose + pending Instr.isRequestClose c.code + pending Instr.isCloseIfLive c.code = 0
  unlive : c.shared.live = false →
    c.shared.log.countP Effect.asksToClose + pending Instr.isRequestClose c.code + pending Instr.isWentLive c.code = 0

section Closing

variable (same : Char → Char → Bool) (client : Client) {c : Threads.State Stream Instr Party}
  {t : Party} {i : Instr} {k : List Instr}

/-- An instruction that has nothing to do with closing. -/
theorem Closing.other (h : Closing c) (hcode : c.code t = i :: k)
    (hi : i ∉ [.goLive, .wentLive, .closeIfLive, .setStopped, .requestClose]) :
    Closing ⟨(exec same client i c.shared).1, Function.update c.code t ((exec same client i c.shared).2 ++ k)⟩ := by
  obtain ⟨hnoRequest, hnoWent, hnoIf⟩ := exec_closing same client hi c.shared
  simp only [List.mem_cons, List.not_mem_nil, or_false, not_or] at hi
  obtain ⟨hgoLive, hwentLive, hcloseIfLive, hsetStopped, hrequestClose⟩ := hi
  have hrequest : pending Instr.isRequestClose (Function.update c.code t ((exec same client i c.shared).2 ++ k))
      = pending Instr.isRequestClose c.code :=
    (pending_run_other (by cases i <;> first | rfl | exact absurd rfl hrequestClose) hcode _).trans (by rw [hnoRequest]; rfl)
  have hwent : pending Instr.isWentLive (Function.update c.code t ((exec same client i c.shared).2 ++ k))
      = pending Instr.isWentLive c.code :=
    (pending_run_other (by cases i <;> first | rfl | exact absurd rfl hwentLive) hcode _).trans (by rw [hnoWent]; rfl)
  have hif : pending Instr.isCloseIfLive (Function.update c.code t ((exec same client i c.shared).2 ++ k))
      = pending Instr.isCloseIfLive c.code :=
    (pending_run_other (by cases i <;> first | rfl | exact absurd rfl hcloseIfLive) hcode _).trans (by rw [hnoIf]; rfl)
  have hlog := exec_log_asksToClose same client hrequestClose c.shared
  refine ⟨?_, fun hstopped => ?_, fun hlive => ?_⟩
  · rw [hlog, hrequest, hwent, hif]
    exact h.once
  · rw [hlog, hrequest, hif]
    exact h.unstopped (exec_stopped same client hsetStopped c.shared ▸ hstopped)
  · rw [hlog, hrequest, hwent]
    exact h.unlive (exec_live same client hgoLive c.shared ▸ hlive)

/-- What a thread may still do about closing, as one move changes it. -/
theorem Closing.run (h : Closing c) (hcode : c.code t = i :: k) (happ : App c) (hok : Uncrossed c (.run t)) :
    Closing ⟨(exec same client i c.shared).1, Function.update c.code t ((exec same client i c.shared).2 ++ k)⟩ := by
  obtain ⟨honce, hunstopped, hunlive⟩ := h
  cases i with
  | requestClose =>
    have hpos := pending_pos (p := Instr.isRequestClose) hcode rfl
    have hrequest := pending_run_self (p := Instr.isRequestClose) rfl hcode []
    have hwent := pending_run_other (p := Instr.isWentLive) rfl hcode []
    have hif := pending_run_other (p := Instr.isCloseIfLive) rfl hcode []
    have hlog : (c.shared.note .askedToClose).log.countP Effect.asksToClose
        = c.shared.log.countP Effect.asksToClose + 1 := List.countP_append
    rw [List.countP_nil] at hrequest hwent hif
    refine ⟨by dsimp only [exec]; omega, fun hstopped => ?_, fun hlive => ?_⟩
    · have := hunstopped hstopped
      omega
    · have := hunlive hlive
      omega
  | goLive =>
    simp only [exec, goLive]
    split_ifs with hlive
    · have hrequest := pending_run_other (p := Instr.isRequestClose) rfl hcode []
      have hwent := pending_run_other (p := Instr.isWentLive) rfl hcode []
      have hif := pending_run_other (p := Instr.isCloseIfLive) rfl hcode []
      rw [List.countP_nil, Nat.add_zero] at hrequest hwent hif
      exact ⟨by dsimp only; omega, fun hstopped => by have := hunstopped hstopped; dsimp only; omega,
        fun hunlive => absurd (hlive.symm.trans hunlive) (by simp)⟩
    · -- `stop` is not between its two flags, so no one else comes to ask
      rw [Bool.not_eq_true] at hlive
      have hrequest := pending_run_other (p := Instr.isRequestClose) rfl hcode [.wentLive]
      have hwent := pending_run_other (p := Instr.isWentLive) rfl hcode [.wentLive]
      have hif := pending_run_other (p := Instr.isCloseIfLive) rfl hcode [.wentLive]
      have hnoIf := hok.goLive hcode hlive
      have hnone := hunlive hlive
      have hlog := exec_log_asksToClose same client (i := .goLive) (by simp) c.shared
      rw [exec, goLive, if_neg (Bool.not_eq_true _ ▸ hlive)] at hlog
      change _ = _ + 0 at hrequest hif
      change _ = _ + 1 at hwent
      exact ⟨by dsimp only at hlog ⊢; omega, fun _ => by dsimp only at hlog ⊢; omega,
        fun hunlive => absurd hunlive.symm Bool.false_ne_true⟩
  | wentLive =>
    have hpos := pending_pos (p := Instr.isWentLive) hcode rfl
    have hlive : c.shared.live = true := by
      by_contra hlive
      have := hunlive (Bool.not_eq_true _ ▸ hlive)
      omega
    simp only [exec]
    split_ifs with hstopped
    · have hrequest := pending_run_other (p := Instr.isRequestClose) rfl hcode closing
      have hwent := pending_run_self (p := Instr.isWentLive) rfl hcode closing
      have hif := pending_run_other (p := Instr.isCloseIfLive) rfl hcode closing
      change _ = _ + 1 at hrequest
      change _ = _ + 0 at hwent hif
      exact ⟨by dsimp only; omega, fun hunstopped => absurd (hstopped.symm.trans hunstopped) (by simp),
        fun hunlive => absurd (hlive.symm.trans hunlive) (by simp)⟩
    · have hrequest := pending_run_other (p := Instr.isRequestClose) rfl hcode [.report .connected]
      have hwent := pending_run_self (p := Instr.isWentLive) rfl hcode [.report .connected]
      have hif := pending_run_other (p := Instr.isCloseIfLive) rfl hcode [.report .connected]
      change _ = _ + 0 at hrequest hwent hif
      exact ⟨by dsimp only; omega, fun hstopped => by have := hunstopped hstopped; dsimp only; omega,
        fun hunlive => absurd (hlive.symm.trans hunlive) (by simp)⟩
  | closeIfLive =>
    have hpos := pending_pos (p := Instr.isCloseIfLive) hcode rfl
    have hstopped : c.shared.stopped = true := by
      by_contra hstopped
      have := hunstopped (Bool.not_eq_true _ ▸ hstopped)
      omega
    simp only [exec]
    split_ifs with hlive
    · have hrequest := pending_run_other (p := Instr.isRequestClose) rfl hcode closing
      have hwent := pending_run_other (p := Instr.isWentLive) rfl hcode closing
      have hif := pending_run_self (p := Instr.isCloseIfLive) rfl hcode closing
      change _ = _ + 1 at hrequest
      change _ = _ + 0 at hwent hif
      exact ⟨by dsimp only; omega, fun hunstopped => absurd (hstopped.symm.trans hunstopped) (by simp),
        fun hunlive => absurd (hlive.symm.trans hunlive) (by simp)⟩
    · have hrequest := pending_run_other (p := Instr.isRequestClose) rfl hcode []
      have hwent := pending_run_other (p := Instr.isWentLive) rfl hcode []
      have hif := pending_run_self (p := Instr.isCloseIfLive) rfl hcode []
      rw [List.countP_nil, Nat.add_zero] at hrequest hwent hif
      have := hunlive (Bool.not_eq_true _ ▸ hlive)
      exact ⟨by dsimp only; omega, fun hunstopped => absurd (hstopped.symm.trans hunstopped) (by simp),
        fun _ => by dsimp only; omega⟩
  | setStopped =>
    -- `goLive` is not between its two flags, so no one else comes to ask
    have hnone := hunstopped (happ.stopping (pending_pos hcode rfl))
    have hnoWent := hok.setStopped hcode
    have hlog := exec_log_asksToClose same client (i := .setStopped) (by simp) c.shared
    have hrequest := pending_run_other (p := Instr.isRequestClose) rfl hcode (exec same client .setStopped c.shared).2
    have hwent := pending_run_other (p := Instr.isWentLive) rfl hcode (exec same client .setStopped c.shared).2
    have hif := pending_run_other (p := Instr.isCloseIfLive) rfl hcode (exec same client .setStopped c.shared).2
    rw [exec_setStopped same client rfl rfl] at hrequest hwent
    have hone : (exec same client .setStopped c.shared).2.countP Instr.isCloseIfLive = 1 := by
      cases client <;> rfl
    refine ⟨by dsimp only; omega, fun hunstopped => absurd hunstopped.symm Bool.false_ne_true, fun hlive => ?_⟩
    have := hunlive hlive
    dsimp only
    omega
  | _ => exact Closing.other same client ⟨honce, hunstopped, hunlive⟩ hcode (by simp)

/-- A call has asked for nothing yet. -/
theorem Closing.call (h : Closing c) (hcode : c.code t = []) (hcall : calls client t c.shared i = true) :
    Closing ⟨c.shared, Function.update c.code t [i]⟩ := by
  have hkind : i.isRequestClose = false ∧ i.isWentLive = false ∧ i.isCloseIfLive = false := by
    cases i <;> first | exact ⟨rfl, rfl, rfl⟩ | (cases t <;> cases hcall)
  have hrequest := pending_call Instr.isRequestClose hcode i
  have hwent := pending_call Instr.isWentLive hcode i
  have hif := pending_call Instr.isCloseIfLive hcode i
  simp only [hkind, Bool.false_eq_true, if_false, Nat.add_zero] at hrequest hwent hif
  exact ⟨hrequest ▸ hwent ▸ hif ▸ h.once, fun hstopped => hrequest ▸ hif ▸ h.unstopped hstopped,
    fun hlive => hrequest ▸ hwent ▸ h.unlive hlive⟩

end Closing

/-! ## The audio -/

/-- What was handed over, with what is held, is what was accepted, until the stream was cancelled. -/
structure Audio (s : Stream) : Prop where
  flushed : s.live = true → s.pending = []
  whole : s.cancelled = false → handedIn s.log ++ s.pending = acceptedIn s.log
  part : handedIn s.log ++ s.pending <+: acceptedIn s.log
  noneAfterClose : Each (fun before e => e.hands = true → ∀ b ∈ before, b.asksToClose = false) s.log

section Audio

variable (same : Char → Char → Bool) (client : Client) {c : Threads.State Stream Instr Party}
  {t : Party} {i : Instr} {k : List Instr}

theorem Audio.of_same {s s' : Stream} (h : Audio s) (hs : Same s s') : Audio s' := by
  have hhanded : handedIn s'.log = handedIn s.log := hs.filterMap_log fun _ => Effect.handed?_of_quiet
  have haccepted : acceptedIn s'.log = acceptedIn s.log := hs.filterMap_log fun _ => Effect.accepted?_of_quiet
  refine ⟨fun hlive => ?_, fun hcancelled => ?_, ?_, hs.each_log (fun _ e he hhands => ?_) h.noneAfterClose⟩
  · exact hs.pending.trans (h.flushed (hs.live ▸ hlive))
  · rw [hhanded, haccepted, hs.pending]
    exact h.whole (hs.cancelled ▸ hcancelled)
  · rw [hhanded, haccepted, hs.pending]
    exact h.part
  · exact absurd ((Effect.hands_of_quiet he).symm.trans hhands) Bool.false_ne_true

/-- A log that grows by neither audio nor a request to close. -/
theorem Audio.grown {s s' : Stream} (h : Audio s) {e : Effect} (haccepted : e.accepted? = none)
    (hhanded : e.handed? = none) (hhands : e.hands = false) (hlog : s'.log = s.log ++ [e]) (hlive : s'.live = s.live)
    (hcancelled : s'.cancelled = s.cancelled) (hpending : s'.pending = s.pending) : Audio s' := by
  have hhanded' : handedIn s'.log = handedIn s.log := by simp [handedIn, hlog, hhanded]
  have haccepted' : acceptedIn s'.log = acceptedIn s.log := by simp [acceptedIn, hlog, haccepted]
  refine ⟨fun hl => hpending ▸ h.flushed (hlive ▸ hl), fun hc => ?_, ?_, ?_⟩
  · rw [hhanded', haccepted', hpending]
    exact h.whole (hcancelled ▸ hc)
  · rw [hhanded', haccepted', hpending]
    exact h.part
  · rw [hlog]
    exact h.noneAfterClose.snoc fun hh => absurd (hhands.symm.trans hh) Bool.false_ne_true

/-- A provider that was not asked to close. -/
theorem not_asked {s : Stream} (h : s.log.countP Effect.asksToClose = 0) :
    ∀ b ∈ s.log, b.asksToClose = false :=
  fun b hb => Bool.not_eq_true _ ▸ List.countP_eq_zero.mp h b hb

/-- **A chunk** is handed over at once by a live stream, which holds nothing, and held by another. -/
theorem Audio.queueAudio {pcm : List UInt8} (h : Audio c.shared) (hcode : c.code t = .queueAudio pcm :: k)
    (happ : App c) (hclosing : Closing c) : Audio (queueAudio c.shared pcm).1 := by
  have hcancelled := happ.uncancelled (pending_pos hcode rfl)
  have hasked := hclosing.unstopped (happ.openAudio (pending_pos hcode rfl))
  have hwhole := h.whole hcancelled
  rw [StreamLifecycle.queueAudio]
  split_ifs with hlive hfits
  · have hpending := h.flushed hlive
    rw [hpending, List.append_nil] at hwhole
    have heq : handedIn (c.shared.log ++ [.accepted pcm] ++ [.handed pcm])
        = acceptedIn (c.shared.log ++ [.accepted pcm] ++ [.handed pcm]) := by
      simp only [handedIn, acceptedIn, List.filterMap_append] at hwhole ⊢
      rw [hwhole, List.append_assoc, List.append_assoc]
      rfl
    refine ⟨fun _ => hpending, fun _ => ?_, ?_, ?_⟩
    · exact (congrArg (_ ++ ·) hpending).trans ((List.append_nil _).trans heq)
    · exact (congrArg (_ ++ ·) hpending).trans ((List.append_nil _).trans heq) ▸ List.prefix_rfl
    · refine (h.noneAfterClose.snoc fun hh => absurd hh (by simp [Effect.hands])).snoc fun _ b hb => ?_
      rcases List.mem_append.mp hb with hb | hb
      · exact not_asked (by omega) b hb
      · rw [List.mem_singleton.mp hb]
        rfl
  · have heq : handedIn (c.shared.log ++ [.accepted pcm]) ++ (c.shared.pending ++ [pcm])
        = acceptedIn (c.shared.log ++ [.accepted pcm]) := by
      rw [acceptedIn] at hwhole
      simp [handedIn, acceptedIn, Effect.accepted?, Effect.handed?, ← hwhole]
    exact ⟨fun hl => absurd hl hlive, fun _ => heq, heq ▸ List.prefix_rfl,
      h.noneAfterClose.snoc fun hh => absurd hh (by simp [Effect.hands])⟩
  · exact h

/-- **Going live** hands over what was held. -/
theorem Audio.goLive (h : Audio c.shared) (hclosing : Closing c) : Audio (goLive c.shared).1 := by
  rw [StreamLifecycle.goLive]
  split_ifs with hlive
  · exact h
  · have hasked := hclosing.unlive (Bool.not_eq_true _ ▸ hlive)
    have hhanded : handedIn (c.shared.log ++ c.shared.pending.map .handed) = handedIn c.shared.log ++ c.shared.pending := by
      simp [handedIn, List.filterMap_map, Function.comp_def, Effect.handed?]
    have haccepted : acceptedIn (c.shared.log ++ c.shared.pending.map .handed) = acceptedIn c.shared.log := by
      simp [acceptedIn, List.filterMap_map, Function.comp_def, Effect.accepted?]
    refine ⟨fun _ => rfl, fun hcancelled => ?_, ?_, h.noneAfterClose.append fun before e after heq _ b hb => ?_⟩
    · rw [List.append_nil, hhanded, haccepted]
      exact h.whole hcancelled
    · rw [List.append_nil, hhanded, haccepted]
      exact h.part
    · rcases List.mem_append.mp hb with hb | hb
      · exact not_asked (by omega) b hb
      · obtain ⟨pcm, -, rfl⟩ := List.mem_map.mp (show b ∈ c.shared.pending.map .handed from heq ▸ by simp [hb])
        rfl

theorem Audio.run (h : Audio c.shared) (hcode : c.code t = i :: k) (happ : App c) (hclosing : Closing c) :
    Audio (exec same client i c.shared).1 := by
  cases i with
  | queueAudio pcm => exact h.queueAudio hcode happ hclosing
  | goLive => exact h.goLive hclosing
  | cancel => exact ⟨h.flushed, fun hcancelled => absurd hcancelled.symm Bool.false_ne_true, h.part, h.noneAfterClose⟩
  | clearPending =>
    have hcancelled := happ.clearing (pending_pos hcode rfl)
    refine ⟨fun _ => rfl, fun hopen => absurd (hcancelled.symm.trans hopen) (by simp), ?_, h.noneAfterClose⟩
    change handedIn c.shared.log ++ [] <+: acceptedIn c.shared.log
    exact (List.append_nil _).symm ▸ (List.prefix_append _ _).trans h.part
  | finish how =>
    rw [exec]
    obtain hnone | ⟨-, -, hshared, -, -⟩ := finish_cases c.shared how
    · exact hnone ▸ h
    · rw [hshared]
      exact ⟨h.flushed, h.whole, h.part, h.noneAfterClose⟩
  | requestClose => exact h.grown (e := .askedToClose) rfl rfl rfl rfl rfl rfl rfl
  | report r => exact h.grown (e := .reported r) rfl rfl rfl rfl rfl rfl rfl
  | setStopped => exact h.grown (e := .stopped) rfl rfl rfl rfl rfl rfl rfl
  | _ => exact h.of_same (exec_same same client (by rfl) c.shared)

end Audio

/-! ## Every run -/

/-- What holds in every state of a run whose threads do not cross. -/
structure Sound (c : Threads.State Stream Instr Party) : Prop where
  ends : Ends c
  app : App c
  closing : Closing c
  audio : Audio c.shared

section Runs

variable {same : Char → Char → Bool} {client : Client} {c : Threads.State Stream Instr Party}

/-- The app is inside one of its calls at most. -/
theorem isApp_le_one {ok} (h : Reaches (machine same client).next? ok (opened client) c) :
    pending Instr.isApp c.code ≤ 1 := by
  refine pending_le_one .app (fun t s i hcall happ => ?_) (exec_isApp same client) ?_ h
  · cases t with
    | app => rfl
    | _ =>
      cases i with
      | unlessEnded next => cases next <;> first | exact absurd happ Bool.false_ne_true | exact absurd hcall Bool.false_ne_true
      | _ => first | exact absurd happ Bool.false_ne_true | exact absurd hcall Bool.false_ne_true
  · cases client <;> rfl

/-- A stream just opened has only to set its first deadline. -/
theorem pending_opened {p : Instr → Bool}
    (hp : ∀ seconds detail retryable, p (.failUnlessLiveWithin seconds detail retryable) = false) :
    pending p (opened client).code = 0 := by
  refine Finset.sum_eq_zero fun t _ => ?_
  cases t <;> cases client <;> simp [opened, Client.opening, hp]

theorem sound_opened : Sound (opened client) := by
  have hend : pending Instr.isEnd (opened client).code = 0 := pending_opened fun _ _ _ => rfl
  have hclear : pending Instr.isClearPending (opened client).code = 0 := pending_opened fun _ _ _ => rfl
  have hrequest : pending Instr.isRequestClose (opened client).code = 0 := pending_opened fun _ _ _ => rfl
  have hwent : pending Instr.isWentLive (opened client).code = 0 := pending_opened fun _ _ _ => rfl
  have hif : pending Instr.isCloseIfLive (opened client).code = 0 := pending_opened fun _ _ _ => rfl
  have hlog : (opened client).shared.log = [] := rfl
  refine ⟨⟨?_, fun _ => rfl, Each.nil⟩, ⟨fun _ => rfl, fun _ => rfl, fun _ => rfl, fun hpos => ?_⟩,
    ⟨?_, fun _ => ?_, fun _ => ?_⟩, ⟨fun _ => rfl, fun _ => rfl, List.prefix_rfl, Each.nil⟩⟩
  · rw [hlog, List.countP_nil, hend]
    exact Nat.zero_le _
  · omega
  · rw [hlog, List.countP_nil, hrequest, hwent, hif]
    exact Nat.zero_le 1
  · rw [hlog, List.countP_nil, hrequest, hif]
  · rw [hlog, List.countP_nil, hrequest, hwent]

theorem Sound.of_reaches (h : Reaches (machine same client).next? Uncrossed (opened client) c) : Sound c := by
  induction h with
  | start => exact sound_opened
  | next mv hreach hok hnext ih =>
    obtain ⟨hends, happ, hclosing, haudio⟩ := ih
    obtain ⟨t, i, k, rfl, hcode, rfl⟩ | ⟨t, i, rfl, hcode, hcall, rfl⟩ := next?_cases hnext
    · refine ⟨?_, happ.run same client (isApp_le_one hreach) hcode, hclosing.run same client hcode happ hok,
        haudio.run same client hcode happ hclosing⟩
      cases i with
      | report r => exact hends.report hcode hok
      | finish how => exact hends.finish hcode
      | _ => exact hends.other hcode hok (by simp) (by simp)
    · exact ⟨hends.call hcode hcall, happ.call client hcode hcall, hclosing.call client hcode hcall, haudio⟩

/-- **An Android speech stream ends once and sends its audio in order**, in every run whose threads do not cross. -/
theorem keeps (h : Reaches (machine same client).next? Uncrossed (opened client) c) : Kept c.shared := by
  obtain ⟨hends, -, hclosing, haudio⟩ := Sound.of_reaches h
  have honce := hends.once
  have hfinished := Bool.toNat_le c.shared.finished
  have hcloses := hclosing.once
  refine ⟨by omega, hends.quiet, by omega, (List.prefix_append _ _).trans haudio.part, haudio.noneAfterClose, ?_⟩
  intro hlive hcancelled
  rw [← haudio.whole hcancelled, haudio.flushed hlive, List.append_nil]

end Runs

/-! ## Runs that cross -/

/-- The stream goes live between a `stop` and its look at `live`. -/
def crossedStopRun : List (Threads.Move Instr Party) :=
  [.run .app, .call .reader (.unlessEnded .opened), .run .reader, .run .reader, .run .reader, .call .app .stop,
    .run .app, .run .app, .run .app, .run .reader, .run .app, .run .reader, .run .reader, .run .app, .run .app]

/-- The stream goes live while its first deadline ends it. -/
def lateConnectedRun : List (Threads.Move Instr Party) :=
  [.run .app, .call .reader (.unlessEnded .opened), .run .reader, .run .reader, .run .reader,
    .call .timer (.fire 0 (.live 10 "no connect in 10s".toList true)), .run .timer, .run .reader, .run .timer,
    .run .timer, .run .timer, .run .reader, .run .reader]

/-- **Threads that cross**: `stop` and `goLive` both ask the provider to close, and a stream that failed reports that
it connected. -/
theorem crossed :
    (∃ c, Reaches (machine (· == ·) .claude).next? (fun _ _ => True) (opened .claude) c ∧
      c.shared.log.countP Effect.asksToClose = 2 ∧ ¬ Kept c.shared) ∧
    (∃ c, Reaches (machine (· == ·) .claude).next? (fun _ _ => True) (opened .claude) c ∧
      c.shared.log.getLast? = some (.reported .connected) ∧ ¬ Kept c.shared) := by
  have hstop : (Reaches.runs (machine (· == ·) .claude).next? (fun _ _ => True) (opened .claude) crossedStopRun).any
      (fun c => c.shared.log.countP Effect.asksToClose = 2) := by decide
  have hlate : (Reaches.runs (machine (· == ·) .claude).next? (fun _ _ => True) (opened .claude) lateConnectedRun).any
      (fun c => c.shared.log = [.keptAlive, .reported (.ended (.failed .timeout "no connect in 10s".toList true)),
        .reported .connected]) := by decide
  obtain ⟨c, hc, hclosed⟩ := (Option.any_eq_true _ _).mp hstop
  obtain ⟨c', hc', hlog⟩ := (Option.any_eq_true _ _).mp hlate
  have hlog := of_decide_eq_true hlog
  have hclosed := of_decide_eq_true hclosed
  refine ⟨⟨c, .of_runs .start hc, hclosed, fun h => ?_⟩, ⟨c', .of_runs .start hc', by rw [hlog]; rfl, fun h => ?_⟩⟩
  · have := h.closesOnce
    omega
  · have := h.quietAfterEnd [.keptAlive, .reported (.ended (.failed .timeout "no connect in 10s".toList true))]
      (.reported .connected) [] hlog rfl (.reported (.ended (.failed .timeout "no connect in 10s".toList true))) (by simp)
    exact Bool.false_ne_true this.symm

/-- A stream that is given a chunk before its socket opens, goes live, is stopped and closed, one thread at a time. -/
def plainRun : List (Threads.Move Instr Party) :=
  [.run .app, .call .app (.sendAudio [1, 2]), .run .app, .run .app, .run .app, .run .app,
    .call .reader (.unlessEnded .opened), .run .reader, .run .reader, .run .reader, .run .reader, .run .reader,
    .run .reader, .call .app .stop, .run .app, .run .app, .run .app, .run .app, .run .app, .run .app,
    .call .reader (.unlessEnded (.text (.claude (.endpoint "hello".toList)))), .run .reader, .run .reader, .run .reader,
    .run .reader, .run .reader, .run .reader, .run .reader, .run .reader]

/-- It hands the chunk over, is asked to close once, and completes with its last words. -/
theorem keeps_plain :
    ∃ c : Threads.State Stream Instr Party,
      c.shared.log = [.accepted [1, 2], .keptAlive, .handed [1, 2], .reported .connected, .stopped, .askedToClose,
        .reported (.final "hello".toList), .reported (.ended .completed), .closed] ∧ Kept c.shared := by
  have hrun : (Reaches.runs (machine (· == ·) .claude).next? Uncrossed (opened .claude) plainRun).any
      (fun c => c.shared.log = [.accepted [1, 2], .keptAlive, .handed [1, 2], .reported .connected, .stopped, .askedToClose,
        .reported (.final "hello".toList), .reported (.ended .completed), .closed]) := by decide
  obtain ⟨c, hc, hlog⟩ := (Option.any_eq_true _ _).mp hrun
  exact ⟨c, of_decide_eq_true hlog, keeps (.of_runs .start hc)⟩

end Speecher.Android.StreamLifecycle
