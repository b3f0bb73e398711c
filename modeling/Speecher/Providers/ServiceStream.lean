import Speecher.Bindings.Words
import Speecher.Foundations.Monitor
import Speecher.Providers.Failure

/-!
# What a service stream client may do

A client of a streaming speech service is started for one attempt at a time: it is given audio (and, for a service that
takes them, the ends of utterances), is told to stop or to cancel, hands messages to its socket and reports what comes
of it. `StreamEntry` is one such call, message or report, and a log lists them in their order. `streamMonitor` reads a
log: an attempt reports nothing once it ended or was cancelled, and hands what it was given to an open socket in order,
each once and all of it before the message that asks the service to finish.

* `countP_ends_le_one`: an attempt ends once.
* `Orderly.of_simulation`: the log of a client that the monitor follows.
* `StreamView.Settled`: how a client's state follows the monitor, with a lemma for each thing a client does.
-/

namespace Speecher

/-- What a client is given to hand over. -/
inductive StreamItem
  | audio (pcm : List UInt8)
  | utteranceEnd
  deriving DecidableEq

/-- Why an attempt failed. -/
structure StreamFailure where
  message : Text
  retryable : Bool
  phase : SpeechPhase
  kind : ProviderFailureKind
  deriving DecidableEq

inductive StreamEntry
  -- what the client is told
  | start
  | give (item : StreamItem)
  | stop
  | cancel
  -- its socket connected
  | opened
  -- what it hands to its socket: the item, the message that asks the service to finish, any other
  | send (item : StreamItem)
  | finish
  | note
  -- what it reports
  | text (final : Bool) (text : Text)
  | connected
  | completed
  | failed (failure : StreamFailure)
  | closed
  deriving DecidableEq

/-- The end of an attempt. -/
def StreamEntry.ends : StreamEntry → Bool
  | completed | failed _ => true
  | _ => false

def StreamEntry.starts : StreamEntry → Bool
  | start => true
  | _ => false

/-- What a log says of the attempt it is about last. -/
structure StreamAttempt where
  ended : Bool := false
  given : List StreamItem := []
  sent : List StreamItem := []
  stopped : Bool := false
  opened : Bool := false
  connected : Bool := false
  finished : Bool := false
  deriving DecidableEq

namespace StreamAttempt

variable (attempt : StreamAttempt)

def after (attempt : StreamAttempt) : StreamEntry → StreamAttempt
  | .start => {}
  | .give item => if attempt.stopped then attempt else { attempt with given := attempt.given ++ [item] }
  | .stop => { attempt with stopped := true }
  | .cancel | .completed | .failed _ => { attempt with ended := true }
  | .opened => { attempt with opened := true }
  | .send item => { attempt with sent := attempt.sent ++ [item] }
  | .finish => { attempt with finished := true }
  | .connected => { attempt with connected := true }
  | .note | .text .. | .closed => attempt

def Allows (attempt : StreamAttempt) : StreamEntry → Prop
  | .text .. | .connected | .completed | .failed _ => attempt.ended = false
  | .send item => attempt.opened = true ∧ attempt.finished = false ∧ attempt.sent ++ [item] <+: attempt.given
  | .finish => attempt.opened = true ∧ attempt.stopped = true ∧ attempt.sent = attempt.given
  | .start | .give _ | .stop | .cancel | .opened | .note | .closed => True

end StreamAttempt

def streamMonitor : Monitor StreamAttempt StreamEntry where
  start := {}
  after := StreamAttempt.after
  Allows := StreamAttempt.Allows

/-- A log as it should be. -/
structure Orderly (log : List StreamEntry) : Prop where
  allowed : streamMonitor.Accepts log
  /-- For the last start, and so in any log that begins so for each, at most one end. -/
  endsOnce : (since StreamEntry.starts log).countP StreamEntry.ends ≤ 1
  /-- What was stopped, connected and did not end asked the service to finish. -/
  finishes : (streamMonitor.read log).stopped = true → (streamMonitor.read log).connected = true →
    (streamMonitor.read log).ended = false → (streamMonitor.read log).finished = true

/-- **An attempt ends once.** -/
theorem countP_ends_le_one {log : List StreamEntry} (h : streamMonitor.Accepts log) :
    (since StreamEntry.starts log).countP StreamEntry.ends ≤ 1 ∧
      ((streamMonitor.read log).ended = false → (since StreamEntry.starts log).countP StreamEntry.ends = 0) := by
  induction log using List.reverseRecOn with
  | nil => exact ⟨Nat.zero_le _, fun _ => rfl⟩
  | append_singleton log entry ih =>
    obtain ⟨hle, hzero⟩ := ih fun before a after heq => h before a (after ++ [entry]) (by rw [heq]; simp)
    have hallows := h log entry [] rfl
    rw [since_snoc, Monitor.read_append]
    cases entry with
    | start => exact ⟨Nat.zero_le _, fun _ => rfl⟩
    | give item =>
      simp only [StreamEntry.starts, Bool.false_eq_true, if_false, List.countP_append]
      refine ⟨hle, fun hover => hzero ?_⟩
      change (if _ then _ else _ : StreamAttempt).ended = false at hover
      split at hover <;> exact hover
    | stop | opened | send | note | finish | text | connected | closed =>
      simp only [StreamEntry.starts, Bool.false_eq_true, if_false, List.countP_append]
      exact ⟨hle, hzero⟩
    | cancel =>
      simp only [StreamEntry.starts, Bool.false_eq_true, if_false, List.countP_append]
      exact ⟨hle, fun hover => nomatch hover⟩
    | completed | failed =>
      simp only [StreamEntry.starts, Bool.false_eq_true, if_false, List.countP_append, hzero hallows]
      exact ⟨le_refl 1, fun hover => nomatch hover⟩

/-- **The log of a client that the monitor follows is orderly.** -/
theorem Orderly.of_simulation {τ ε : Type*} {step : τ → ε → Option (Out τ StreamEntry)}
    {ok : Out τ StreamEntry → ε → Prop} {init : τ} {R : τ → StreamAttempt → Prop} (start : R init {})
    (keeps : ∀ t s e out log, ok (t, log) e → R t s → step t e = some out → streamMonitor.Keeps R s out)
    (finishes : ∀ t s, R t s → s.stopped = true → s.connected = true → s.ended = false → s.finished = true)
    {s : Out τ StreamEntry} (h : Reaches (Monitor.traced step) ok (init, []) s) : Orderly s.2 := by
  obtain ⟨haccepts, hrelated⟩ := Monitor.accepts_of_reaches start keeps h
  exact ⟨haccepts, (countP_ends_le_one haccepts).1, finishes _ _ hrelated⟩

/-! ## How a client follows the monitor -/

/-- What a client's state says of its attempt. -/
structure StreamView where
  ended : Bool
  pending : List StreamItem
  stopped : Bool
  finalizing : Bool
  /-- What the client is given goes to its socket at once. -/
  live : Bool

namespace StreamView

/-- An attempt that is not over, as the client has it. -/
structure Live (v : StreamView) (a : StreamAttempt) : Prop where
  given : a.given = a.sent ++ v.pending
  stopped : a.stopped = v.stopped
  finished : a.finished = v.finalizing
  connected : a.connected = true → v.live = true
  opened : v.live = true → a.opened = true
  asked : v.finalizing = true → v.stopped = true ∧ v.pending = []

/-- In the middle of an event. -/
structure Follows (v : StreamView) (a : StreamAttempt) : Prop where
  ended : a.ended = v.ended
  sent : a.sent <+: a.given
  live : v.ended = false → v.Live a

/-- Between events: once live, a client holds nothing back and has asked the service to finish if it was stopped. -/
structure Settled (v : StreamView) (a : StreamAttempt) : Prop extends v.Follows a where
  flushed : v.ended = false → v.live = true → v.pending = []
  finalizing : v.ended = false → v.live = true → v.stopped = true → v.finalizing = true

variable {v : StreamView} {a : StreamAttempt}

theorem Settled.of_ended (hv : v.ended = true) (ha : a.ended = true) (hsent : a.sent <+: a.given) : v.Settled a where
  ended := ha.trans hv.symm
  sent := hsent
  live h := absurd hv (ne_true_of_eq_false h)
  flushed h := absurd hv (ne_true_of_eq_false h)
  finalizing h := absurd hv (ne_true_of_eq_false h)

theorem Settled.of_start {v : StreamView} (hover : v.ended = false) (hpending : v.pending = []) (hstopped : v.stopped = false)
    (hfinalizing : v.finalizing = false) (hlive : v.live = false) : v.Settled {} where
  ended := hover.symm
  sent := List.prefix_refl _
  live _ := {
    given := hpending.symm
    stopped := hstopped.symm
    finished := hfinalizing.symm
    connected := nofun
    opened := fun h => absurd h (ne_true_of_eq_false hlive)
    asked := fun h => absurd h (ne_true_of_eq_false hfinalizing) }
  flushed _ _ := hpending
  finalizing _ h := absurd h (ne_true_of_eq_false hlive)

/-- **A live client that was stopped and is not over has asked the service to finish.** -/
theorem Settled.finishes (h : v.Settled a) (hstopped : a.stopped = true) (hconnected : a.connected = true)
    (hover : a.ended = false) : a.finished = true := by
  have hover' : v.ended = false := h.ended ▸ hover
  have hlive := h.live hover'
  rw [hlive.finished]
  exact h.finalizing hover' (hlive.connected hconnected) (hlive.stopped ▸ hstopped)

/-! ### What a client is given -/

theorem after_give_of_stopped (h : a.stopped = true) (item : StreamItem) : a.after (.give item) = a := if_pos h

theorem after_give (h : a.stopped = false) (item : StreamItem) :
    a.after (.give item) = { a with given := a.given ++ [item] } := if_neg (ne_true_of_eq_false h)

theorem sent_prefix_after_give (h : a.sent <+: a.given) (item : StreamItem) :
    (a.after (.give item)).sent <+: (a.after (.give item)).given := by
  by_cases hstopped : a.stopped = true
  · rwa [after_give_of_stopped hstopped]
  · rw [after_give (eq_false_of_ne_true hstopped)]
    exact h.trans (List.prefix_append _ _)

@[simp] theorem ended_after_give (item : StreamItem) : (a.after (.give item)).ended = a.ended := by
  rw [StreamAttempt.after]
  split <;> rfl

/-- Nothing is taken by an attempt that was stopped or is over. -/
theorem Settled.give_ignored (h : v.Settled a) (hv : v.ended = true ∨ v.stopped = true) (item : StreamItem) :
    v.Settled (a.after (.give item)) := by
  by_cases hover : v.ended = true
  · exact .of_ended hover ((ended_after_give item).trans (h.ended.trans hover)) (sent_prefix_after_give h.sent item)
  · have hlive := h.live (eq_false_of_ne_true hover)
    have hstopped : a.stopped = true := hlive.stopped.trans (hv.resolve_left hover)
    rwa [after_give_of_stopped hstopped]

/-- What is held back until the client is live. -/
theorem Settled.give_held (h : v.Settled a) (hover : v.ended = false) (hstopped : v.stopped = false)
    (hlive : v.live = false) (item : StreamItem) :
    { v with pending := v.pending ++ [item] }.Settled (a.after (.give item)) := by
  have hl := h.live hover
  rw [after_give (hl.stopped.trans hstopped)]
  exact {
    ended := h.ended
    sent := h.sent.trans (List.prefix_append _ _)
    live := fun _ => {
      given := (congrArg (· ++ [item]) hl.given).trans (List.append_assoc ..)
      stopped := hl.stopped
      finished := hl.finished
      connected := hl.connected
      opened := hl.opened
      asked := fun hf => absurd (hl.asked hf).1 (ne_true_of_eq_false hstopped) }
    flushed := fun _ h => absurd h (ne_true_of_eq_false hlive)
    finalizing := fun _ h => absurd h (ne_true_of_eq_false hlive) }

/-- What goes out at once. -/
theorem Settled.give_sent (h : v.Settled a) (hover : v.ended = false) (hstopped : v.stopped = false) (hlive : v.live = true)
    (item : StreamItem) : (a.after (.give item)).Allows (.send item) ∧
      v.Settled ((a.after (.give item)).after (.send item)) := by
  have hl := h.live hover
  have hgiven : a.given = a.sent := by rw [hl.given, h.flushed hover hlive, List.append_nil]
  have hfinished : a.finished = false := by
    rw [hl.finished]
    exact eq_false_of_ne_true fun hf => absurd (hl.asked hf).1 (ne_true_of_eq_false hstopped)
  rw [after_give (hl.stopped.trans hstopped), hgiven]
  refine ⟨⟨hl.opened hlive, hfinished, List.prefix_refl _⟩, ?_⟩
  exact {
    ended := h.ended
    sent := List.prefix_refl _
    live := fun _ => {
      given := by rw [h.flushed hover hlive, List.append_nil]; rfl
      stopped := hl.stopped
      finished := hl.finished
      connected := hl.connected
      opened := hl.opened
      asked := hl.asked }
    flushed := h.flushed
    finalizing := h.finalizing }

/-! ### What goes out -/

theorem allowsAll_sends {items : List StreamItem} (hopened : a.opened = true) (hfinished : a.finished = false)
    (h : a.sent ++ items <+: a.given) : streamMonitor.AllowsAll a (items.map .send) := by
  induction items generalizing a with
  | nil => trivial
  | cons item items ih =>
    rw [List.append_cons] at h
    exact ⟨⟨hopened, hfinished, (List.prefix_append _ _).trans h⟩, ih (a := a.after (.send item)) hopened hfinished h⟩

theorem foldl_sends (items : List StreamItem) :
    (items.map StreamEntry.send).foldl streamMonitor.after a = { a with sent := a.sent ++ items } := by
  induction items generalizing a with
  | nil => simp only [List.map_nil, List.foldl_nil, List.append_nil]
  | cons item items ih =>
    rw [List.map_cons, List.foldl_cons, ih]
    simp only [streamMonitor, StreamAttempt.after, List.append_assoc, List.singleton_append]

/-- What a client held back until it is live. -/
theorem Follows.flush (h : v.Follows a) (hover : v.ended = false) (hlive : v.live = true) (hfinalizing : v.finalizing = false) :
    streamMonitor.AllowsAll a (v.pending.map .send) ∧
      { v with pending := [] }.Follows ((v.pending.map StreamEntry.send).foldl streamMonitor.after a) := by
  have hl := h.live hover
  refine ⟨allowsAll_sends (hl.opened hlive) (hl.finished.trans hfinalizing) (hl.given ▸ List.prefix_refl _), ?_⟩
  rw [foldl_sends, ← hl.given]
  exact {
    ended := h.ended
    sent := List.prefix_refl _
    live := fun _ => {
      given := (List.append_nil _).symm
      stopped := hl.stopped
      finished := hl.finished
      connected := hl.connected
      opened := hl.opened
      asked := fun hf => absurd hf (ne_true_of_eq_false hfinalizing) } }

/-- The message that asks the service to finish, once nothing is held back. -/
theorem Follows.finish (h : v.Follows a) (hover : v.ended = false) (hlive : v.live = true) (hstopped : v.stopped = true)
    (hpending : v.pending = []) : a.Allows .finish ∧ { v with finalizing := true }.Settled (a.after .finish) := by
  have hl := h.live hover
  refine ⟨⟨hl.opened hlive, hl.stopped.trans hstopped, by rw [hl.given, hpending, List.append_nil]⟩, ?_⟩
  exact {
    ended := h.ended
    sent := h.sent
    live := fun _ => {
      given := hl.given
      stopped := hl.stopped
      finished := rfl
      connected := hl.connected
      opened := hl.opened
      asked := fun _ => ⟨hstopped, hpending⟩ }
    flushed := fun _ _ => hpending
    finalizing := fun _ _ _ => rfl }

/-! ### What a client is told and reports -/

theorem Settled.stop (h : v.Settled a) : { v with stopped := true }.Follows (a.after .stop) where
  ended := h.ended
  sent := h.sent
  live hover :=
    have hl := h.live hover
    { given := hl.given
      stopped := rfl
      finished := hl.finished
      connected := hl.connected
      opened := hl.opened
      asked := fun hf => ⟨rfl, (hl.asked hf).2⟩ }

/-- A stop changes nothing where the client was stopped or the attempt is over. -/
theorem Settled.stop_again (h : v.Settled a) (hv : v.ended = true ∨ v.stopped = true) : v.Settled (a.after .stop) := by
  by_cases hover : v.ended = true
  · exact .of_ended hover (h.ended.trans hover) h.sent
  · have hstopped := hv.resolve_left hover
    exact {
      ended := h.ended
      sent := h.sent
      live := fun hover => { h.live hover with stopped := hstopped.symm }
      flushed := h.flushed
      finalizing := h.finalizing }

theorem Settled.opened (h : v.Settled a) : v.Settled (a.after .opened) where
  ended := h.ended
  sent := h.sent
  live hover := { h.live hover with opened := fun _ => rfl }
  flushed := h.flushed
  finalizing := h.finalizing

theorem Follows.connected (h : v.Follows a) (hlive : v.live = true) : v.Follows (a.after .connected) where
  ended := h.ended
  sent := h.sent
  live hover := { h.live hover with connected := fun _ => hlive }

theorem Settled.connected (h : v.Settled a) (hlive : v.live = true) : v.Settled (a.after .connected) :=
  { h.toFollows.connected hlive with flushed := h.flushed, finalizing := h.finalizing }

end StreamView

end Speecher
