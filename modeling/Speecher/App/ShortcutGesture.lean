import Mathlib.Data.Int.Notation
import Mathlib.Tactic.SplitIfs
import Speecher.Foundations.Runs

/-!
# The shortcut gesture

The Global Shortcut's presses and releases become toggles, starts and stops of a dictation, as the activation mode
says. Push-to-talk defers its start past a brush of the key. Whether a dictation is under way, the mode and the
clock are read at each press and release, so each brings its own.

A run's record follows one hold of the key at a time and the press a deferred start waits for. With releases
reported a hold fires once and its release ends it, and without them a deferred start is the latest press's
(`FiresRight`), in every run in which no press starts a dictation while a deferred start waits (`firesRight`). One
that does leaves it waiting, and it fires for a press that is not the latest (`start_outlives_press`).
-/

namespace Speecher

inductive ShortcutActivationMode
  | toggle | pushToTalk | hybrid
  deriving DecidableEq

/-- What the gesture asks of the dictation. -/
inductive GestureRequest
  | toggle | start | stop
  deriving DecidableEq

/-- Hybrid: a hold longer than this is push-to-talk. -/
def hybridHoldMs : ℤ := 250

structure ShortcutGesture where
  /-- When the last press was, in milliseconds. -/
  press : ℤ := 0
  /-- Only a press that started a session can end it on release. -/
  startedSession : Bool := false
  down : Bool := false
  releaseSeen : Bool := false
  pressedWhileDown : Bool := false
  /-- The timer of a deferred push-to-talk start runs. -/
  pushToTalkStart : Bool := false

/-- What a press or a release finds: whether a dictation is under way or about to start, the mode in the settings
and the time. -/
structure GestureContext where
  sessionActive : Bool
  mode : ShortcutActivationMode
  now : ℤ

namespace ShortcutGesture

variable (gesture : ShortcutGesture)

/-- False once a press has proved that the bound backend never reports key release. -/
def reportsRelease : Bool := gesture.releaseSeen || !gesture.pressedWhileDown

/-- A press that is not the auto-repeat of a held key. -/
def takes : Bool := !(gesture.down && gesture.releaseSeen)

def pressed (context : GestureContext) : ShortcutGesture × List GestureRequest :=
  if gesture.down && gesture.releaseSeen then (gesture, [])
  else
    let held := { gesture with
      pressedWhileDown := gesture.pressedWhileDown || gesture.down, down := true, press := context.now,
      startedSession := !context.sessionActive }
    if held.startedSession && held.reportsRelease && context.mode = .pushToTalk then
      ({ held with pushToTalkStart := true }, [])
    else (held, [.toggle])

/-- The binding or its backend changed: forgets everything learned so far. -/
def forget : ShortcutGesture :=
  { gesture with
    pushToTalkStart := false, down := false, startedSession := false, releaseSeen := false, pressedWhileDown := false }

def dropDeferredStart : ShortcutGesture := { gesture with pushToTalkStart := false }

def forgetStartedSession : ShortcutGesture := { gesture with startedSession := false }

/-- `heldMs` is how long the binder saw the key held, or negative when it cannot tell. -/
def released (heldMs : ℤ) (context : GestureContext) : ShortcutGesture × List GestureRequest :=
  let up := { gesture with down := false, releaseSeen := true }
  if up.startedSession = false then (up, [])
  else
    let ended := { up with startedSession := false, pushToTalkStart := false }
    match context.mode with
    | .toggle => (ended, [])
    | .pushToTalk => (ended, if !up.pushToTalkStart && context.sessionActive then [.stop] else [])
    | .hybrid =>
      let held := if 0 ≤ heldMs then heldMs else context.now - gesture.press
      (ended, if context.sessionActive && decide (hybridHoldMs < held) then [.stop] else [])

/-- A press, and the toggle it asks for: one that finds a dictation under way stops it, and a deferred start with it. -/
def pressedToggling (context : GestureContext) : ShortcutGesture :=
  if context.sessionActive && (gesture.pressed context).2.contains .toggle then
    (gesture.pressed context).1.dropDeferredStart
  else (gesture.pressed context).1

/-- The timer of a deferred start runs out. -/
def timeout : ShortcutGesture × List GestureRequest := ({ gesture with pushToTalkStart := false }, [.start])

end ShortcutGesture

/-! ## Runs -/

/-- One hold of the key: from a press to its release. -/
structure Hold where
  /-- A release had been seen before it. -/
  releaseSeen : Bool
  /-- Its start was deferred, and the session is not cancelled. -/
  pushToTalk : Bool
  /-- The toggles and starts fired during it. -/
  fired : ℕ

/-- A gesture and the record of its run. -/
structure GestureRun where
  gesture : ShortcutGesture := {}
  /-- The presses so far, auto-repeat included. -/
  presses : ℕ := 0
  hold : Option Hold := none
  /-- The press the deferred start that waits is for, or the last one that waited. -/
  armedBy : ℕ := 0

/-- What happens to the gesture. Stopping a dictation drops a deferred start; cancelling one also forgets the session
it started. -/
inductive GestureEvent
  | press (context : GestureContext)
  | release (heldMs : ℤ) (context : GestureContext)
  | timeout
  | stopListening
  | cancel
  | forget

namespace GestureRun

variable (run : GestureRun)

/-- The hold after a press that is taken and asked for `fired` requests: a new one, or the last one again. -/
def holdTaken (fired : ℕ) : Hold :=
  match run.hold with
  | none => ⟨run.gesture.releaseSeen, fired = 0, fired⟩
  | some hold => { hold with fired := hold.fired + fired }

/-- A press is taken, and the timer starts for it if it defers its start. -/
def taken (gesture : ShortcutGesture) (requests : List GestureRequest) : GestureRun where
  gesture := gesture
  presses := run.presses + 1
  hold := some (run.holdTaken requests.length)
  armedBy := if requests.isEmpty then run.presses + 1 else run.armedBy

/-- The state after an event, when it can happen. -/
def step : GestureEvent → Option GestureRun
  | .press context =>
    if run.gesture.takes then some (run.taken (run.gesture.pressedToggling context) (run.gesture.pressed context).2)
    else some { run with gesture := (run.gesture.pressed context).1, presses := run.presses + 1 }
  | .release heldMs context =>
    some { run with gesture := (run.gesture.released heldMs context).1, hold := none }
  | .timeout =>
    if run.gesture.pushToTalkStart then
      some { run with
        gesture := run.gesture.timeout.1
        hold := run.hold.map fun hold => { hold with fired := hold.fired + 1 } }
    else none
  | .stopListening => some { run with gesture := run.gesture.dropDeferredStart }
  | .cancel =>
    some { run with
      gesture := run.gesture.dropDeferredStart.forgetStartedSession
      hold := run.hold.map fun hold => { hold with pushToTalk := false } }
  | .forget => some { run with gesture := run.gesture.forget, hold := none }

end GestureRun

/-- **The gesture fires right.** With releases reported, no press but the first of a hold does anything and the hold
fires once at most; the release that ends a push-to-talk hold drops a start that still waits, and stops the
dictation when it started; and without releases, a start that waits is the latest press's. -/
structure FiresRight (run : GestureRun) : Prop where
  repeats : ∀ hold, run.hold = some hold → hold.releaseSeen → ∀ context,
    run.gesture.pressed context = (run.gesture, [])
  once : ∀ hold, run.hold = some hold → hold.releaseSeen → hold.fired ≤ 1
  released : ∀ hold, run.hold = some hold → hold.releaseSeen → hold.pushToTalk → ∀ heldMs sessionActive now,
    (run.gesture.released heldMs ⟨sessionActive, .pushToTalk, now⟩).1.pushToTalkStart = false ∧
      (0 < hold.fired → sessionActive →
        (run.gesture.released heldMs ⟨sessionActive, .pushToTalk, now⟩).2 = [.stop])
  latest : run.gesture.pushToTalkStart → run.gesture.releaseSeen = false → run.armedBy = run.presses

/-- No press that is taken starts a dictation while a deferred start waits. -/
def TakesNoneWaiting (run : GestureRun) : GestureEvent → Prop
  | .press context => run.gesture.takes → context.sessionActive = false → run.gesture.pushToTalkStart = false
  | _ => True

instance : ∀ (run : GestureRun) (e : GestureEvent), Decidable (TakesNoneWaiting run e)
  | run, .press context =>
    inferInstanceAs (Decidable (run.gesture.takes → context.sessionActive = false → run.gesture.pushToTalkStart = false))
  | _, .release .. | _, .timeout | _, .stopListening | _, .cancel | _, .forget => instDecidableTrue

/-- What holds of the record of such a run. -/
structure Recorded (run : GestureRun) : Prop where
  down : run.gesture.down = run.hold.isSome
  /-- A start that waits is the first press's of this hold. -/
  waiting : run.gesture.pushToTalkStart → ∃ hold, run.hold = some hold ∧ hold.pushToTalk ∧ hold.fired = 0 ∧
    run.gesture.startedSession ∧ (run.gesture.releaseSeen = false → run.armedBy = run.presses)
  learned : ∀ hold, run.hold = some hold → hold.releaseSeen →
    run.gesture.releaseSeen ∧ hold.fired ≤ 1 ∧ (hold.pushToTalk → run.gesture.startedSession)

namespace ShortcutGesture

variable {gesture : ShortcutGesture} {context : GestureContext}

theorem pressed_of_not_takes (h : gesture.takes = false) (context : GestureContext) :
    gesture.pressed context = (gesture, []) := by
  rw [takes, Bool.not_eq_false'] at h
  rw [pressed, if_pos h]

/-- **What a press that is taken does**: it asks for a toggle, or is the first of its hold and defers the start of a
session it may end. -/
theorem pressed_of_takes (h : gesture.takes) (context : GestureContext) :
    (gesture.pressed context).1.down ∧ (gesture.pressed context).1.releaseSeen = gesture.releaseSeen ∧
      ((gesture.pressed context).2 = [.toggle] ∧
          (gesture.pressed context).1.pushToTalkStart = gesture.pushToTalkStart ∨
        (gesture.pressed context).2 = [] ∧ (gesture.pressed context).1.startedSession ∧ gesture.down = false) := by
  rw [takes, Bool.not_eq_true'] at h
  rw [pressed, if_neg (by simp [h])]
  dsimp only
  split_ifs with hdefers
  · simp only [Bool.and_eq_true, reportsRelease, Bool.or_eq_true, Bool.not_eq_true', Bool.or_eq_false_iff]
      at hdefers
    refine ⟨rfl, rfl, .inr ⟨rfl, by simp [hdefers.1.1], ?_⟩⟩
    -- A key that is down and reports its release is an auto-repeat.
    rcases hdefers.1.2 with hseen | ⟨-, hup⟩
    · simpa [hseen] using h
    · exact hup
  · exact ⟨rfl, rfl, .inl ⟨rfl, rfl⟩⟩

/-- What a press that is taken leaves after its toggle: a start that waits is the one it deferred, or one that waited
when it found no dictation. -/
theorem pressedToggling_of_takes (h : gesture.takes) (context : GestureContext) :
    (gesture.pressedToggling context).down ∧ (gesture.pressedToggling context).releaseSeen = gesture.releaseSeen ∧
      ((gesture.pressed context).2 = [.toggle] ∧
          ((gesture.pressedToggling context).pushToTalkStart →
            context.sessionActive = false ∧ gesture.pushToTalkStart) ∨
        (gesture.pressed context).2 = [] ∧ (gesture.pressedToggling context).startedSession ∧
          gesture.down = false) := by
  obtain ⟨hdown, hseen, hrequests⟩ := pressed_of_takes h context
  unfold pressedToggling
  split_ifs with htoggles
  · simp only [Bool.and_eq_true] at htoggles
    rcases hrequests with ⟨hasks, -⟩ | ⟨hasks, -⟩
    · exact ⟨hdown, hseen, .inl ⟨hasks, nofun⟩⟩
    · simp [hasks] at htoggles
  · refine ⟨hdown, hseen, hrequests.imp (fun ⟨hasks, hsame⟩ => ⟨hasks, fun hwaits => ⟨?_, ?_⟩⟩) id⟩
    · simpa [hasks] using htoggles
    · exact hsame.symm.trans hwaits

/-- A release drops a start that waits for a session it may end. -/
theorem released_fst (h : gesture.pushToTalkStart → gesture.startedSession) (heldMs : ℤ) (context : GestureContext) :
    (gesture.released heldMs context).1.down = false ∧ (gesture.released heldMs context).1.pushToTalkStart = false := by
  unfold released
  dsimp only
  by_cases hstarted : gesture.startedSession = false
  · rw [if_pos hstarted]
    refine ⟨rfl, Bool.eq_false_iff.mpr fun hwaits => ?_⟩
    exact Bool.false_ne_true (hstarted.symm.trans (h hwaits))
  · rw [if_neg hstarted]
    cases context.mode <;> exact ⟨rfl, rfl⟩

/-- The release of a hold that started a session, in push-to-talk: it stops the dictation, unless its start waits. -/
theorem released_pushToTalk (h : gesture.startedSession) (heldMs : ℤ) (sessionActive : Bool) (now : ℤ) :
    (gesture.released heldMs ⟨sessionActive, .pushToTalk, now⟩).2 =
      if !gesture.pushToTalkStart && sessionActive then [.stop] else [] := by
  unfold released
  dsimp only
  rw [if_neg (by simp [h])]

end ShortcutGesture

open ShortcutGesture in
/-- **What every event keeps** of the record, if no press starts a dictation while a start waits. -/
theorem Recorded.after {run run' : GestureRun} {e : GestureEvent} (h : Recorded run) (he : TakesNoneWaiting run e)
    (hstep : run.step e = some run') : Recorded run' := by
  have hstarted : run.gesture.pushToTalkStart → run.gesture.startedSession := fun hwaits =>
    have ⟨_, _, _, _, hstarted, _⟩ := h.waiting hwaits
    hstarted
  cases e with
  | press context =>
    simp only [GestureRun.step] at hstep
    split_ifs at hstep with htakes
    · obtain rfl := Option.some.inj hstep
      obtain ⟨hdown, hseen, hrequests⟩ := pressedToggling_of_takes htakes context
      have hnot := he htakes
      have hhold : ∀ hold, run.hold = some hold → hold.releaseSeen = false := by
        intro hold hsome
        by_contra hlearned
        rw [Bool.not_eq_false] at hlearned
        have hall := htakes
        rw [takes, h.down, hsome, (h.learned hold hsome hlearned).1] at hall
        cases hall
      refine ⟨hdown, fun hwaits => ?_, fun hold hsome hlearned => ?_⟩
      · rcases hrequests with ⟨-, hkeeps⟩ | ⟨hasks, hbegan, hup⟩
        · obtain ⟨hinactive, hwaited⟩ := hkeeps hwaits
          exact absurd (hwaited.symm.trans (hnot hinactive)) (by simp)
        · have hnone : run.hold = none := by simpa [h.down] using hup
          refine ⟨run.holdTaken 0, ?_, ?_, ?_, hbegan, fun _ => ?_⟩
          · simp [GestureRun.taken, hasks]
          · simp [GestureRun.holdTaken, hnone]
          · simp [GestureRun.holdTaken, hnone]
          · simp [GestureRun.taken, hasks]
      · obtain rfl := Option.some.inj hsome
        cases hprior : run.hold with
        | none =>
          simp only [GestureRun.holdTaken, hprior] at hlearned ⊢
          refine ⟨hseen.trans hlearned, ?_, fun hdefers => ?_⟩
          · rcases hrequests with ⟨hasks, -⟩ | ⟨hasks, -⟩ <;> simp [hasks]
          · rcases hrequests with ⟨hasks, -⟩ | ⟨-, hbegan, -⟩
            · simp [hasks] at hdefers
            · exact hbegan
        | some last =>
          simp only [GestureRun.holdTaken, hprior] at hlearned
          exact absurd (hlearned.symm.trans (hhold last hprior)) (by simp)
    · obtain rfl := Option.some.inj hstep
      rw [Bool.not_eq_true] at htakes
      have hrepeats : run.gesture.releaseSeen = true := by
        simp only [takes, Bool.not_eq_false', Bool.and_eq_true] at htakes
        exact htakes.2
      simp only [pressed_of_not_takes htakes]
      refine ⟨h.down, fun hwaits => ?_, h.learned⟩
      obtain ⟨hold, hsome, hdefers, hfired, hbegan, -⟩ := h.waiting hwaits
      refine ⟨hold, hsome, hdefers, hfired, hbegan, fun hunseen => ?_⟩
      exact absurd (hrepeats.symm.trans hunseen) (by simp)
  | release heldMs context =>
    obtain rfl := Option.some.inj hstep
    obtain ⟨hdown, hwaits⟩ := released_fst hstarted heldMs context
    exact ⟨hdown, fun h => (nomatch hwaits.symm.trans h), nofun⟩
  | timeout =>
    simp only [GestureRun.step] at hstep
    split_ifs at hstep with hwaits
    obtain rfl := Option.some.inj hstep
    obtain ⟨hold, hsome, -, hfired, hbegan, -⟩ := h.waiting hwaits
    refine ⟨h.down.trans (by simp), nofun, fun fired hmap hlearned => ?_⟩
    simp only [hsome, Option.map_some, Option.some.injEq] at hmap
    subst hmap
    have := (h.learned hold hsome hlearned).1
    exact ⟨this, by simp [hfired], fun _ => hbegan⟩
  | stopListening =>
    obtain rfl := Option.some.inj hstep
    exact ⟨h.down, nofun, h.learned⟩
  | cancel =>
    obtain rfl := Option.some.inj hstep
    refine ⟨h.down.trans (by simp), nofun, fun cancelled hmap hlearned => ?_⟩
    obtain ⟨hold, hsome, rfl⟩ := Option.map_eq_some_iff.mp hmap
    obtain ⟨hseen, hfired, -⟩ := h.learned hold hsome hlearned
    exact ⟨hseen, hfired, nofun⟩
  | forget =>
    obtain rfl := Option.some.inj hstep
    exact ⟨rfl, nofun, nofun⟩

/-- A gesture whose record holds fires right. -/
theorem Recorded.fires {run : GestureRun} (h : Recorded run) : FiresRight run where
  repeats hold hsome hlearned context := by
    refine ShortcutGesture.pressed_of_not_takes ?_ context
    rw [ShortcutGesture.takes, h.down, hsome, (h.learned hold hsome hlearned).1]
    rfl
  once hold hsome hlearned := (h.learned hold hsome hlearned).2.1
  released hold hsome hlearned hdefers heldMs sessionActive now := by
    have hbegan := (h.learned hold hsome hlearned).2.2 hdefers
    refine ⟨(ShortcutGesture.released_fst (fun _ => hbegan) heldMs _).2, fun hfired hactive => ?_⟩
    have hnot : run.gesture.pushToTalkStart = false := by
      by_contra hwaits
      rw [Bool.not_eq_false] at hwaits
      obtain ⟨waiting, hsame, -, hzero, -, -⟩ := h.waiting hwaits
      obtain rfl := Option.some.inj (hsome.symm.trans hsame)
      omega
    rw [ShortcutGesture.released_pushToTalk hbegan, hnot, hactive]
    rfl
  latest hwaits hunseen :=
    have ⟨_, _, _, _, _, harmed⟩ := h.waiting hwaits
    harmed hunseen

/-- **The gesture fires right** in every run in which no press starts a dictation while a deferred start waits. -/
theorem firesRight {run : GestureRun} (h : Reaches GestureRun.step TakesNoneWaiting {} run) : FiresRight run := by
  refine Recorded.fires ?_
  exact h.invariant ⟨rfl, nofun, nofun⟩ fun _ _ _ htakes hkeeps hstep => hkeeps.after htakes hstep

/-- A tap of the key, then a hold long enough to start a dictation. -/
theorem firesRight_tapThenHold : ∃ run : GestureRun,
    run.gesture.releaseSeen ∧ run.hold.isSome ∧ run.presses = 2 ∧ FiresRight run := by
  let events : List GestureEvent :=
    [.press ⟨false, .pushToTalk, 0⟩, .release (-1) ⟨false, .pushToTalk, 90⟩, .press ⟨false, .pushToTalk, 400⟩, .timeout]
  have hrun : (Reaches.runs GestureRun.step TakesNoneWaiting {} events).isSome := by decide
  exact ⟨_, rfl, rfl, rfl, firesRight (.of_runs .start (Option.some_get hrun).symm)⟩

/-- Two presses on a backend without releases, the second before the start the first deferred. -/
theorem start_outlives_press :
    ¬ ∀ run, Reaches GestureRun.step (fun _ _ => True) {} run → FiresRight run := by
  intro hfires
  let events : List GestureEvent := [.press ⟨false, .pushToTalk, 0⟩, .press ⟨false, .pushToTalk, 50⟩]
  have hrun : (Reaches.runs GestureRun.step (fun _ _ => True) {} events).isSome := by decide
  have hright := hfires _ (.of_runs .start (Option.some_get hrun).symm)
  have hlatest : 1 = 2 := hright.latest rfl rfl
  exact absurd hlatest (by decide)

end Speecher
