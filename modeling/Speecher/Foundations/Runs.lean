import Mathlib.Data.List.Basic
import Mathlib.Tactic.Common

/-!
# Runs of a transition system

An object that handles one event after the other, none inside another: `step` gives the state after an
event, when the event can happen. `Reaches step ok init` collects the states of the runs from `init` whose
events all satisfy `ok`, and `Reaches.invariant` is the induction over them.
-/

namespace Speecher

variable {σ ε : Type*}

/-- The states of the runs from `init` whose events all satisfy `ok`. -/
inductive Reaches (step : σ → ε → Option σ) (ok : σ → ε → Prop) (init : σ) : σ → Prop
  | start : Reaches step ok init init
  | next {s s' : σ} (e : ε) : Reaches step ok init s → ok s e → step s e = some s' → Reaches step ok init s'

namespace Reaches

variable {step : σ → ε → Option σ} {ok ok' : σ → ε → Prop} {init s : σ}

/-- **Induction over runs**: what holds at the start and survives every event that may happen holds in
every state reached. -/
theorem invariant {P : σ → Prop} (h : Reaches step ok init s) (start : P init)
    (next : ∀ s e s', ok s e → P s → step s e = some s' → P s') : P s := by
  induction h with
  | start => exact start
  | next e _ hok hstep ih => exact next _ e _ hok ih hstep

/-- The state after a list of events, when each can happen and satisfies `ok`. -/
def runs (step : σ → ε → Option σ) (ok : σ → ε → Prop) [∀ s e, Decidable (ok s e)] : σ → List ε → Option σ
  | s, [] => some s
  | s, e :: events => if ok s e then (step s e).bind (runs step ok · events) else none

theorem of_runs [∀ s e, Decidable (ok s e)] {s' : σ} {events : List ε} (h : Reaches step ok init s)
    (hs' : runs step ok s events = some s') : Reaches step ok init s' := by
  induction events generalizing s with
  | nil => exact Option.some.inj hs' ▸ h
  | cons e events ih =>
    rw [runs] at hs'
    split_ifs at hs' with hok
    obtain ⟨s₁, hs₁, hs₂⟩ := Option.bind_eq_some_iff.mp hs'
    exact ih (.next e h hok hs₁) hs₂

end Reaches

end Speecher
