import Speecher.Foundations.History
import Speecher.Foundations.Runs

/-!
# Monitors

An object that handles one event after another writes down what it does: `traced` keeps its log beside its state. A
`Monitor` reads such a log entry by entry: it has a state of its own and says which entry may come next. That a log is as
it should be is then a simulation: what the object does in one event, the monitor allows, and the two stay related
(`Keeps`). Code in several parts is shown to keep the relation part by part (`Keeps.andThen`), and whole runs by
`accepts_of_reaches`.
-/

namespace Speecher

/-- What an object became and what it wrote down. -/
abbrev Out (σ α : Type*) := σ × List α

namespace Out

variable {σ α : Type*}

/-- One part of an event's code after another. -/
def andThen (out : Out σ α) (f : σ → Out σ α) : Out σ α := ((f out.1).1, out.2 ++ (f out.1).2)

theorem andThen_assoc (out : Out σ α) (f g : σ → Out σ α) :
    (out.andThen f).andThen g = out.andThen fun s => (f s).andThen g := Prod.ext rfl (List.append_assoc ..)

end Out

/-- A reader of logs: the state it has read so far, and which entries may come in it. -/
structure Monitor (σ α : Type*) where
  start : σ
  after : σ → α → σ
  Allows : σ → α → Prop

namespace Monitor

variable {τ σ α ε : Type*} (m : Monitor σ α)

/-- The monitor's state after a log. -/
def read (log : List α) : σ := log.foldl m.after m.start

/-- Every entry of the log is one that may come after those before it. -/
def Accepts (log : List α) : Prop := Each (fun before a => m.Allows (m.read before) a) log

/-- Every entry may come where it does, from a state on. -/
def AllowsAll : σ → List α → Prop
  | _, [] => True
  | s, a :: log => m.Allows s a ∧ AllowsAll (m.after s a) log

variable {m}

theorem read_append (log log' : List α) : m.read (log ++ log') = log'.foldl m.after (m.read log) := List.foldl_append ..

theorem allowsAll_append {s : σ} {log log' : List α} :
    m.AllowsAll s (log ++ log') ↔ m.AllowsAll s log ∧ m.AllowsAll (log.foldl m.after s) log' := by
  induction log generalizing s with
  | nil => exact (iff_of_eq (true_and _)).symm
  | cons a log ih => exact (and_congr_right fun _ => ih).trans and_assoc.symm

theorem Accepts.append {log log' : List α} (h : m.Accepts log) (h' : m.AllowsAll (m.read log) log') :
    m.Accepts (log ++ log') := by
  induction log' generalizing log with
  | nil => rwa [List.append_nil]
  | cons a log' ih =>
    rw [List.append_cons]
    refine ih (h.snoc h'.1) ?_
    rw [read_append]
    exact h'.2

/-! ## Simulations -/

/-- What an object did is allowed, and leaves it related to the monitor. -/
structure Keeps (m : Monitor σ α) (R : τ → σ → Prop) (s : σ) (out : Out τ α) : Prop where
  allows : m.AllowsAll s out.2
  related : R out.1 (out.2.foldl m.after s)

namespace Keeps

variable {R R' : τ → σ → Prop} {s : σ} {t : τ} {out : Out τ α}

/-- Nothing written down. -/
theorem silent (h : R t s) : m.Keeps R s (t, []) := ⟨trivial, h⟩

/-- One entry. -/
theorem single {a : α} (ha : m.Allows s a) (h : R t (m.after s a)) : m.Keeps R s (t, [a]) := ⟨⟨ha, trivial⟩, h⟩

/-- An entry before the others. -/
theorem cons {a : α} {log : List α} (ha : m.Allows s a) (h : m.Keeps R (m.after s a) (t, log)) :
    m.Keeps R s (t, a :: log) := ⟨⟨ha, h.allows⟩, h.related⟩

/-- A part of the code of which it is known what it writes down. -/
theorem seq {out : Out τ α} {f : τ → Out τ α} (hout : m.AllowsAll s out.2)
    (h : m.Keeps R (out.2.foldl m.after s) (f out.1)) : m.Keeps R s (out.andThen f) where
  allows := allowsAll_append.mpr ⟨hout, h.allows⟩
  related := by
    rw [Out.andThen, List.foldl_append]
    exact h.related

/-- What was written down before a part of the code. -/
theorem told {log : List α} {f : τ → Out τ α} (hlog : m.AllowsAll s log)
    (h : m.Keeps R (log.foldl m.after s) (f t)) : m.Keeps R s (Out.andThen (t, log) f) := seq hlog h

/-- A branch of the code. -/
theorem ite {p : Prop} [Decidable p] {out' : Out τ α} (h : p → m.Keeps R s out) (h' : ¬ p → m.Keeps R s out') :
    m.Keeps R s (if p then out else out') := by
  by_cases hp : p
  · rw [if_pos hp]
    exact h hp
  · rw [if_neg hp]
    exact h' hp

theorem mono (h : m.Keeps R s out) (hR : ∀ t s, R t s → R' t s) : m.Keeps R' s out := ⟨h.allows, hR _ _ h.related⟩

/-- **One part of the code after another.** -/
theorem andThen (h : m.Keeps R s out) {f : τ → Out τ α} (hf : ∀ t s, R t s → m.Keeps R' s (f t)) :
    m.Keeps R' s (out.andThen f) := by
  obtain ⟨hallows, hrelated⟩ := hf _ _ h.related
  refine ⟨allowsAll_append.mpr ⟨h.allows, hallows⟩, ?_⟩
  rw [Out.andThen, List.foldl_append]
  exact hrelated

end Keeps

/-- An object with its log. -/
def traced (step : τ → ε → Option (Out τ α)) (s : Out τ α) (e : ε) : Option (Out τ α) :=
  (step s.1 e).map fun out => (out.1, s.2 ++ out.2)

/-- **A simulation accepts the log of every run**, and relates the object to what the monitor read. -/
theorem accepts_of_reaches {step : τ → ε → Option (Out τ α)} {ok : Out τ α → ε → Prop} {init : τ} {R : τ → σ → Prop}
    (start : R init m.start)
    (keeps : ∀ t s e out log, ok (t, log) e → R t s → step t e = some out → m.Keeps R s out) {s : Out τ α}
    (h : Reaches (traced step) ok (init, []) s) : m.Accepts s.2 ∧ R s.1 (m.read s.2) := by
  have hempty : m.Accepts [] := Each.nil
  refine h.invariant (P := fun s => m.Accepts s.2 ∧ R s.1 (m.read s.2)) ⟨hempty, start⟩ ?_
  rintro ⟨t, log⟩ e s' hok ⟨haccepts, hR⟩ hstep
  obtain ⟨out, hout, rfl⟩ := Option.map_eq_some_iff.mp hstep
  obtain ⟨hallows, hrelated⟩ := keeps t (m.read log) e out log hok hR hout
  refine ⟨haccepts.append hallows, ?_⟩
  rw [read_append]
  exact hrelated

end Monitor

end Speecher
