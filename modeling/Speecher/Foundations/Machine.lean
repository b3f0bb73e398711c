import Mathlib.Data.List.Basic
import Mathlib.Tactic.Common

/-!
# Re-entrant machines

An object that calls into code it does not own (a provider, a handler of one of its signals)
may be called back before that call returns. A `Machine` is such an object with its own code
made explicit: a configuration is the object's state and the code still to run, innermost call
first, so a call that calls back simply puts more code in front. The environment has control
when no code is left (the event loop waits) and inside every instruction that *yields*, a call
into foreign code; there it may *enter* the object as often as it likes before the call returns.
Some entries, such as a queued call or a timer, come from the event loop alone: these *wake*
the object.

* `Machine.next?` is one move of a run, and computes, so that a run is a list of moves
  (`Machine.play`).
* `Machine.Reachable ok` collects the configurations of the runs whose moves all satisfy `ok`.
* `Machine.length_le_of_rank` bounds how long an object goes on by itself.
* `Machine.Settles` is what an object does when it is left alone.
* `Machine.StackInvariant` is the rule most safety arguments need: an invariant of the state
  and one of each pending instruction, the second stable under whatever runs above it.
-/

namespace Speecher

/-- The state of an object and the code it has still to run, innermost call first. -/
structure Config (σ ι : Type*) where
  state : σ
  code : List ι
  deriving DecidableEq

/-- One move of a run: the instruction in front runs (a call that yields returns, with the
environment's reply), the environment enters the object, or the event loop wakes it. -/
inductive Move (ι χ : Type*)
  | run (reply : χ)
  | enter (i : ι)
  | wake (i : ι)
  deriving DecidableEq

/-- A re-entrant machine with states `σ`, instructions `ι` and replies `χ` to its calls. -/
structure Machine (σ ι χ : Type*) where
  /-- The state after an instruction, and the code it leaves in its place. -/
  exec : χ → ι → σ → σ × List ι
  /-- The instruction is a call into foreign code, which may call back before it returns. -/
  yields : ι → Bool
  /-- The environment may enter the object so, whenever it has control. -/
  enters : σ → ι → Bool
  /-- The event loop may wake the object so, once no code is left. -/
  wakes : σ → ι → Bool

namespace Machine

variable {σ ι χ : Type*} (m : Machine σ ι χ)

/-- The environment has control: no code is left, or a call into foreign code is under way. -/
def hasControl : List ι → Bool
  | [] => true
  | i :: _ => m.yields i

/-- The configuration after a move, when the move is possible. -/
def next? (c : Config σ ι) : Move ι χ → Option (Config σ ι)
  | .run r =>
    match c.code with
    | [] => none
    | i :: k => some ⟨(m.exec r i c.state).1, (m.exec r i c.state).2 ++ k⟩
  | .enter i => if m.hasControl c.code && m.enters c.state i then some ⟨c.state, i :: c.code⟩ else none
  | .wake i => if c.code.isEmpty && m.wakes c.state i then some ⟨c.state, [i]⟩ else none

/-- The configuration after a list of moves, when each is possible. -/
def play : Config σ ι → List (Move ι χ) → Option (Config σ ι)
  | c, [] => some c
  | c, mv :: mvs => (m.next? c mv).bind (play · mvs)

/-- The configurations a run reaches from an idle start in `init`, each move satisfying `ok`. -/
inductive Reachable (ok : Config σ ι → Move ι χ → Prop) (init : σ → Prop) : Config σ ι → Prop
  | start {s : σ} : init s → Reachable ok init ⟨s, []⟩
  | step {c c' : Config σ ι} (mv : Move ι χ) :
      Reachable ok init c → ok c mv → m.next? c mv = some c' → Reachable ok init c'

variable {m} {ok : Config σ ι → Move ι χ → Prop} {init : σ → Prop}

/-- The cases of a move: what ran, or who entered. -/
theorem next?_cases {c c' : Config σ ι} {mv : Move ι χ} (h : m.next? c mv = some c') :
    (∃ r i k, mv = .run r ∧ c.code = i :: k ∧
      c' = ⟨(m.exec r i c.state).1, (m.exec r i c.state).2 ++ k⟩) ∨
    (∃ i, mv = .enter i ∧ m.hasControl c.code = true ∧ m.enters c.state i = true ∧
      c' = ⟨c.state, i :: c.code⟩) ∨
    (∃ i, mv = .wake i ∧ c.code = [] ∧ m.wakes c.state i = true ∧ c' = ⟨c.state, [i]⟩) := by
  cases mv with
  | run r =>
    simp only [next?] at h
    split at h
    · cases h
    · rename_i i k hk
      exact .inl ⟨r, i, k, rfl, hk, (Option.some.inj h).symm⟩
  | enter i =>
    simp only [next?, Bool.and_eq_true] at h
    split at h
    · rename_i hc
      exact .inr (.inl ⟨i, rfl, hc.1, hc.2, (Option.some.inj h).symm⟩)
    · cases h
  | wake i =>
    simp only [next?, Bool.and_eq_true, List.isEmpty_iff] at h
    split at h
    · rename_i hc
      exact .inr (.inr ⟨i, rfl, hc.1, hc.2, (Option.some.inj h).symm⟩)
    · cases h

/-- The moves of a played run satisfy `ok`, as far as they are possible. -/
def PlaysOk (m : Machine σ ι χ) (ok : Config σ ι → Move ι χ → Prop) :
    Config σ ι → List (Move ι χ) → Prop
  | _, [] => True
  | c, mv :: mvs => ok c mv ∧ ∀ c' ∈ m.next? c mv, PlaysOk m ok c' mvs

instance PlaysOk.decidable [∀ c mv, Decidable (ok c mv)] :
    ∀ (c : Config σ ι) (mvs : List (Move ι χ)), Decidable (PlaysOk m ok c mvs)
  | _, [] => inferInstanceAs (Decidable True)
  | c, mv :: mvs =>
    have := fun c' => PlaysOk.decidable c' mvs
    inferInstanceAs (Decidable (ok c mv ∧ ∀ c' ∈ m.next? c mv, PlaysOk m ok c' mvs))

/-- A played run reaches its last configuration. -/
theorem Reachable.play {c c' : Config σ ι} {mvs : List (Move ι χ)} (hc : m.Reachable ok init c)
    (hok : PlaysOk m ok c mvs) (h : m.play c mvs = some c') : m.Reachable ok init c' := by
  induction mvs generalizing c with
  | nil =>
    cases h
    exact hc
  | cons mv mvs ih =>
    obtain ⟨c₁, h₁, h₂⟩ := Option.bind_eq_some_iff.mp h
    exact ih (hc.step mv hok.1 h₁) (hok.2 c₁ h₁) h₂

/-- A played run from a start reaches its last configuration, when every move may be made. -/
theorem reachable_of_play {s : σ} {c : Config σ ι} {mvs : List (Move ι χ)} (hs : init s)
    (h : m.play ⟨s, []⟩ mvs = some c) : m.Reachable (fun _ _ => True) init c := by
  have plays : ∀ (mvs : List (Move ι χ)) (c : Config σ ι), PlaysOk m (fun _ _ => True) c mvs := by
    intro mvs
    induction mvs with
    | nil => exact fun _ => trivial
    | cons mv mvs ih => exact fun _ => ⟨trivial, fun c' _ => ih c'⟩
  exact (Reachable.start hs).play (plays mvs _) h

/-- What every configuration reached satisfies may be assumed of each configuration a run moves from. -/
theorem Reachable.assume {P : Config σ ι → Prop} {c : Config σ ι} (h : m.Reachable ok init c)
    (hP : ∀ c, m.Reachable ok init c → P c) : m.Reachable (fun c mv => ok c mv ∧ P c) init c := by
  induction h with
  | start hs => exact .start hs
  | step mv hc hmv hnext ih => exact ih.step mv ⟨hmv, hP _ hc⟩ hnext

/-- **Induction over runs**: what holds at the start and survives each kind of move holds in
every configuration reached. -/
theorem Reachable.invariant {P : Config σ ι → Prop} {c : Config σ ι} (h : m.Reachable ok init c)
    (start : ∀ s, init s → P ⟨s, []⟩)
    (run : ∀ r i k s, ok ⟨s, i :: k⟩ (.run r) → P ⟨s, i :: k⟩ →
      P ⟨(m.exec r i s).1, (m.exec r i s).2 ++ k⟩)
    (enter : ∀ i k s, ok ⟨s, k⟩ (.enter i) → P ⟨s, k⟩ → m.hasControl k = true →
      m.enters s i = true → P ⟨s, i :: k⟩)
    (wake : ∀ i s, ok ⟨s, []⟩ (.wake i) → P ⟨s, []⟩ → m.wakes s i = true → P ⟨s, [i]⟩) : P c := by
  induction h with
  | start hs => exact start _ hs
  | @step c c' mv hc hmv hnext ih =>
    obtain ⟨s, k⟩ := c
    obtain ⟨r, i, k, rfl, rfl, rfl⟩ | ⟨i, rfl, hk, hi, rfl⟩ | ⟨i, rfl, rfl, hi, rfl⟩ :=
      next?_cases hnext
    · exact run r i k s hmv ih
    · exact enter i k s hmv ih hk hi
    · exact wake i s hmv ih hi

/-- What holds of the state at the start and survives every instruction holds in every state reached. -/
theorem Reachable.stateInvariant {I : σ → Prop} {c : Config σ ι} (h : m.Reachable ok init c)
    (start : ∀ s, init s → I s)
    (run : ∀ r i k s, ok ⟨s, i :: k⟩ (.run r) → I s → I (m.exec r i s).1) : I c.state :=
  h.invariant (P := fun c => I c.state) start run (fun _ _ _ _ h _ _ => h) (fun _ _ _ h _ => h)

/-- **What goes on by itself ends**: under an invariant, a rank that every move of a kind lowers
bounds how many moves of that kind a run makes in a row. -/
theorem length_le_of_rank {P : Config σ ι → Prop} {rank : Config σ ι → ℕ} {own : Move ι χ → Prop}
    (lowers : ∀ c mv c', own mv → P c → m.next? c mv = some c' → P c' ∧ rank c' < rank c)
    {c c' : Config σ ι} (hc : P c) (mvs : List (Move ι χ)) (hown : ∀ mv ∈ mvs, own mv)
    (h : m.play c mvs = some c') : mvs.length ≤ rank c ∧ P c' := by
  induction mvs generalizing c with
  | nil =>
    cases h
    exact ⟨Nat.zero_le _, hc⟩
  | cons mv mvs ih =>
    obtain ⟨c₁, h₁, h₂⟩ := Option.bind_eq_some_iff.mp h
    obtain ⟨hc₁, hlt⟩ := lowers c mv c₁ (hown mv (by simp)) hc h₁
    obtain ⟨hle, hc'⟩ := ih hc₁ (fun mv hmv => hown mv (by simp [hmv])) h₂
    simp only [List.length_cons]
    exact ⟨by omega, hc'⟩

/-- The object's own code ends, when a rank falls with every instruction. -/
theorem runs_length_le {P : Config σ ι → Prop} {rank : Config σ ι → ℕ}
    (keeps : ∀ r i k s, P ⟨s, i :: k⟩ → P ⟨(m.exec r i s).1, (m.exec r i s).2 ++ k⟩)
    (lowers : ∀ r i k s, P ⟨s, i :: k⟩ →
      rank ⟨(m.exec r i s).1, (m.exec r i s).2 ++ k⟩ < rank ⟨s, i :: k⟩)
    {c c' : Config σ ι} (hc : P c) (replies : List χ)
    (h : m.play c (replies.map .run) = some c') : replies.length ≤ rank c := by
  have hown : ∀ mv ∈ (replies.map .run : List (Move ι χ)), ∃ r, mv = .run r := by
    simp only [List.mem_map, forall_exists_index, and_imp, forall_apply_eq_imp_iff₂]
    exact fun r _ => ⟨r, rfl⟩
  have hlow : ∀ (c : Config σ ι) (mv : Move ι χ) (c' : Config σ ι), (∃ r, mv = .run r) → P c →
      m.next? c mv = some c' → P c' ∧ rank c' < rank c := by
    rintro ⟨s, code⟩ _ c' ⟨r, rfl⟩ hP hnext
    obtain ⟨r, i, k, ⟨⟩, ⟨⟩, rfl⟩ | ⟨i, hmv, -⟩ | ⟨i, hmv, -⟩ := next?_cases hnext
    · exact ⟨keeps r i k s hP, lowers r i k s hP⟩
    · cases hmv
    · cases hmv
  simpa using (length_le_of_rank hlow hc _ hown h).1

/-- An invariant `I` of the state together with an invariant `F` of every pending instruction,
which whatever runs above an instruction keeps. -/
structure StackInvariant (m : Machine σ ι χ) (ok : Config σ ι → Move ι χ → Prop)
    (I : σ → Prop) (F : σ → ι → Prop) : Prop where
  /-- An instruction keeps the state's invariant. -/
  state : ∀ r i k s, ok ⟨s, i :: k⟩ (.run r) → I s → F s i → I (m.exec r i s).1
  /-- It leaves only code that satisfies its own. -/
  fresh : ∀ r i k s, ok ⟨s, i :: k⟩ (.run r) → I s → F s i →
    ∀ j ∈ (m.exec r i s).2, F (m.exec r i s).1 j
  /-- It disturbs no instruction pending below it. -/
  stable : ∀ r i k s, ok ⟨s, i :: k⟩ (.run r) → I s → F s i → ∀ j, F s j → F (m.exec r i s).1 j
  /-- An entry starts from its own invariant. -/
  enter : ∀ i s, I s → m.enters s i = true → F s i
  /-- So does what the event loop wakes. -/
  wake : ∀ i s, I s → m.wakes s i = true → F s i

/-- **The stack rule**: a stack invariant that holds at the start holds in every configuration
reached. -/
theorem StackInvariant.holds {I : σ → Prop} {F : σ → ι → Prop} (h : StackInvariant m ok I F)
    (hinit : ∀ s, init s → I s) {c : Config σ ι} (hc : m.Reachable ok init c) :
    I c.state ∧ ∀ i ∈ c.code, F c.state i := by
  refine hc.invariant (P := fun c => I c.state ∧ ∀ i ∈ c.code, F c.state i)
    (fun s hs => ⟨hinit s hs, by simp⟩) ?_ ?_ ?_
  · rintro r i k s hok ⟨hI, hF⟩
    have hi : F s i := hF i (by simp)
    refine ⟨h.state r i k s hok hI hi, fun j hj => ?_⟩
    rcases List.mem_append.mp hj with hj | hj
    · exact h.fresh r i k s hok hI hi j hj
    · exact h.stable r i k s hok hI hi j (hF j (by simp [hj]))
  · rintro i k s - ⟨hI, hF⟩ - hi
    refine ⟨hI, fun j hj => ?_⟩
    rcases List.mem_cons.mp hj with rfl | hj
    · exact h.enter _ s hI hi
    · exact hF j hj
  · rintro i s - ⟨hI, -⟩ hi
    refine ⟨hI, fun j hj => ?_⟩
    rw [List.mem_singleton.mp hj]
    exact h.wake i s hI hi

/-! ## Left alone -/

/-- The code ends in a state, when nobody enters the object meanwhile and the environment replies the same always. -/
inductive Settles (m : Machine σ ι χ) (r : χ) : Config σ ι → σ → Prop
  | done (s : σ) : Settles m r ⟨s, []⟩ s
  | run {s s' : σ} {i : ι} {k : List ι} :
      Settles m r ⟨(m.exec r i s).1, (m.exec r i s).2 ++ k⟩ s' → Settles m r ⟨s, i :: k⟩ s'

namespace Settles

variable {r : χ} {s s' s'' : σ} {i : ι} {k k' : List ι}

theorem of_run (h : m.Settles r ⟨s, i :: k⟩ s') : m.Settles r ⟨(m.exec r i s).1, (m.exec r i s).2 ++ k⟩ s' := by
  cases h with
  | run h => exact h

/-- Code left alone ends in one state. -/
theorem unique {c : Config σ ι} (h : m.Settles r c s) (h' : m.Settles r c s') : s = s' := by
  induction h with
  | done => cases h'; rfl
  | run _ ih => exact ih h'.of_run

/-- Code runs before what stands behind it. -/
theorem append (h : m.Settles r ⟨s, k⟩ s') (h' : m.Settles r ⟨s', k'⟩ s'') : m.Settles r ⟨s, k ++ k'⟩ s'' := by
  generalize hc : (⟨s, k⟩ : Config σ ι) = c at h
  induction h generalizing s k with
  | done => cases hc; exact h'
  | run _ ih =>
    cases hc
    have hrest := ih h' rfl
    rw [List.append_assoc] at hrest
    exact .run hrest

/-- One instruction, and what it leaves. -/
theorem single {out : σ × List ι} (hexec : m.exec r i s = out) (h : m.Settles r ⟨out.1, out.2⟩ s') :
    m.Settles r ⟨s, [i]⟩ s' := by
  subst hexec
  refine .run ?_
  rwa [List.append_nil]

end Settles

end Machine

end Speecher
