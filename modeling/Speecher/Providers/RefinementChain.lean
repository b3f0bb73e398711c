import Speecher.Foundations.Machine
import Speecher.Providers.Failure

/-!
# The refinement chain

`RefinementChain` walks a session's refiners as `SpeechChain` walks its speech providers, and guards its walks: a
counter moves on with every walk started or cancelled, and after each signal the walk looks whether it is still the one
it was. The model is a re-entrant machine whose signals' handlers may call any operation of the chain. The registry and
a refiner do not call back; what they answer while a walk looks at a provider is its `Reply`. The settings a refiner
prepares with are left to it.

* `reportsWhile_not_cancelled`: in every run, nothing is reported between a cancel and the next preparation.
* `ends_once`: a preparation that is started while nothing is on the worker ends in one `ready` or `exhausted`, unless
  it is cancelled or another takes its place.
-/

namespace Speecher.RefinementChain

/-- What a walk reads of the settings and of the provider table. -/
structure Registry (S : Type) where
  isChainProviderId : String → Bool
  /-- `needsInternet` of a refinement provider. -/
  needsInternet : S → String → Bool
  hasUnreadProviderSecrets : S → String → Bool

/-- What runs on the worker: keys are read, or a sign-in is renewed. -/
inductive Job
  | secrets
  | refiner
  deriving DecidableEq

/-- What the chain did: preparations started and cancelled, and its signals. -/
inductive Event
  | prepared
  | cancelled
  | passedOver (providerId : String) (failure : ProviderFailure)
  | preparing
  | secretsResolved
  | ready (providerId : String)
  | exhausted
  deriving DecidableEq

/-- The fields of a chain, with what it did, newest first. -/
structure State (S : Type) where
  providerIds : List String := []
  index : ℕ := 0
  offline : Bool := false
  settings : S
  /-- The worker's current job. -/
  job : Option Job := none
  walkGeneration : ℕ := 0
  trace : List Event := []

/-- The code of a chain: its operations, the worker's result, and what is left of a walk after a signal. -/
inductive Instr (S : Type)
  | begin (primary : String) (fallbacks : List String)
  | setReachability (offline : Bool)
  | prepare (settings : S)
  | prepareNext (settings : S)
  | cancel
  | jobDone (failure : Option ProviderFailure) (settings : S)
  /-- The handlers of a signal. -/
  | signal
  /-- What follows a `passedOver` signal. -/
  | advance (generation : ℕ)
  /-- What follows a `secretsResolved` signal. -/
  | rewalk (generation : ℕ)

/-- What the registry and the current refiner answer: whether there is one, whether its sign-in is to be renewed on the
worker, and why it cannot prepare. -/
structure Reply where
  acquired : Bool := true
  refreshJob : Bool := false
  failure : Option ProviderFailure := none

variable {S : Type} (r : Registry S)

/-- `providerChain` of the refinement role. -/
def providerChain (primary : String) (fallbacks : List String) : List String :=
  if primary = "none" then []
  else
    fallbacks.foldl
      (fun chain id => if id ∉ chain ∧ r.isChainProviderId id then chain ++ [id] else chain) [primary]

def State.log (s : State S) (e : Event) : State S := { s with trace := e :: s.trace }

/-- `currentId`, empty past the last provider. -/
def State.currentId (s : State S) : String := s.providerIds.getD s.index ""

/-- `cancel`. -/
def State.cancel (s : State S) : State S :=
  { s with walkGeneration := s.walkGeneration + 1, job := none, trace := .cancelled :: s.trace }

/-- `passOver`, up to its signal's handlers. -/
def passOver (failure : ProviderFailure) (s : State S) : State S × List (Instr S) :=
  (s.log (.passedOver s.currentId failure), [.signal, .advance s.walkGeneration])

/-- `prepareCurrent`. -/
def prepareCurrent (reply : Reply) (s : State S) : State S × List (Instr S) :=
  match reply.failure with
  | some failure => passOver failure s
  | none => (s.log (.ready s.currentId), [.signal])

/-- A job is handed to the worker, where it takes the place of another. -/
def startJob (job : Job) (s : State S) : State S × List (Instr S) :=
  ({ s with job := some job, trace := .preparing :: s.trace }, [.signal])

/-- `walk`, up to its first signal's handlers. -/
def walk (reply : Reply) (s : State S) : State S × List (Instr S) :=
  match s.providerIds[s.index]? with
  | none => (s.log .exhausted, [.signal])
  | some providerId =>
    if s.offline && r.needsInternet s.settings providerId then passOver noInternetFailure s
    else if !reply.acquired then passOver ⟨.unavailable, "Unknown refinement provider: " ++ providerId, 0⟩ s
    else if r.hasUnreadProviderSecrets s.settings providerId then startJob .secrets s
    else if reply.refreshJob then startJob .refiner s
    else prepareCurrent reply s

/-- `prepare`, from a provider on. -/
def prepare (reply : Reply) (settings : S) (s : State S) : State S × List (Instr S) :=
  walk r reply
    { s with walkGeneration := s.walkGeneration + 1, settings, trace := .prepared :: s.trace }

/-- The worker's result: `useResolvedSecrets` or `finishPreparation`. -/
def jobDone (reply : Reply) (failure : Option ProviderFailure) (settings : S) (s : State S) :
    State S × List (Instr S) :=
  match s.job, failure with
  | none, _ => (s, [])
  | some _, some failure => passOver failure { s with job := none }
  | some .secrets, none =>
    ({ s with job := none, settings, trace := .secretsResolved :: s.trace }, [.signal, .rewalk s.walkGeneration])
  | some .refiner, none => prepareCurrent reply { s with job := none }

/-- One instruction of the chain. -/
def exec (reply : Reply) : Instr S → State S → State S × List (Instr S)
  | .begin primary fallbacks, s => ({ s.cancel with providerIds := providerChain r primary fallbacks, index := 0 }, [])
  | .setReachability offline, s => ({ s with offline }, [])
  | .prepare settings, s => prepare r reply settings s
  | .prepareNext settings, s => prepare r reply settings { s with index := s.index + 1 }
  | .cancel, s => (s.cancel, [])
  | .jobDone failure settings, s => jobDone reply failure settings s
  | .signal, s => (s, [])
  | .advance generation, s =>
    if generation ≠ s.walkGeneration then (s, []) else walk r reply { s with index := s.index + 1 }
  | .rewalk generation, s => if generation ≠ s.walkGeneration then (s, []) else walk r reply s

/-- The refinement chain: handlers of its signals may call its operations, as may the event loop, from which the
worker's result comes. -/
def machine : Machine (State S) (Instr S) Reply where
  exec := exec r
  yields | .signal => true | _ => false
  enters
    | _, .begin .. | _, .setReachability _ | _, .prepare _ | _, .prepareNext _ | _, .cancel => true
    | _, _ => false
  wakes
    | s, .jobDone .. => s.job.isSome
    | _, _ => false

/-- A chain before its first `begin`. -/
def IsInitial (s : State S) : Prop := ∃ settings, s = { settings }

/-! ## What a trace says -/

/-- The event is a signal of the chain. -/
def Event.isReport : Event → Bool
  | .prepared | .cancelled => false
  | _ => true

/-- The event cancels what was prepared. -/
def Event.cancels : Event → Bool
  | .cancelled => true
  | _ => false

/-- The event ends what was prepared. -/
def Event.ends : Event → Bool
  | .cancelled | .ready _ | .exhausted => true
  | _ => false

/-- A preparation started, and nothing stopped it since. -/
def underWay (stops : Event → Bool) : List Event → Bool
  | [] => false
  | .prepared :: _ => true
  | e :: es => !stops e && underWay stops es

/-- Every signal came while a preparation was under way. -/
def ReportsWhile (stops : Event → Bool) : List Event → Prop
  | [] => True
  | e :: es => (e.isReport = true → underWay stops es = true) ∧ ReportsWhile stops es

/-! ## What the chain signals -/

/-- A walk's next signal, and what it leaves of the walk. -/
inductive Emits (s : State S) : State S × List (Instr S) → Prop
  | passedOver (providerId : String) (failure : ProviderFailure) :
      Emits s (s.log (.passedOver providerId failure), [.signal, .advance s.walkGeneration])
  | secretsResolved (settings : S) :
      Emits s ({ s with settings, trace := .secretsResolved :: s.trace }, [.signal, .rewalk s.walkGeneration])
  | preparing (job : Job) : Emits s (startJob job s)
  | ready (providerId : String) : Emits s (s.log (.ready providerId), [.signal])
  | exhausted : Emits s (s.log .exhausted, [.signal])

variable {r} {s : State S} {reply : Reply}

theorem prepareCurrent_emits (reply : Reply) (s : State S) : Emits s (prepareCurrent reply s) := by
  rw [prepareCurrent]
  cases reply.failure with
  | none => exact .ready _
  | some failure => exact .passedOver _ failure

theorem walk_emits (r : Registry S) (reply : Reply) (s : State S) : Emits s (walk r reply s) := by
  rw [walk]
  split
  · exact .exhausted
  · split_ifs
    · exact .passedOver _ _
    · exact .passedOver _ _
    · exact .preparing _
    · exact .preparing _
    · exact prepareCurrent_emits reply _

theorem jobDone_emits (reply : Reply) {job : Job} (h : s.job = some job) (failure : Option ProviderFailure)
    (settings : S) :
    Emits { s with job := none } (jobDone reply failure settings s) := by
  cases failure with
  | some failure =>
    simp only [jobDone, h]
    exact .passedOver _ failure
  | none =>
    cases job with
    | secrets =>
      simp only [jobDone, h]
      exact .secretsResolved settings
    | refiner =>
      simp only [jobDone, h]
      exact prepareCurrent_emits reply _

/-! ## Nothing after a cancel -/

/-- What is left of a walk is not of a walk to come. -/
def Instr.Started (generation : ℕ) : Instr S → Prop
  | .advance g | .rewalk g => g ≤ generation
  | _ => True

/-- The instruction goes on with the walk of a generation. -/
def Instr.isOf (generation : ℕ) : Instr S → Bool
  | .advance g | .rewalk g => g = generation
  | _ => false

theorem Instr.isOf_succ {generation : ℕ} {i : Instr S} (h : i.Started generation) :
    i.isOf (generation + 1) = false := by
  cases i <;> first | rfl | exact decide_eq_false (Nat.ne_of_lt (Nat.lt_succ_of_le h))

theorem Instr.Started.succ {generation : ℕ} {i : Instr S} (h : i.Started generation) : i.Started (generation + 1) := by
  cases i <;> first | trivial | exact Nat.le_succ_of_le h

/-- Nothing was reported once cancelled, and nothing on the worker is. -/
structure Live (s : State S) : Prop where
  reports : ReportsWhile Event.cancels s.trace
  job : s.job.isSome = true → underWay Event.cancels s.trace = true

/-- What is left of the current walk is not cancelled. -/
structure Pending (s : State S) (i : Instr S) : Prop where
  started : i.Started s.walkGeneration
  underWay : i.isOf s.walkGeneration = true → underWay Event.cancels s.trace = true

/-- An instruction keeps what is right, and leaves only code that is. -/
def Keeps (s : State S) (out : State S × List (Instr S)) : Prop :=
  Live out.1 ∧ (∀ j ∈ out.2, Pending out.1 j) ∧ ∀ j, Pending s j → Pending out.1 j

theorem Emits.live {out : State S × List (Instr S)} (h : Emits s out) (hr : ReportsWhile Event.cancels s.trace)
    (hu : underWay Event.cancels s.trace = true) : Live out.1 ∧ underWay Event.cancels out.1.trace = true ∧
      out.1.walkGeneration = s.walkGeneration ∧ ∀ j ∈ out.2, j.Started s.walkGeneration := by
  cases h with
  | passedOver | secretsResolved =>
    refine ⟨⟨⟨fun _ => hu, hr⟩, fun _ => hu⟩, hu, rfl, fun j hj => ?_⟩
    rcases List.mem_cons.mp hj with rfl | hj
    · trivial
    · rw [List.mem_singleton.mp hj]
      exact Nat.le_refl _
  | preparing | ready | exhausted =>
    refine ⟨⟨⟨fun _ => hu, hr⟩, fun _ => hu⟩, hu, rfl, fun j hj => ?_⟩
    rw [List.mem_singleton.mp hj]
    trivial

/-- What a walk that is under way signals keeps everything right. -/
theorem Emits.keepsLive {s s₁ : State S} {out : State S × List (Instr S)} (h : Emits s₁ out)
    (hr : ReportsWhile Event.cancels s₁.trace) (hu : underWay Event.cancels s₁.trace = true)
    (hgen : s.walkGeneration ≤ s₁.walkGeneration) : Keeps s out := by
  obtain ⟨hlive, hunder, hsame, hstarted⟩ := h.live hr hu
  refine ⟨hlive, fun j hj => ⟨hsame ▸ hstarted j hj, fun _ => hunder⟩, fun j hj => ⟨?_, fun _ => hunder⟩⟩
  have := hj.started
  rw [hsame]
  cases j <;> first | trivial | exact Nat.le_trans this hgen

theorem exec_keeps {i : Instr S} (h : Live s) (hi : Pending s i) : Keeps s (exec r reply i s) := by
  have hcancel : ∀ s' : State S, s'.trace = .cancelled :: s.trace → s'.walkGeneration = s.walkGeneration + 1 →
      s'.job = none → Keeps s (s', []) := fun s' htrace hgen hjob => by
    refine ⟨⟨?_, fun hsome => ?_⟩, nofun, fun j hj => ⟨?_, fun hof => ?_⟩⟩
    · rw [htrace]
      exact ⟨nofun, h.reports⟩
    · rw [hjob] at hsome
      cases hsome
    · rw [hgen]
      exact hj.started.succ
    · rw [hgen, Instr.isOf_succ hj.started] at hof
      cases hof
  have hidle : Keeps s (s, []) := ⟨h, nofun, fun _ hj => hj⟩
  cases i with
  | begin | cancel => exact hcancel _ rfl rfl rfl
  | setReachability =>
    exact ⟨⟨h.reports, h.job⟩, nofun, fun _ hj => ⟨hj.started, hj.underWay⟩⟩
  | signal => exact hidle
  | prepare | prepareNext => exact (walk_emits r reply _).keepsLive ⟨nofun, h.reports⟩ rfl (Nat.le_succ _)
  | jobDone failure settings =>
    rw [exec]
    rcases hjob : s.job with _ | job
    · have hnone : jobDone reply failure settings s = (s, []) := by simp only [jobDone, hjob]
      exact hnone ▸ hidle
    · exact (jobDone_emits reply hjob failure settings).keepsLive h.reports (h.job (by rw [hjob]; rfl)) (Nat.le_refl _)
  | advance generation | rewalk generation =>
    rw [exec]
    split_ifs with hgen
    · exact hidle
    · exact (walk_emits r reply _).keepsLive h.reports (hi.underWay (decide_eq_true (not_not.mp hgen))) (Nat.le_refl _)

/-- **Nothing after a cancel**: whatever the handlers of the chain's signals call, and whenever, the chain signals
nothing between a cancel and the next preparation. -/
theorem reportsWhile_not_cancelled {c : Config (State S) (Instr S)}
    (hc : (machine r).Reachable (fun _ _ => True) IsInitial c) : ReportsWhile Event.cancels c.state.trace := by
  have hstack : Machine.StackInvariant (machine r) (fun _ _ => True) Live Pending :=
    { state := fun reply _ _ _ _ hs hi => (exec_keeps hs hi).1
      fresh := fun reply _ _ _ _ hs hi => (exec_keeps hs hi).2.1
      stable := fun reply _ _ _ _ hs hi => (exec_keeps hs hi).2.2
      enter := fun i s _ hi => by cases i <;> first | exact ⟨trivial, nofun⟩ | cases hi
      wake := fun i s _ hi => by cases i <;> first | exact ⟨trivial, nofun⟩ | cases hi }
  exact (hstack.holds (by rintro _ ⟨settings, rfl⟩; exact ⟨trivial, nofun⟩) hc).1.reports

/-- The handler of a `passedOver` signal cancels, and the walk signals nothing more. -/
theorem reportsWhile_not_cancelled_in_handler : ∃ c,
    (machine (⟨fun _ => true, fun _ id => id = "openai", fun _ _ => false⟩ : Registry Unit)).play
      ⟨{ settings := () }, []⟩ [.enter (.begin "openai" ["endpoint"]), .run {}, .enter (.setReachability true), .run {},
        .enter (.prepare ()), .run {}, .enter .cancel, .run {}, .run {}, .run {}] = some c ∧
      ReportsWhile Event.cancels c.state.trace := by
  refine (exists_congr fun c => and_iff_left_of_imp fun hplay => ?_).mpr ⟨_, rfl⟩
  exact reportsWhile_not_cancelled (Machine.reachable_of_play ⟨(), rfl⟩ hplay)

/-! ## One end each -/

/-- A preparation is started while nothing is on the worker. -/
def Calm (c : Config (State S) (Instr S)) : Move (Instr S) Reply → Prop
  | .run _ =>
    match c.code with
    | .prepare _ :: _ | .prepareNext _ :: _ => c.state.job = none
    | _ => True
  | _ => True

instance (c : Config (State S) (Instr S)) : DecidablePred (Calm c)
  | .run _ =>
    match hcode : c.code with
    | .prepare _ :: _ | .prepareNext _ :: _ => decidable_of_iff (c.state.job = none) (by rw [Calm, hcode])
    | [] | .begin .. :: _ | .setReachability _ :: _ | .cancel :: _ | .jobDone .. :: _ | .signal :: _ | .advance _ :: _
    | .rewalk _ :: _ => .isTrue (by rw [Calm, hcode]; trivial)
  | .enter _ | .wake _ => .isTrue trivial

/-- What still works on the current walk: the worker, and code that goes on with it. -/
def workers (s : State S) (code : List (Instr S)) : ℕ := s.job.toList.length + code.countP (Instr.isOf s.walkGeneration)

/-- The code was started, signals came only while a preparation was under way, and exactly one works on it then. -/
structure Ordered (s : State S) (code : List (Instr S)) : Prop where
  started : ∀ j ∈ code, j.Started s.walkGeneration
  reports : ReportsWhile Event.ends s.trace
  one : workers s code = (underWay Event.ends s.trace).toNat

theorem Emits.ordered {out : State S × List (Instr S)} (h : Emits s out) (hjob : s.job = none)
    (hr : ReportsWhile Event.ends s.trace) (hu : underWay Event.ends s.trace = true) :
    Ordered out.1 out.2 ∧ out.1.walkGeneration = s.walkGeneration := by
  obtain ⟨ids, index, offline, settings, job, generation, trace⟩ := s
  subst hjob
  dsimp only at hr hu
  cases h with
  | passedOver | secretsResolved =>
    refine ⟨⟨fun j hj => ?_, ⟨fun _ => hu, hr⟩, ?_⟩, rfl⟩
    · rcases List.mem_cons.mp hj with rfl | hj
      · trivial
      · rw [List.mem_singleton.mp hj]
        exact Nat.le_refl _
    · simp [workers, State.log, Instr.isOf, underWay, Event.ends, hu]
  | preparing | ready | exhausted =>
    refine ⟨⟨fun j hj => ?_, ⟨fun _ => hu, hr⟩, ?_⟩, rfl⟩
    · rw [List.mem_singleton.mp hj]
      trivial
    · simp [workers, startJob, State.log, Instr.isOf, underWay, Event.ends, hu]

/-- Code below that no longer belongs to the walk changes nothing. -/
theorem Ordered.append {code k : List (Instr S)} (h : Ordered s code)
    (hk : ∀ j ∈ k, j.Started s.walkGeneration ∧ j.isOf s.walkGeneration = false) : Ordered s (code ++ k) := by
  refine ⟨fun j hj => ?_, h.reports, ?_⟩
  · exact (List.mem_append.mp hj).elim (h.started j) fun hj => (hk j hj).1
  · have hnone : k.countP (Instr.isOf s.walkGeneration) = 0 :=
      List.countP_eq_zero.mpr fun j hj => Bool.eq_false_iff.mp (hk j hj).2
    rw [← h.one, workers, workers, List.countP_append, hnone, Nat.add_zero]

/-- An instruction that is no part of the walk under way is not counted. -/
theorem workers_cons {i : Instr S} (k : List (Instr S)) (hi : i.isOf s.walkGeneration = false) :
    workers s (i :: k) = workers s k := by
  rw [workers, workers, List.countP_cons_of_neg (Bool.eq_false_iff.mp hi)]

theorem Ordered.cons {i : Instr S} {k : List (Instr S)} (h : Ordered s k) (hi : i.isOf s.walkGeneration = false)
    (hstarted : i.Started s.walkGeneration) : Ordered s (i :: k) := by
  refine ⟨fun j hj => ?_, h.reports, (workers_cons k hi).trans h.one⟩
  exact (List.mem_cons.mp hj).elim (· ▸ hstarted) (h.started j)

theorem Ordered.of_cons {i : Instr S} {k : List (Instr S)} (h : Ordered s (i :: k))
    (hi : i.isOf s.walkGeneration = false) : Ordered s k :=
  ⟨fun j hj => h.started j (List.mem_cons_of_mem i hj), h.reports, (workers_cons k hi).symm.trans h.one⟩

/-- Where something works on the walk, nothing else does, and the preparation is under way. -/
theorem Ordered.only {i : Instr S} {k : List (Instr S)} (h : Ordered s (i :: k))
    (hworks : 0 < s.job.toList.length + [i].countP (Instr.isOf s.walkGeneration)) :
    underWay Event.ends s.trace = true ∧
      (∀ j ∈ k, j.Started s.walkGeneration ∧ j.isOf s.walkGeneration = false) ∧
        s.job.toList.length + [i].countP (Instr.isOf s.walkGeneration) = 1 := by
  have hworkers := h.one
  rw [workers, ← List.singleton_append, List.countP_append] at hworkers
  have hle := Bool.toNat_le (underWay Event.ends s.trace)
  have hnone : k.countP (Instr.isOf s.walkGeneration) = 0 := by omega
  refine ⟨Bool.toNat_eq_one.mp (by omega), fun j hj => ⟨h.started j (List.mem_cons_of_mem i hj), ?_⟩, by omega⟩
  exact Bool.eq_false_iff.mpr (List.countP_eq_zero.mp hnone j hj)

/-- What was started before the generation moved on is of no walk any more. -/
theorem Ordered.outdated {i : Instr S} {k : List (Instr S)} (h : Ordered s (i :: k)) :
    ∀ j ∈ k, j.Started (s.walkGeneration + 1) ∧ j.isOf (s.walkGeneration + 1) = false := fun j hj => by
  have hstarted := h.started j (List.mem_cons_of_mem i hj)
  exact ⟨hstarted.succ, Instr.isOf_succ hstarted⟩

theorem exec_ordered {i : Instr S} {k : List (Instr S)} (hcalm : Calm ⟨s, i :: k⟩ (.run reply))
    (h : Ordered s (i :: k)) : Ordered (exec r reply i s).1 ((exec r reply i s).2 ++ k) := by
  have hcancel : ∀ s' : State S, s'.trace = .cancelled :: s.trace → s'.walkGeneration = s.walkGeneration + 1 →
      s'.job = none → Ordered s' k := fun s' htrace hgen hjob => by
    have hnil : Ordered s' [] := by
      refine ⟨nofun, ?_, ?_⟩
      · rw [htrace]
        exact ⟨nofun, h.reports⟩
      · rw [workers, hjob, htrace]
        rfl
    exact hnil.append (hgen ▸ h.outdated)
  have hprepare : ∀ s' : State S, s'.trace = .prepared :: s.trace → s'.walkGeneration = s.walkGeneration + 1 →
      s'.job = none → Ordered (walk r reply s').1 ((walk r reply s').2 ++ k) := fun s' htrace hgen hjob => by
    obtain ⟨hwalk, hsame⟩ := (walk_emits r reply s').ordered hjob
      (htrace ▸ ⟨nofun, h.reports⟩) (htrace ▸ rfl)
    exact hwalk.append (by rw [hsame, hgen]; exact h.outdated)
  have hwalk : ∀ s' : State S, s'.trace = s.trace → s'.walkGeneration = s.walkGeneration → s'.job = s.job →
      i.isOf s.walkGeneration = true → Ordered (walk r reply s').1 ((walk r reply s').2 ++ k) :=
    fun s' htrace hgen hjob hi => by
      have hone : [i].countP (Instr.isOf s.walkGeneration) = 1 := List.countP_eq_length.mpr (by simpa using hi)
      obtain ⟨hunder, hk, hcount⟩ := h.only (by omega)
      have hnone : s.job = none := by
        rw [hone] at hcount
        exact Option.toList_eq_nil_iff.mp (List.length_eq_zero_iff.mp (by omega))
      obtain ⟨hwalk, hsame⟩ := (walk_emits r reply s').ordered (hjob.trans hnone)
        (htrace ▸ h.reports) (htrace ▸ hunder)
      exact hwalk.append (by rw [hsame, hgen]; exact hk)
  cases i with
  | begin | cancel => exact hcancel _ rfl rfl rfl
  | setReachability =>
    have hrest := h.of_cons rfl
    exact ⟨hrest.started, hrest.reports, hrest.one⟩
  | signal => exact h.of_cons rfl
  | prepare | prepareNext => exact hprepare _ rfl rfl hcalm
  | jobDone failure settings =>
    rw [exec]
    rcases hjob : s.job with _ | job
    · have hnone : jobDone reply failure settings s = (s, []) := by simp only [jobDone, hjob]
      rw [hnone]
      exact h.of_cons rfl
    · obtain ⟨hunder, hk, -⟩ := h.only (by rw [hjob]; exact Nat.zero_lt_succ _)
      obtain ⟨hdone, hsame⟩ := (jobDone_emits reply hjob failure settings).ordered rfl h.reports hunder
      exact hdone.append (by rw [hsame]; exact hk)
  | advance generation | rewalk generation =>
    rw [exec]
    split_ifs with hgen
    · exact h.of_cons (decide_eq_false hgen)
    · exact hwalk _ rfl rfl rfl (decide_eq_true (not_not.mp hgen))

/-- **Each preparation ends once**: where none is started while something is on the worker, the chain signals only while
a preparation is under way, so that nothing follows its `ready` or `exhausted`; and once nothing is left to run or to
wait for, the last one has ended or was cancelled. -/
theorem ends_once {c : Config (State S) (Instr S)} (hc : (machine r).Reachable Calm IsInitial c) :
    ReportsWhile Event.ends c.state.trace ∧
      (c.code = [] → c.state.job = none → underWay Event.ends c.state.trace = false) := by
  have hordered : Ordered c.state c.code := by
    refine hc.invariant (P := fun c => Ordered c.state c.code) ?_ ?_ ?_ ?_
    · rintro _ ⟨settings, rfl⟩
      exact ⟨nofun, trivial, rfl⟩
    · exact fun reply i k s hcalm h => exec_ordered hcalm h
    · intro i k s _ h _ hi
      cases i <;> first | exact h.cons rfl trivial | cases hi
    · intro i s _ h hi
      cases i <;> first | exact h.cons rfl trivial | cases hi
  refine ⟨hordered.reports, fun hcode hjob => ?_⟩
  have hworkers := hordered.one
  rw [workers, hcode, hjob] at hworkers
  exact Bool.toNat_eq_zero.mp hworkers.symm

/-- A refiner whose key was read on the worker is ready. -/
theorem ends_once_with_key : ∃ c,
    (machine (⟨fun _ => true, fun _ _ => false, fun unread _ => unread⟩ : Registry Bool)).play
      ⟨{ settings := true }, []⟩ [.enter (.begin "openai" []), .run {}, .enter (.prepare true), .run {}, .run {},
        .wake (.jobDone none false), .run {}, .run {}, .run {}, .run {}] = some c ∧
      ReportsWhile Event.ends c.state.trace ∧
      (c.code = [] → c.state.job = none → underWay Event.ends c.state.trace = false) := by
  refine (exists_congr fun c => and_iff_left_of_imp fun hplay => ?_).mpr ⟨_, rfl⟩
  exact ends_once ((Machine.Reachable.start ⟨true, rfl⟩).play (by decide) hplay)

end Speecher.RefinementChain
