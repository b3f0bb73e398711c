import Mathlib.Algebra.Ring.Nat
import Speecher.Providers.SpeechChain

/-!
# What a speech chain reports

A session reads three reports of its chain's walks: a provider was passed over, one is ready,
none is left. `Reports` says what it may rely on: nothing is reported of a preparation once it
was cancelled, each preparation ends in exactly one `ready` or `exhausted` report unless it was
cancelled, the walk only moves forward and passes no provider over twice.

The chain keeps this in every run in which its operations are called while no walk waits for a
handler or a provider (`Calm`). `walk` does not look whether a handler it called cancelled it, so
a `cancel` from inside a `passedOver` handler is followed by further reports
(`reports_after_cancel`); `RefinementChain` looks, through its walk generation.
-/

namespace Speecher.SpeechChain

variable {S : Type}

/-! ## Reading a trace -/

/-- The preparation a report is about. -/
def Event.reportOf : Event → Option Nat
  | .passedOver p .. | .ready p _ | .exhausted p _ => some p
  | .began | .prepared .. | .cancelled _ => none

/-- The preparation a report ends. -/
def Event.endOf : Event → Option Nat
  | .ready p _ | .exhausted p _ => some p
  | _ => none

/-- Where the chain was at an event. -/
def Event.index? : Event → Option Nat
  | .prepared _ i | .passedOver _ i .. | .ready _ i | .exhausted _ i => some i
  | .began | .cancelled _ => none

/-- No report follows the cancellation of its preparation. The trace is newest first. -/
def Quiet : List Event → Prop
  | [] => True
  | e :: es => (∀ p, e.reportOf = some p → .cancelled p ∉ es) ∧ Quiet es

/-- How many reports ended preparation `p`. -/
def ends (p : Nat) (es : List Event) : Nat := es.countP (fun e => e.endOf = some p)

/-- The first index the walk may still reach after a trace. -/
def floor : List Event → Nat
  | [] => 0
  | .began :: _ => 0
  | .passedOver _ i .. :: _ => i + 1
  | .prepared _ i :: _ => i
  | .ready _ i :: _ => i
  | .exhausted _ i :: _ => i
  | .cancelled _ :: es => floor es

/-- The chain never moves backwards, and leaves a provider it passed over behind. -/
def Forward : List Event → Prop
  | [] => True
  | e :: es => (∀ i, e.index? = some i → floor es ≤ i) ∧ Forward es

/-- The providers passed over since the last `begin`, with their indices, newest first. -/
def passed : List Event → List (Nat × String)
  | [] => []
  | .began :: _ => []
  | .passedOver _ i providerId _ _ :: es => (i, providerId) :: passed es
  | .prepared .. :: es | .cancelled _ :: es | .ready .. :: es | .exhausted .. :: es => passed es

/-- An instruction that belongs to a walk, a preparation or a renewal, or starts one. -/
def Instr.isWork : Instr S → Bool
  | .call _ | .setOptions _ | .setReachability _ => false
  | _ => true

/-- The work pending in a stack of code. -/
def work (code : List (Instr S)) : List (Instr S) := code.filter Instr.isWork

/-- A preparation's job is on the worker. -/
def State.preparing (s : State S) : Bool := (s.current.bind Job.preparation).isSome

/-- **What a session relies on** in a configuration of its chain. -/
structure Reports (c : Config (State S) (Instr S)) : Prop where
  /-- Nothing is reported of a cancelled preparation. -/
  quiet : Quiet c.state.trace
  /-- No preparation ends twice. -/
  once : ∀ p, ends p c.state.trace ≤ 1
  /-- Each one ends, unless it was cancelled, once nothing of it is pending. -/
  ended : ∀ p, 0 < p → p ≤ c.state.preparation → .cancelled p ∉ c.state.trace →
    work c.code = [] → c.state.preparing = false → ends p c.state.trace = 1
  forward : Forward c.state.trace
  /-- No provider is passed over twice. -/
  passedOnce : ((passed c.state.trace).map Prod.snd).Nodup

/-- The moves that keep the chain's operations out of its own walk: an operation that starts or
cancels one is called only while no walk, preparation or renewal waits for a handler or a
provider to return, and a sign-in is renewed only while no preparation runs. -/
def Calm (c : Config (State S) (Instr S)) : Move (Instr S) Reply → Prop
  | .enter .renewSignIn => work c.code = [] ∧ c.state.preparing = false
  | .enter i => i.isWork = true → work c.code = []
  | _ => True

instance (c : Config (State S) (Instr S)) (mv : Move (Instr S) Reply) : Decidable (Calm c mv) := by
  unfold Calm
  split <;> infer_instance

/-! ## The invariant -/

/-- The current preparation was neither cancelled nor ended yet. -/
@[mk_iff]
structure State.Open (s : State S) : Prop where
  pos : 0 < s.preparation
  live : .cancelled s.preparation ∉ s.trace
  endless : ends s.preparation s.trace = 0

/-- What the trace and the chain's fields agree on at every moment. -/
@[mk_iff]
structure Sound (s : State S) : Prop where
  quiet : Quiet s.trace
  once : ∀ p, ends p s.trace ≤ 1
  /-- Only the current preparation can still be open. -/
  closed : ∀ p, 0 < p → p < s.preparation → .cancelled p ∈ s.trace
  /-- Nothing is traced of a preparation still to come. -/
  numbered : ∀ p, s.preparation < p → .cancelled p ∉ s.trace ∧ ends p s.trace = 0
  forward : Forward s.trace
  passedBelow : ∀ x ∈ passed s.trace, x.1 < floor s.trace
  passedSorted : (passed s.trace).Pairwise fun x y => y.1 < x.1
  passedIds : ∀ x ∈ passed s.trace, s.providerIds[x.1]? = some x.2
  nodup : s.providerIds.Nodup

/-- The chain between its own code: an open preparation has its job on the worker, and no
other preparation has one. -/
@[mk_iff]
structure Rest (s : State S) : Prop where
  floor_le : floor s.trace ≤ s.index
  job : s.Open → s.renewing = false ∧ s.index < s.providerIds.length ∧
    s.current.bind Job.preparation = some s.preparation
  noJob : ¬s.Open → s.current.bind Job.preparation = none
  renewal : ∀ speechJob refinerJob, s.current = some (.speech none speechJob refinerJob) →
    s.renewing = true

/-- Preparation `p` is on the chain's own thread, at index `s.index` or just before it. -/
@[mk_iff]
structure Walking (s : State S) (p : Nat) : Prop where
  current : s.preparation = p
  isOpen : s.Open
  noJob : s.current = none
  noRenewal : s.renewing = false

/-- The walk of `p` is at provider `providerId`. -/
@[mk_iff]
structure Trying (s : State S) (p : Nat) (providerId : String) : Prop extends Walking s p where
  floor_le : floor s.trace ≤ s.index
  here : s.providerIds[s.index]? = some providerId

/-- A renewal is being started; no preparation is open. -/
@[mk_iff]
structure Renewing (s : State S) : Prop where
  floor_le : floor s.trace ≤ s.index
  closed : ¬s.Open
  noJob : s.current.bind Job.preparation = none

/-- The state a pending piece of work finds. -/
def Fits (s : State S) : Instr S → Prop
  | .walk p => Walking s p ∧ floor s.trace ≤ s.index
  | .advance p => Walking s p ∧ floor s.trace ≤ s.index + 1
  | .acquire p providerId | .streamsFinalText p providerId | .createPrepareJob p providerId
  | .requiresRefresh p providerId | .createRefreshJob p providerId _ _
  | .prepareHere p providerId _ _ | .prepareTranscriber p providerId _ => Trying s p providerId
  | .speechApplied (some p) _ _ | .finishPreparation (some p) _ => ∃ id, Trying s p id
  | .speechApplied none _ _ | .finishPreparation none _ =>
    floor s.trace ≤ s.index ∧ s.renewing = true ∧ ¬s.Open ∧ s.current = none
  | .renewalJob | .renewalPrepare | .startRenewal => Renewing s
  | .renewSignIn => Rest s ∧ ¬s.Open
  | _ => Rest s

/-- The work pending in a stack: none, or one piece that fits the state. -/
def FitsWork (s : State S) : List (Instr S) → Prop
  | [] => Rest s
  | [i] => Fits s i
  | _ => False

/-- The invariant of a chain's runs. -/
def Inv (c : Config (State S) (Instr S)) : Prop := Sound c.state ∧ FitsWork c.state (work c.code)

/-! ## What one event does to the trace -/

theorem ends_cons (p : Nat) (e : Event) (es : List Event) :
    ends p (e :: es) = ends p es + if e.endOf = some p then 1 else 0 := by
  simp [ends, List.countP_cons]

theorem ends_le_one_cons {p : Nat} {e : Event} {es : List Event} (h : ends p es ≤ 1)
    (he : e.endOf = some p → ends p es = 0) : ends p (e :: es) ≤ 1 := by
  rw [ends_cons]
  split
  · have := he ‹_›
    omega
  · omega

/-- A report of the open preparation, at the chain's index, keeps the trace sound. -/
theorem Sound.report {s : State S} (h : Sound s) (hs : s.Open) {e : Event}
    (hp : e.reportOf = some s.preparation) (hi : e.index? = some s.index)
    (hfloor : floor s.trace ≤ s.index)
    (hpass : ∀ p i id st f, e = .passedOver p i id st f → s.providerIds[i]? = some id) :
    Sound (s.log e) := by
  have hend : ∀ p, e.endOf = some p → p = s.preparation := by
    intro p hp'
    cases e <;> simp_all [Event.endOf, Event.reportOf]
  have hcancel : ∀ p, Event.cancelled p ≠ e := by
    rintro p rfl
    simp [Event.reportOf] at hp
  have hbelow : ∀ x ∈ passed (e :: s.trace), x.1 < floor (e :: s.trace) := by
    intro x hx
    cases e with
    | passedOver p i id st f =>
      simp only [Event.index?, Option.some.injEq] at hi
      simp only [passed, List.mem_cons] at hx
      simp only [floor]
      rcases hx with rfl | hx
      · omega
      · have := h.passedBelow x hx
        omega
    | ready p i | exhausted p i =>
      simp only [Event.index?, Option.some.injEq] at hi
      have := h.passedBelow x hx
      simp only [floor]
      omega
    | began | prepared | cancelled => simp [Event.reportOf] at hp
  constructor
  · exact ⟨fun p hp' => by rw [← Option.some.inj (hp.symm.trans hp')]; exact hs.live, h.quiet⟩
  · intro p
    refine ends_le_one_cons (h.once p) fun hp' => ?_
    rw [hend p hp']
    exact hs.endless
  · exact fun p h0 h1 => List.mem_cons_of_mem _ (h.closed p h0 h1)
  · intro p hp'
    obtain ⟨h1, h2⟩ := h.numbered p hp'
    refine ⟨by simp [State.log, h1, hcancel], ?_⟩
    simp only [State.log, ends_cons, h2]
    split
    · have := hend p ‹_›
      simp only [State.log] at hp'
      omega
    · rfl
  · exact ⟨fun i hi' => by rw [← Option.some.inj (hi.symm.trans hi')]; exact hfloor, h.forward⟩
  · exact hbelow
  · cases e with
    | passedOver p i id st f =>
      simp only [Event.index?, Option.some.injEq] at hi
      refine List.pairwise_cons.mpr ⟨fun x hx => ?_, h.passedSorted⟩
      have := h.passedBelow x hx
      simp only [hi]
      omega
    | ready | exhausted => exact h.passedSorted
    | began | prepared | cancelled => simp [Event.reportOf] at hp
  · intro x hx
    cases e with
    | passedOver p i id st f =>
      simp only [State.log, passed, List.mem_cons] at hx
      rcases hx with rfl | hx
      · exact hpass _ _ _ _ _ rfl
      · exact h.passedIds x hx
    | ready | exhausted => exact h.passedIds x hx
    | began | prepared | cancelled => simp [Event.reportOf] at hp
  · exact h.nodup

theorem floor_cancel (s : State S) : floor s.cancel.trace = floor s.trace := rfl

@[simp]
theorem cancel_preparation (s : State S) : s.cancel.preparation = s.preparation := rfl

/-- Nothing is open after a `cancel`. -/
theorem not_open_cancel (s : State S) : ¬s.cancel.Open :=
  fun h => h.live (by simp [State.cancel])

theorem Sound.cancel {s : State S} (h : Sound s) : Sound s.cancel := by
  constructor
  · exact ⟨fun p hp => by simp [Event.reportOf] at hp, h.quiet⟩
  · exact fun p => ends_le_one_cons (h.once p) fun hp => by simp [Event.endOf] at hp
  · exact fun p h0 h1 => List.mem_cons_of_mem _ (h.closed p h0 h1)
  · intro p hp
    obtain ⟨h1, h2⟩ := h.numbered p hp
    have : p ≠ s.preparation := by
      simp only [State.cancel] at hp
      omega
    simp [State.cancel, ends_cons, h1, h2, this, Event.endOf]
  · exact ⟨fun i hi => by simp [Event.index?] at hi, h.forward⟩
  · exact h.passedBelow
  · exact h.passedSorted
  · exact h.passedIds
  · exact h.nodup

theorem Rest.cancel {s : State S} (h : Rest s) : Rest s.cancel where
  floor_le := h.floor_le
  job hs := (not_open_cancel s hs).elim
  noJob _ := rfl
  renewal _ _ h := by simp [State.cancel] at h

/-- `providerChain` keeps each provider once. -/
theorem providerChain_nodup (r : Registry S) (primary : String) (fallbacks : List String) :
    (providerChain r primary fallbacks).Nodup := by
  unfold providerChain
  have keeps : ∀ (fallbacks chain : List String), chain.Nodup →
      (fallbacks.foldl (fun chain id =>
        if id ∉ chain ∧ r.isChainProviderId id then chain ++ [id] else chain) chain).Nodup := by
    intro fallbacks
    induction fallbacks with
    | nil => exact fun _ h => h
    | cons id fallbacks ih =>
      intro chain h
      rw [List.foldl_cons]
      refine ih _ ?_
      split
      · rename_i hid
        exact List.nodup_append.mpr ⟨h, by simp, by rintro a ha b hb rfl; simp_all⟩
      · exact h
  exact keeps fallbacks [primary] (by simp)

/-! ## What each piece of work keeps -/

/-- Code leaves a sound state and at most one piece of work, which fits it. -/
def Keeps (out : State S × List (Instr S)) : Prop := Sound out.1 ∧ FitsWork out.1 (work out.2)

variable {r : Registry S} {s : State S} {p : Nat} {providerId : String}

/-- An open preparation stays open under a report that does not end it. -/
theorem State.Open.log (h : s.Open) {e : Event} (hc : e ≠ .cancelled s.preparation)
    (he : e.endOf = none) : (s.log e).Open := by
  refine ⟨h.pos, ?_, ?_⟩
  · rintro hmem
    rcases List.mem_cons.mp hmem with heq | hmem
    · exact hc heq.symm
    · exact h.live hmem
  · change ends s.preparation (e :: s.trace) = 0
    simp [ends_cons, he, h.endless]

/-- The report that ends the walk leaves the chain at rest. -/
theorem Walking.rest (h : Walking s p) {e : Event} (he : e.endOf = some p)
    (hi : floor (e :: s.trace) ≤ s.index) : Rest (s.log e) := by
  have hends : ¬(s.log e).Open := by
    intro ho
    have := ho.endless
    change ends s.preparation (e :: s.trace) = 0 at this
    rw [ends_cons, h.current, if_pos he] at this
    omega
  refine ⟨hi, fun ho => (hends ho).elim, fun _ => ?_, fun _ _ hj => ?_⟩
  · simp [State.log, h.noJob]
  · simp [State.log, h.noJob] at hj

theorem Trying.passOver (hs : Sound s) (h : Trying s p providerId) (stage : Stage)
    (failure : ProviderFailure) : Keeps (passOver p providerId stage failure s) := by
  obtain rfl := h.current
  constructor
  · refine hs.report h.isOpen rfl rfl h.floor_le ?_
    rintro p i id st f ⟨⟩
    exact h.here
  · refine ⟨⟨rfl, ?_, h.noJob, h.noRenewal⟩, Nat.le_refl _⟩
    exact h.isOpen.log (by simp) rfl

theorem Trying.ready (hs : Sound s) (h : Trying s p providerId) :
    Keeps (s.log (.ready p s.index), [Instr.call .ready]) := by
  obtain rfl := h.current
  refine ⟨hs.report h.isOpen rfl rfl h.floor_le (by simp), ?_⟩
  exact h.toWalking.rest rfl (Nat.le_refl _)

/-- The sound parts of a state that only the worker's job or the session's wishes changed. -/
theorem Sound.congr {s' : State S} (h : Sound s) (ht : s'.trace = s.trace)
    (hp : s'.preparation = s.preparation) (hids : s'.providerIds = s.providerIds) : Sound s' := by
  rw [sound_iff] at h ⊢
  rwa [ht, hp, hids]

theorem Trying.toWorker (hs : Sound s) (h : Trying s p providerId) {job : Job}
    (hj : job.preparation = some p) : Keeps ({ s with current := some job }, ([] : List (Instr S))) := by
  obtain rfl := h.current
  refine ⟨hs.congr rfl rfl rfl, h.floor_le, fun _ => ⟨h.noRenewal, ?_, hj⟩, fun ho => ?_, ?_⟩
  · exact (List.getElem?_eq_some_iff.mp h.here).1
  · exact (ho ⟨h.isOpen.pos, h.isOpen.live, h.isOpen.endless⟩).elim
  · rintro _ _ ⟨⟩
    simp [Job.preparation] at hj

theorem Trying.startOrReady (hs : Sound s) (h : Trying s p providerId) (speechJob refinerJob : Bool) :
    Keeps (startOrReady p speechJob refinerJob s) := by
  unfold SpeechChain.startOrReady
  split
  · exact h.toWorker hs rfl
  · exact h.ready hs

theorem Trying.refinerJobNext (hs : Sound s) (h : Trying s p providerId) (speechJob refresh : Bool) :
    Keeps (refinerJobNext r p providerId speechJob refresh s) := by
  unfold SpeechChain.refinerJobNext
  split
  · exact ⟨hs, h⟩
  · split <;> exact ⟨hs, h⟩

theorem Trying.readSecrets (hs : Sound s) (h : Trying s p providerId) :
    Keeps (readSecrets r p providerId s) := by
  unfold SpeechChain.readSecrets
  split
  · exact h.toWorker hs rfl
  · exact ⟨hs, h⟩

theorem Walking.walk (hs : Sound s) (h : Walking s p) (hfloor : floor s.trace ≤ s.index) :
    Keeps (walk r p s) := by
  unfold SpeechChain.walk
  split
  · obtain rfl := h.current
    exact ⟨hs.report h.isOpen rfl rfl hfloor (by simp), h.rest rfl (Nat.le_refl _)⟩
  · rename_i providerId hid
    have here : Trying s p providerId := ⟨h, hfloor, hid⟩
    split
    · exact here.passOver hs _ _
    · split
      · exact here.passOver hs _ _
      · exact ⟨hs, here⟩

theorem Trying.finishPreparation (hs : Sound s) (h : Trying s p providerId)
    (failure : Option ProviderFailure) : Keeps (finishPreparation (some p) failure s) := by
  have hid : s.currentId = providerId := by
    simp [State.currentId, List.getD_eq_getElem?_getD, h.here]
  unfold SpeechChain.finishPreparation
  rw [if_neg (by simp [h.noRenewal])]
  cases failure with
  | some failure =>
    rw [hid]
    exact h.passOver hs _ _
  | none => exact h.ready hs

/-- A renewal's answer leaves the chain at rest: no preparation was open. -/
theorem finishPreparation_renewal (hs : Sound s) (hfloor : floor s.trace ≤ s.index)
    (hr : s.renewing = true) (ho : ¬s.Open) (hc : s.current = none)
    (failure : Option ProviderFailure) : Keeps (finishPreparation none failure s) := by
  unfold SpeechChain.finishPreparation
  rw [if_pos hr]
  refine ⟨hs.congr rfl rfl rfl, hfloor, fun h => (ho ⟨h.pos, h.live, h.endless⟩).elim, fun _ => ?_,
    fun _ _ hj => ?_⟩
  · simp [hc]
  · simp [hc] at hj

/-- The job on the worker of a chain at rest is the open preparation's. -/
theorem Rest.trying (h : Rest s) {job : Job} (hj : s.current = some job)
    (hp : job.preparation = some p) :
    ∃ providerId, Trying { s with current := none } p providerId := by
  have ho : s.Open := by
    by_contra ho
    have := h.noJob ho
    simp [hj, hp] at this
  obtain ⟨hr, hlt, hcur⟩ := h.job ho
  have hp' : s.preparation = p := by
    simp only [hj, Option.bind_some, hp, Option.some.injEq] at hcur
    exact hcur.symm
  exact ⟨s.providerIds[s.index], ⟨hp', ⟨ho.pos, ho.live, ho.endless⟩, rfl, hr⟩, h.floor_le,
    List.getElem?_eq_getElem hlt⟩

theorem Rest.jobDone (hs : Sound s) (h : Rest s) (failure : Option ProviderFailure) (settings : S) :
    Keeps (jobDone failure settings s) := by
  unfold SpeechChain.jobDone
  have hs' : Sound { s with current := none } := hs.congr rfl rfl rfl
  split
  · exact ⟨hs, h⟩
  · rename_i p hj
    obtain ⟨providerId, ht⟩ := h.trying hj rfl
    have hid : ({ s with current := none } : State S).currentId = providerId := by
      simp only [State.currentId, List.getD_eq_getElem?_getD]
      rw [ht.here]
      rfl
    cases failure with
    | some failure =>
      simp only [hid]
      exact ht.passOver hs' _ _
    | none => exact ⟨hs'.congr rfl rfl rfl, ⟨ht.current, ⟨ht.isOpen.pos, ht.isOpen.live,
        ht.isOpen.endless⟩, ht.noJob, ht.noRenewal⟩, ht.floor_le⟩
  · rename_i p speechJob refinerJob hj
    refine ⟨hs', ?_⟩
    cases p with
    | some p =>
      obtain ht := h.trying hj rfl
      cases speechJob <;> exact ht
    | none =>
      have ho : ¬s.Open := by
        intro ho
        have := (h.job ho).2.2
        simp [hj, Job.preparation] at this
      have hfit : floor s.trace ≤ s.index ∧ s.renewing = true ∧
          ¬({ s with current := none } : State S).Open ∧ (none : Option Job) = none :=
        ⟨h.floor_le, h.renewal _ _ hj, fun h' => ho ⟨h'.pos, h'.live, h'.endless⟩, rfl⟩
      cases speechJob <;> exact hfit

/-- `begin` forgets the walk so far; the cancelled preparation stays cancelled. -/
theorem Sound.begin (h : Sound s) (primary : String) (fallbacks : List String) :
    Keeps (({ s.cancel with
      providerIds := providerChain r primary fallbacks
      index := 0
      refinerRefreshed := false
      trace := .began :: s.cancel.trace }, []) : State S × List (Instr S)) := by
  have hc := h.cancel
  have ho : ¬({ s.cancel with
      providerIds := providerChain r primary fallbacks
      index := 0
      refinerRefreshed := false
      trace := .began :: s.cancel.trace } : State S).Open :=
    fun ho => ho.live (by simp [State.cancel])
  refine ⟨⟨⟨by simp [Event.reportOf], hc.quiet⟩, fun p => ?_, fun p h0 h1 => ?_, fun p hp => ?_,
    ⟨by simp [Event.index?], hc.forward⟩, by simp [passed], by simp [passed], by simp [passed],
    providerChain_nodup r primary fallbacks⟩,
    ⟨Nat.le_refl _, fun h => (ho h).elim, fun _ => rfl, fun _ _ hj => by simp [State.cancel] at hj⟩⟩
  · exact ends_le_one_cons (hc.once p) (by simp [Event.endOf])
  · exact List.mem_cons_of_mem _ (hc.closed p h0 h1)
  · obtain ⟨h1, h2⟩ := hc.numbered p hp
    exact ⟨by simp [h1], by simp [ends_cons, h2, Event.endOf]⟩

/-- A preparation starts open, wherever the walk stands. -/
theorem Sound.prepare (h : Sound s) (hfloor : floor s.trace ≤ s.index) (settings : S)
    (refiner : Bool) : Keeps (prepare settings refiner s) := by
  have hc := h.cancel
  obtain ⟨hlive, hends⟩ := hc.numbered (s.preparation + 1) (Nat.lt_succ_self _)
  refine ⟨⟨⟨by simp [Event.reportOf], hc.quiet⟩, fun p => ?_, fun p h0 h1 => ?_, fun p hp => ?_,
    ⟨?_, hc.forward⟩, fun x hx => ?_, hc.passedSorted, hc.passedIds, hc.nodup⟩,
    ⟨⟨rfl, ⟨Nat.succ_pos _, ?_, ?_⟩, rfl, rfl⟩, Nat.le_refl _⟩⟩
  · exact ends_le_one_cons (hc.once p) (by simp [Event.endOf])
  · refine List.mem_cons_of_mem _ ?_
    rcases Nat.lt_succ_iff_lt_or_eq.mp h1 with h1 | rfl
    · exact hc.closed p h0 h1
    · simp [State.cancel]
  · obtain ⟨h1, h2⟩ := hc.numbered p (Nat.lt_of_succ_lt hp)
    exact ⟨by simp [SpeechChain.prepare, h1], by simp [SpeechChain.prepare, ends_cons, h2, Event.endOf]⟩
  · rintro i ⟨⟩
    exact hfloor
  · exact Nat.lt_of_lt_of_le (hc.passedBelow x hx) hfloor
  · simpa [SpeechChain.prepare] using hlive
  · simpa [SpeechChain.prepare, ends_cons, Event.endOf] using hends

/-! ## Runs -/

/-- **One piece of work**: the instruction that is a chain's whole pending work leaves work that
fits again. -/
theorem Fits.exec (hs : Sound s) {i : Instr S} (h : Fits s i) (hi : i.isWork = true)
    (reply : Reply) : Keeps (exec r reply i s) := by
  cases i with
  | call | setOptions | setReachability => simp [Instr.isWork] at hi
  | begin primary fallbacks => exact hs.begin primary fallbacks
  | prepare settings refiner => exact hs.prepare h.floor_le settings refiner
  | prepareNext settings refiner =>
    refine Sound.prepare (s := { s with index := s.index + 1 }) (hs.congr rfl rfl rfl) ?_ settings refiner
    exact Nat.le_succ_of_le h.floor_le
  | cancel => exact ⟨hs.cancel, h.cancel⟩
  | renewSignIn =>
    exact ⟨hs, h.1.floor_le, h.2, h.1.noJob h.2⟩
  | jobDone failure settings => exact h.jobDone hs failure settings
  | walk p => exact h.1.walk hs h.2
  | advance p =>
    obtain ⟨h, hfloor⟩ := h
    exact ⟨hs.congr rfl rfl rfl, ⟨h.current, ⟨h.isOpen.pos, h.isOpen.live, h.isOpen.endless⟩,
      h.noJob, h.noRenewal⟩, hfloor⟩
  | acquire p providerId =>
    simp only [SpeechChain.exec]
    split
    · exact Trying.passOver hs h _ _
    · split
      · exact ⟨hs, h⟩
      · exact Trying.readSecrets hs h
  | streamsFinalText p providerId =>
    simp only [SpeechChain.exec]
    split
    · exact Trying.passOver hs h _ _
    · exact Trying.readSecrets hs h
  | createPrepareJob p providerId =>
    simp only [SpeechChain.exec]
    split
    · exact Trying.refinerJobNext hs h _ _
    · exact ⟨hs, h⟩
  | requiresRefresh p providerId => exact Trying.refinerJobNext hs h _ _
  | createRefreshJob p providerId speechJob speechRefreshRequired =>
    simp only [SpeechChain.exec]
    split <;> exact ⟨hs, h⟩
  | prepareHere p providerId speechJob refinerJob =>
    simp only [SpeechChain.exec]
    split
    · exact Trying.startOrReady hs h _ _
    · exact ⟨hs, h⟩
  | prepareTranscriber p providerId refinerJob =>
    simp only [SpeechChain.exec]
    split
    · exact Trying.passOver hs h _ _
    · exact Trying.startOrReady hs h _ _
  | speechApplied p failure renewed =>
    have hs' : Sound { s with refinerRefreshed := true } := hs.congr rfl rfl rfl
    cases p with
    | some p =>
      obtain ⟨providerId, h⟩ := h
      simp only [SpeechChain.exec]
      split
      · exact ⟨hs', providerId, ⟨h.current, ⟨h.isOpen.pos, h.isOpen.live, h.isOpen.endless⟩,
          h.noJob, h.noRenewal⟩, h.floor_le, h.here⟩
      · exact ⟨hs, providerId, h⟩
    | none =>
      obtain ⟨hfloor, hr, ho, hc⟩ := h
      simp only [SpeechChain.exec]
      split
      · exact ⟨hs', hfloor, hr, fun h => ho ⟨h.pos, h.live, h.endless⟩, hc⟩
      · exact ⟨hs, hfloor, hr, ho, hc⟩
  | finishPreparation p failure =>
    cases p with
    | some p =>
      obtain ⟨providerId, h⟩ := h
      exact h.finishPreparation hs failure
    | none =>
      obtain ⟨hfloor, hr, ho, hc⟩ := h
      exact finishPreparation_renewal hs hfloor hr ho hc failure
  | renewalJob =>
    simp only [SpeechChain.exec]
    split <;> exact ⟨hs, h⟩
  | renewalPrepare => exact ⟨hs, h⟩
  | startRenewal =>
    refine ⟨hs.congr rfl rfl rfl, h.floor_le, fun ho => ?_, fun _ => rfl, fun _ _ _ => rfl⟩
    exact (h.closed ⟨ho.pos, ho.live, ho.endless⟩).elim

/-- What a handler or a wish of the session runs beside the pending work leaves it as it fits. -/
theorem exec_beside (hs : Sound s) {i : Instr S} (hi : i.isWork = false) (reply : Reply)
    {code : List (Instr S)} (h : FitsWork s code) :
    Sound (exec r reply i s).1 ∧ (exec r reply i s).2 = [] ∧ FitsWork (exec r reply i s).1 code := by
  have keeps : ∀ s' : State S, s'.trace = s.trace → s'.preparation = s.preparation →
      s'.providerIds = s.providerIds → s'.index = s.index → s'.renewing = s.renewing →
      s'.current = s.current → FitsWork s' code := by
    intro s' ht hp hids hi hr hc
    have ho : s'.Open ↔ s.Open := by rw [State.open_iff, State.open_iff, ht, hp]
    have hrest : Rest s' ↔ Rest s := by rw [rest_iff, rest_iff, ho, ht, hp, hids, hi, hr, hc]
    have hwalk : ∀ p, Walking s' p ↔ Walking s p := fun p => by
      rw [walking_iff, walking_iff, ho, hp, hr, hc]
    have htry : ∀ p providerId, Trying s' p providerId ↔ Trying s p providerId := fun p id => by
      rw [trying_iff, trying_iff, hwalk, ht, hids, hi]
    have hrenew : Renewing s' ↔ Renewing s := by rw [renewing_iff, renewing_iff, ho, ht, hi, hc]
    match code, h with
    | [], h => exact hrest.mpr h
    | [j], h =>
      have hfits : Fits s' j ↔ Fits s j := by
        cases j with
        | speechApplied p | finishPreparation p =>
          cases p <;> simp only [Fits, htry, ht, hi, hr, hc, ho]
        | _ => simp only [Fits, hwalk, htry, hrenew, hrest, ho, ht, hi]
      exact hfits.mpr h
  cases i with
  | call => exact ⟨hs, rfl, h⟩
  | setOptions => exact ⟨hs.congr rfl rfl rfl, rfl, keeps _ rfl rfl rfl rfl rfl rfl⟩
  | setReachability => exact ⟨hs.congr rfl rfl rfl, rfl, keeps _ rfl rfl rfl rfl rfl rfl⟩
  | _ => simp [Instr.isWork] at hi

theorem work_cons (i : Instr S) (k : List (Instr S)) :
    work (i :: k) = if i.isWork then i :: work k else work k := by
  simp [work, List.filter_cons]

/-- Where the code's whole pending work is one instruction, nothing below it is work. -/
theorem FitsWork.cons {i : Instr S} {k : List (Instr S)} (h : FitsWork s (i :: k)) :
    k = [] ∧ Fits s i := by
  cases k with
  | nil => exact ⟨rfl, h⟩
  | cons => exact h.elim

theorem inv_run (reply : Reply) (i : Instr S) (k : List (Instr S)) (h : Inv ⟨s, i :: k⟩) :
    Inv ⟨(exec r reply i s).1, (exec r reply i s).2 ++ k⟩ := by
  obtain ⟨hs, hw⟩ := h
  simp only [work_cons] at hw
  cases hi : i.isWork with
  | false =>
    rw [hi] at hw
    obtain ⟨hs', hcode, hw'⟩ := exec_beside hs hi reply hw
    rw [hcode]
    exact ⟨hs', hw'⟩
  | true =>
    rw [hi] at hw
    obtain ⟨hk, hfit⟩ := hw.cons
    obtain ⟨hs', hw'⟩ := hfit.exec (r := r) hs hi reply
    refine ⟨hs', ?_⟩
    have : work ((exec r reply i s).2 ++ k) = work (exec r reply i s).2 ++ work k :=
      List.filter_append ..
    rwa [this, hk, List.append_nil]

theorem Rest.not_open (h : Rest s) (hp : s.preparing = false) : ¬s.Open := by
  intro ho
  have := (h.job ho).2.2
  simp [State.preparing, this] at hp

theorem inv_enter (i : Instr S) (k : List (Instr S)) (hok : Calm ⟨s, k⟩ (.enter i))
    (hi : i.isOperation = true) (h : Inv ⟨s, k⟩) : Inv ⟨s, i :: k⟩ := by
  obtain ⟨hs, hw⟩ := h
  refine ⟨hs, ?_⟩
  rw [work_cons]
  cases i with
  | setOptions | setReachability => simpa [Instr.isWork] using hw
  | begin | prepare | prepareNext | cancel =>
    have hk : work k = [] := hok rfl
    simp only [hk] at hw ⊢
    exact hw
  | renewSignIn =>
    obtain ⟨hk, hp⟩ := hok
    simp only at hk hp
    simp only [hk] at hw ⊢
    exact ⟨hw, Rest.not_open hw hp⟩
  | _ => simp [Instr.isOperation] at hi

/-- **The invariant of the chain**, in every configuration of a calm run. -/
theorem inv_of_reachable (r : Registry S) {c : Config (State S) (Instr S)}
    (h : (machine r).Reachable Calm IsInitial c) : Inv c := by
  refine h.invariant (fun s hs => ?_) (fun reply i k s _ h => inv_run reply i k h)
    (fun i k s hok h _ hi => inv_enter i k hok hi h) (fun i s _ h hi => ?_)
  · obtain ⟨settings, rfl⟩ := hs
    refine ⟨⟨trivial, fun p => Nat.zero_le _, fun p _ h => absurd h (Nat.not_lt_zero p),
      fun p _ => ⟨List.not_mem_nil, rfl⟩, trivial, by simp [passed], by simp [passed], by simp [passed],
      List.nodup_nil⟩, ⟨Nat.zero_le _, fun h => absurd h.pos (Nat.lt_irrefl 0), fun _ => rfl, ?_⟩⟩
    rintro _ _ ⟨⟩
  · cases i with
    | jobDone failure settings => exact h
    | _ => simp [machine] at hi

/-- The providers passed over are distinct when their indices descend. -/
theorem Sound.passedOnce (h : Sound s) : ((passed s.trace).map Prod.snd).Nodup := by
  rw [List.Nodup, List.pairwise_map]
  refine h.passedSorted.imp_of_mem fun {x y} hx hy hlt heq => ?_
  have hx' := h.passedIds x hx
  have hy' := h.passedIds y hy
  rw [heq, ← hy'] at hx'
  have hlt' : x.1 < s.providerIds.length := (List.getElem?_eq_some_iff.mp (h.passedIds x hx)).1
  have := (List.getElem?_inj hlt' h.nodup).mp hx'
  omega

/-! ## A walk ends -/

/-- The providers a walk has left, its own included. -/
def State.left (s : State S) : ℕ := s.providerIds.length - s.index

/-- How many instructions a piece of code may still run, its calls included. A walk's iteration
takes fewer than twenty. -/
def weight (s : State S) : Instr S → ℕ
  | .jobDone .. => 20 * s.left + 6
  | .prepare .. | .prepareNext .. | .speechApplied .. => 20 * s.left + 4
  | .walk _ => 20 * s.left + 3
  | .finishPreparation .. | .acquire .. => 20 * s.left + 2
  | .streamsFinalText .. => 20 * s.left + 1
  | .createPrepareJob .. => 20 * s.left
  | .requiresRefresh .. => 20 * s.left - 1
  | .createRefreshJob .. => 20 * s.left - 2
  | .prepareHere .. => 20 * s.left - 4
  | .prepareTranscriber .. => 20 * s.left - 5
  | .advance _ => 20 * (s.left - 1) + 4
  | .renewSignIn => 4
  | .renewalJob => 3
  | .renewalPrepare => 2
  | .startRenewal | .call _ | .setOptions _ | .setReachability _ | .begin .. | .cancel => 1

/-- How many instructions a configuration may still run by itself. -/
def rank (c : Config (State S) (Instr S)) : ℕ := (c.code.map (weight c.state)).sum

theorem Trying.left_pos (h : Trying s p providerId) : 0 < s.left :=
  Nat.sub_pos_of_lt (List.getElem?_eq_some_iff.mp h.here).1

theorem weight_beside {i : Instr S} (hi : i.isWork = false) (s : State S) : weight s i = 1 := by
  cases i with
  | call | setOptions | setReachability => rfl
  | _ => simp [Instr.isWork] at hi

/-- What code leaves to run. -/
def cost (out : State S × List (Instr S)) : ℕ := (out.2.map (weight out.1)).sum

theorem cost_passOver (stage : Stage) (failure : ProviderFailure) :
    cost (passOver p providerId stage failure s) = 20 * (s.left - 1) + 5 := by
  simp only [cost, passOver, State.log, List.map_cons, List.map_nil, List.sum_cons, List.sum_nil, weight,
    State.left]
  omega

theorem cost_startOrReady (speechJob refinerJob : Bool) :
    cost (startOrReady p speechJob refinerJob s) ≤ 1 := by
  unfold startOrReady
  split <;> simp [cost, weight]

theorem cost_refinerJobNext (r : Registry S) (p : Nat) (providerId : String) (h : 0 < s.left)
    (speechJob refresh : Bool) :
    cost (refinerJobNext r p providerId speechJob refresh s) ≤ 20 * s.left - 2 := by
  unfold refinerJobNext
  split
  · simp [cost, weight]
  · split <;> simp only [cost, weight, List.map_cons, List.map_nil, List.sum_cons, List.sum_nil] <;> omega

theorem cost_readSecrets (r : Registry S) (p : Nat) (providerId : String) (s : State S) :
    cost (readSecrets r p providerId s) ≤ 20 * s.left := by
  unfold readSecrets
  split <;> simp [cost, weight]

/-- A walk's instruction leaves less to run than it took itself. -/
theorem cost_exec {i : Instr S} (h : Fits s i) (hi : i.isWork = true) (reply : Reply) :
    cost (exec r reply i s) < weight s i := by
  cases i with
  | call | setOptions | setReachability => simp [Instr.isWork] at hi
  | begin | cancel => simp [SpeechChain.exec, cost, weight]
  | prepare | prepareNext =>
    simp only [SpeechChain.exec, SpeechChain.prepare, cost, weight, State.left, State.cancel,
      List.map_cons, List.map_nil, List.sum_cons, List.sum_nil]
    omega
  | renewSignIn => simp [SpeechChain.exec, cost, weight]
  | jobDone failure settings =>
    simp only [SpeechChain.exec, SpeechChain.jobDone, weight]
    split
    · simp [cost]
    · split
      · rw [cost_passOver]
        simp only [State.left]
        omega
      · simp only [cost, weight, State.left, List.map_cons, List.map_nil, List.sum_cons, List.sum_nil]
        omega
    · rename_i speechJob _ _
      cases speechJob <;> simp [cost, weight, State.left]
      omega
  | walk p =>
    simp only [SpeechChain.exec, SpeechChain.walk, weight]
    split
    · simp [cost, weight]
    · split
      · rw [cost_passOver]
        have := Trying.left_pos ⟨h.1, h.2, ‹_›⟩
        omega
      · split
        · rw [cost_passOver]
          have := Trying.left_pos ⟨h.1, h.2, ‹_›⟩
          omega
        · simp [cost, weight]
  | advance p =>
    simp only [SpeechChain.exec, cost, weight, State.left, List.map_cons, List.map_nil, List.sum_cons,
      List.sum_nil]
    omega
  | acquire p providerId =>
    have := Trying.left_pos h
    simp only [SpeechChain.exec, weight]
    split
    · rw [cost_passOver]
      omega
    · split
      · simp [cost, weight]
      · have := cost_readSecrets r p providerId s
        omega
  | streamsFinalText p providerId =>
    have := Trying.left_pos h
    simp only [SpeechChain.exec, weight]
    split
    · rw [cost_passOver]
      omega
    · have := cost_readSecrets r p providerId s
      omega
  | createPrepareJob p providerId =>
    have := Trying.left_pos h
    simp only [SpeechChain.exec, weight]
    split
    · have := cost_refinerJobNext r p providerId this true
        reply.showRefreshIndicator
      omega
    · simp only [cost, weight, List.map_cons, List.map_nil, List.sum_cons, List.sum_nil]
      omega
  | requiresRefresh p providerId =>
    have := Trying.left_pos h
    have := cost_refinerJobNext r p providerId this false reply.yes
    simp only [SpeechChain.exec, weight]
    omega
  | createRefreshJob p providerId speechJob speechRefreshRequired =>
    have := Trying.left_pos h
    simp only [SpeechChain.exec, weight]
    split <;> simp only [cost, weight, List.map_cons, List.map_nil, List.sum_cons, List.sum_nil] <;> omega
  | prepareHere p providerId speechJob refinerJob =>
    have := Trying.left_pos h
    simp only [SpeechChain.exec, weight]
    split
    · have := cost_startOrReady (s := s) (p := p) speechJob refinerJob
      omega
    · simp only [cost, weight, List.map_cons, List.map_nil, List.sum_cons, List.sum_nil]
      omega
  | prepareTranscriber p providerId refinerJob =>
    have := Trying.left_pos h
    simp only [SpeechChain.exec, weight]
    split
    · rw [cost_passOver]
      omega
    · have := cost_startOrReady (s := s) (p := p) false refinerJob
      omega
  | speechApplied p failure renewed =>
    simp only [SpeechChain.exec, weight]
    split <;> simp [cost, weight, State.left]
    omega
  | finishPreparation p failure =>
    simp only [SpeechChain.exec, SpeechChain.finishPreparation, weight]
    split
    · simp [cost, weight]
    · split
      · rw [cost_passOver]
        cases p with
        | some p =>
          obtain ⟨providerId, h⟩ := h
          have := h.left_pos
          omega
        | none => exact absurd h.2.1 ‹_›
      · simp [cost, weight]
  | renewalJob =>
    simp only [SpeechChain.exec, weight]
    split <;> simp [cost, weight]
  | renewalPrepare | startRenewal => simp [SpeechChain.exec, cost, weight]

theorem rank_beside {k : List (Instr S)} (hk : work k = []) (s' : State S) : rank ⟨s', k⟩ = k.length := by
  induction k with
  | nil => rfl
  | cons i k ih =>
    rw [work_cons] at hk
    split at hk
    · cases hk
    · rename_i hi
      have hw := weight_beside (by simpa using hi) s'
      have := ih hk
      simp only [rank, List.map_cons, List.sum_cons, List.length_cons] at this ⊢
      omega

/-- **Own code ends**: every instruction leaves less to run. -/
theorem rank_run (reply : Reply) (i : Instr S) (k : List (Instr S)) (h : Inv ⟨s, i :: k⟩) :
    rank ⟨(exec r reply i s).1, (exec r reply i s).2 ++ k⟩ < rank ⟨s, i :: k⟩ := by
  obtain ⟨hs, hw⟩ := h
  simp only [work_cons] at hw
  have happ : rank ⟨(exec r reply i s).1, (exec r reply i s).2 ++ k⟩ =
      cost (exec r reply i s) + rank ⟨(exec r reply i s).1, k⟩ := by
    simp [rank, cost]
  have hcons : rank ⟨s, i :: k⟩ = weight s i + rank ⟨s, k⟩ := by
    simp [rank]
  rw [happ, hcons]
  cases hi : i.isWork with
  | true =>
    rw [hi] at hw
    obtain ⟨hk, hfit⟩ := hw.cons
    have := cost_exec (r := r) hfit hi reply
    rw [rank_beside hk, rank_beside hk]
    omega
  | false =>
    -- Nothing a handler or a wish runs beside the walk moves the walk's index.
    have hleft : ∀ j : Instr S, weight (exec r reply i s).1 j = weight s j := by
      cases i with
      | call | setOptions | setReachability =>
        intro j
        cases j <;> rfl
      | _ => simp [Instr.isWork] at hi
    have hrank : rank ⟨(exec r reply i s).1, k⟩ = rank ⟨s, k⟩ := by
      simp only [rank, funext hleft]
    have hcost : cost (exec r reply i s) = 0 := by
      cases i with
      | call | setOptions | setReachability => rfl
      | _ => simp [Instr.isWork] at hi
    rw [hrank, hcost, weight_beside hi]
    omega

/-- **A session can rely on its chain's reports**, in every run whose operations keep out of the
chain's own walks, and waits for them no longer than the walk's own code takes. -/
theorem reports_of_calm (r : Registry S) {c : Config (State S) (Instr S)}
    (h : (machine r).Reachable Calm IsInitial c) :
    Reports c ∧ ∀ (replies : List Reply) (c' : Config (State S) (Instr S)),
      (machine r).play c (replies.map .run) = some c' → replies.length ≤ rank c := by
  have hinv := inv_of_reachable r h
  have ⟨hs, hw⟩ := hinv
  refine ⟨⟨hs.quiet, hs.once, fun p h0 hp hlive hwork hprep => ?_, hs.forward, hs.passedOnce⟩,
    fun replies c' hplay => ?_⟩
  · have hcur : p = c.state.preparation := by
      by_contra hne
      exact hlive (hs.closed p h0 (by omega))
    rw [hwork] at hw
    have hopen := Rest.not_open hw hprep
    have hends : ends p c.state.trace ≠ 0 := fun he =>
      hopen ⟨by omega, by rwa [← hcur], by rwa [← hcur]⟩
    have := hs.once p
    omega
  · exact Machine.runs_length_le (fun reply i k s h => inv_run reply i k h)
      (fun reply i k s h => rank_run reply i k h) hinv replies hplay

/-! ## A cancelled walk goes on -/

/-- Providers that all need the internet. -/
def onlineOnly : Registry Unit where
  listensForSpokenLanguage _ _ := true
  spokenLanguageProblem _ _ := ""
  needsInternet _ _ := true
  refinerNeedsInternet _ := true
  hasUnreadProviderSecrets _ _ := false
  isChainProviderId _ := true
  speechProviderLabel providerId := providerId

/-- Two such providers, offline, in a session that cancels when the first is passed over. -/
def cancelInPassedOver : List (Move (Instr Unit) Reply) :=
  [.enter (.begin "a" ["b"]), .run {}, .enter (.setReachability true), .run {},
   .enter (.prepare () false), .run {}, .run {},
   .enter .cancel, .run {},
   .run {}, .run {}, .run {}, .run {}, .run {}, .run {}]

/-- The second provider is reported, and the end of the walk, after the cancellation. -/
theorem play_cancelInPassedOver :
    ((machine onlineOnly).play ⟨{ settings := () }, []⟩ cancelInPassedOver).map (·.state.trace) =
      some [.exhausted 1 2, .passedOver 1 1 "b" .prepare noInternetFailure, .cancelled 1,
        .passedOver 1 0 "a" .prepare noInternetFailure, .prepared 1 0, .cancelled 0, .began,
        .cancelled 0] := by
  decide

/-- **Reports follow a cancellation** made from inside the chain's own report. -/
theorem reports_after_cancel :
    ¬∀ c, (machine onlineOnly).Reachable (fun _ _ => True) IsInitial c → Reports c := by
  intro h
  obtain ⟨c, hplay, htrace⟩ := Option.map_eq_some_iff.mp play_cancelInPassedOver
  have hquiet := (h c (Machine.reachable_of_play ⟨(), rfl⟩ hplay)).quiet
  rw [htrace] at hquiet
  exact hquiet.1 1 rfl (by decide)

/-- A session of the same providers that cancels and prepares again between two walks. -/
def cancelBetween : List (Move (Instr Unit) Reply) :=
  [.enter (.begin "a" ["b"]), .run {}, .enter (.prepare () false), .run {}, .run {},
   .run ⟨true, false, none⟩, .run ⟨true, false, none⟩, .run {},
   .enter .cancel, .run {}, .enter (.setReachability true), .run {}, .enter (.prepareNext () false),
   .run {}, .run {}, .run {}, .run {}, .run {}]

/-- Its chain's reports can be relied on. -/
theorem reports_cancelBetween :
    ∃ c, (machine onlineOnly).play ⟨{ settings := () }, []⟩ cancelBetween = some c ∧ Reports c := by
  have hplay : ((machine onlineOnly).play ⟨{ settings := () }, []⟩ cancelBetween).isSome := by
    decide
  have hok : (machine onlineOnly).PlaysOk Calm ⟨{ settings := () }, []⟩ cancelBetween := by
    decide
  obtain ⟨c, hc⟩ := Option.isSome_iff_exists.mp hplay
  exact ⟨c, hc, (reports_of_calm onlineOnly ((Machine.Reachable.start ⟨(), rfl⟩).play hok hc)).1⟩

end Speecher.SpeechChain
