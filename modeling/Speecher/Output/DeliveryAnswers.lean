import Mathlib.Algebra.Ring.Nat
import Mathlib.Data.List.Range
import Speecher.Output.TextDelivery

/-!
# Every delivery is answered once and in order

`Answers` says what a caller of `TextDelivery` may rely on at every moment of every run: deliveries
are started and answered in the order they were asked for, each at most once, the next only once
the one before was answered, and nothing is answered once the delivery is gone. No delivery is
forgotten either (`answered_of_quiet`): left to itself and to the event loop, with its deadline,
the delivery comes to rest within a bound (`length_le_rank`), and there everything asked was
answered, whatever the helpers answered or not.
-/

namespace Speecher.TextDelivery

/-! ## Reading a trace -/

def Event.asked? : Event → Option Nat
  | .asked id => some id
  | _ => none

def Event.started? : Event → Option Nat
  | .started id => some id
  | _ => none

def Event.answered? : Event → Option Nat
  | .answered request _ => some request.id
  | _ => none

/-- The numbers of the events a reading picks out, oldest first. -/
def numbers (f : Event → Option Nat) (es : List Event) : List Nat := es.reverse.filterMap f

/-- Nothing is answered once the delivery was destroyed. The trace is newest first. -/
def Silent : List Event → Prop
  | [] => True
  | e :: es => (e.answered? ≠ none → .stopped ∉ es) ∧ Silent es

/-- **What a caller relies on**: `numbers` of each kind count up from 1 without a gap, and no
delivery starts before the one before it was answered. -/
structure Answers (s : State) : Prop where
  asked : numbers Event.asked? s.trace = List.range' 1 s.asked
  started : numbers Event.started? s.trace =
    List.range' 1 (numbers Event.started? s.trace).length
  answered : numbers Event.answered? s.trace =
    List.range' 1 (numbers Event.answered? s.trace).length
  answered_le : (numbers Event.answered? s.trace).length ≤ (numbers Event.started? s.trace).length
  started_le : (numbers Event.started? s.trace).length ≤
    (numbers Event.answered? s.trace).length + 1
  started_le_asked : (numbers Event.started? s.trace).length ≤ s.asked
  silent : Silent s.trace

/-- An event that neither asks, starts, answers nor stops. -/
def Event.isInert : Event → Bool
  | .focusFound _ | .wrote _ | .keysRequested _ | .keysCleared _ => true
  | _ => false

theorem numbers_cons (f : Event → Option Nat) (e : Event) (es : List Event) :
    numbers f (e :: es) = numbers f es ++ (f e).toList := by
  cases h : f e <;> simp [numbers, h]

theorem numbers_inert {f : Event → Option Nat} (hf : ∀ e : Event, e.isInert = true → f e = none)
    {es : List Event} (hes : ∀ e ∈ es, e.isInert = true) (rest : List Event) :
    numbers f (es ++ rest) = numbers f rest := by
  induction es with
  | nil => rfl
  | cons e es ih =>
    rw [List.cons_append, numbers_cons, hf e (hes e (by simp)), Option.toList_none, List.append_nil]
    exact ih fun e he => hes e (by simp [he])

theorem asked?_inert (e : Event) (h : e.isInert = true) : e.asked? = none := by
  cases e <;> simp_all [Event.isInert, Event.asked?]

theorem started?_inert (e : Event) (h : e.isInert = true) : e.started? = none := by
  cases e <;> simp_all [Event.isInert, Event.started?]

theorem answered?_inert (e : Event) (h : e.isInert = true) : e.answered? = none := by
  cases e <;> simp_all [Event.isInert, Event.answered?]

theorem silent_inert {es : List Event} (hes : ∀ e ∈ es, e.isInert = true) {rest : List Event}
    (h : Silent rest) : Silent (es ++ rest) := by
  induction es with
  | nil => exact h
  | cons e es ih =>
    refine ⟨fun he => absurd (answered?_inert e (hes e (by simp))) he, ?_⟩
    exact ih fun e he => hes e (by simp [he])

theorem stopped_inert {es : List Event} (hes : ∀ e ∈ es, e.isInert = true) {rest : List Event} :
    .stopped ∈ es ++ rest ↔ .stopped ∈ rest := by
  simp only [List.mem_append, or_iff_right_iff_imp]
  intro h
  have := hes _ h
  simp [Event.isInert] at this

/-! ## What a step of a run can do -/

/-- What an instruction may still run. -/
def weight : Instr → ℕ
  | .startNext | .deadline | .deleteRun => 0
  | .call | .endFrame | .destroy => 1
  | .preparePaste .. => 3
  | .backendFactory index => 2 + (3 - index)
  | .insertText => 6
  | .canInsertText => 7
  | .deliver .. | .answered .. | .gate .. => 12

def cost (code : List Instr) : ℕ := (code.map weight).sum

/-- The frames code is still to leave. -/
def frames (code : List Instr) : ℕ := code.count .endFrame

/-- The instructions a delivery is entered by. -/
def Instr.isEntry : Instr → Bool
  | .deliver .. | .startNext | .deadline | .destroy | .deleteRun | .answered .. | .gate .. => true
  | _ => false

/-- A run before and after a step that leaves `code`, and took in and did `es`. -/
structure Goes (r r' : Run) (es : List Event) (code : List Instr) (n : ℕ) : Prop where
  inert : ∀ e ∈ es, e.isInert = true
  request : r'.request = r.request
  armed : r'.armed = r.armed
  frames : r'.frames = r.frames + frames code
  methods : r.methods.length ≤ 3 → r'.methods.length ≤ 3
  cost : cost code ≤ n
  noEntry : ∀ i ∈ code, i.isEntry = false

/-- **All that a step of run `r` can do**: the run goes on waiting, or it answers. `n` bounds what
the step leaves to run. -/
inductive Leaves (r : Run) (s : State) (n : ℕ) : Out → Prop
  | waits {r' : Run} {es : List Event} {code : List Instr} (goes : Goes r r' es code n)
      (running : r'.running = r.running) (deleting : r'.deleting = r.deleting) :
      Leaves r s n ({ s with run := some r', trace := es ++ s.trace }, code)
  | answers {r' : Run} {es : List Event} {code : List Instr} (goes : Goes r r' es code n)
      (was : r.running = true) (running : r'.running = false)
      (deleting : r'.frames = 0 → r'.deleting = true) (result : DeliveryResult) :
      Leaves r s n ({ s with
        run := some r'
        requests := s.requests.tail
        trace := .answered r.request result :: (es ++ s.trace) }, code)

variable {env : Environment} {r : Run} {s : State} {n : ℕ}

theorem Goes.mono {r' : Run} {es : List Event} {code : List Instr} {m : ℕ} (h : Goes r r' es code n)
    (hm : n ≤ m) : Goes r r' es code m :=
  ⟨h.inert, h.request, h.armed, h.frames, h.methods, h.cost.trans hm, h.noEntry⟩

theorem Leaves.mono {out : Out} {m : ℕ} (h : Leaves r s n out) (hm : n ≤ m) : Leaves r s m out := by
  cases h with
  | waits goes hr hd => exact .waits (goes.mono hm) hr hd
  | answers goes hw hr hd result => exact .answers (goes.mono hm) hw hr hd result

theorem Leaves.cost {out : Out} (h : Leaves r s n out) : cost out.2 ≤ n := by
  cases h with
  | waits g | answers g => exact g.cost

theorem Leaves.noEntry {out : Out} (h : Leaves r s n out) : ∀ i ∈ out.2, i.isEntry = false := by
  cases h with
  | waits g | answers g => exact g.noEntry

/-- The run stays as it was and code is left. -/
theorem leaves_code (hs : s.run = some r) (code : List Instr) (hc : cost code ≤ n)
    (hf : frames code = 0) (he : ∀ i ∈ code, i.isEntry = false) : Leaves r s n (s, code) := by
  have : s = { s with run := some r, trace := [] ++ s.trace } := by
    cases s
    simp_all
  rw [this]
  exact .waits ⟨by simp, rfl, rfl, by simp [hf], id, hc, he⟩ rfl rfl

theorem goes_call {r' : Run} (hreq : r'.request = r.request) (harm : r'.armed = r.armed)
    (hfr : r'.frames = r.frames) (hm : r.methods.length ≤ 3 → r'.methods.length ≤ 3) :
    Goes r r' [] [.call] 1 :=
  ⟨by simp, hreq, harm, hfr, hm, by simp [cost, weight], by simp [Instr.isEntry]⟩

theorem leaves_await (callback : Callback) : Leaves r s 1 (await callback r s) :=
  @Leaves.waits r s 1 { r with pending := callback :: r.pending } [] [.call]
    (goes_call rfl rfl rfl id) rfl rfl

theorem leaves_finish (hs : s.run = some r) (result : DeliveryResult) :
    Leaves r s 1 (finish result r s) := by
  unfold finish
  split
  · rename_i hr
    refine @Leaves.answers r s 1 { r with running := false, deleting := r.deleting || r.frames = 0 }
      [] [.call] (goes_call rfl rfl rfl id) hr rfl (fun h => ?_) result
    simp only at h
    simp [h]
  · exact leaves_code hs _ (by simp [cost]) rfl (by simp)

/-- A step from a run whose own fields changed, and from a trace with more in it. -/
theorem Leaves.from {r₁ : Run} {es : List Event} {out : Out}
    (h : Leaves r₁ { s with run := some r₁, trace := es ++ s.trace } n out)
    (hes : ∀ e ∈ es, e.isInert = true) (hreq : r₁.request = r.request) (harm : r₁.armed = r.armed)
    (hfr : r₁.frames = r.frames) (hm : r.methods.length ≤ 3 → r₁.methods.length ≤ 3)
    (hrun : r₁.running = r.running) (hdel : r₁.deleting = r.deleting) : Leaves r s n out := by
  have goes : ∀ {r' : Run} {es' : List Event} {code : List Instr}, Goes r₁ r' es' code n →
      Goes r r' (es' ++ es) code n := fun g =>
    ⟨fun e he => (List.mem_append.mp he).elim (g.inert e) (hes e), g.request.trans hreq,
      g.armed.trans harm, by rw [g.frames, hfr], fun h => g.methods (hm h), g.cost, g.noEntry⟩
  cases h with
  | waits g hr hd =>
    simp only [← List.append_assoc]
    exact .waits (goes g) (hr.trans hrun) (hd.trans hdel)
  | answers g hw hr hd result =>
    simp only [← List.append_assoc, hreq]
    exact .answers (goes g) (hrun ▸ hw) hr hd result

/-- What a step leaves does not depend on the run its state held before. -/
theorem Leaves.ofPut {run : Option Run} {out : Out} (h : Leaves r s n out) :
    Leaves r { s with run := run } n out := by
  cases h with
  | waits g hr hd => exact @Leaves.waits r { s with run := run } n _ _ _ g hr hd
  | answers g hw hr hd result => exact @Leaves.answers r { s with run := run } n _ _ _ g hw hr hd result

/-- A step from a run whose own fields changed. -/
theorem Leaves.put {r₁ : Run} {out : Out} (h : Leaves r₁ (s.put r₁) n out)
    (hreq : r₁.request = r.request) (harm : r₁.armed = r.armed) (hfr : r₁.frames = r.frames)
    (hm : r.methods.length ≤ 3 → r₁.methods.length ≤ 3)
    (hrun : r₁.running = r.running) (hdel : r₁.deleting = r.deleting) : Leaves r s n out :=
  @Leaves.from r s n r₁ [] out h (by simp) hreq harm hfr hm hrun hdel

/-- A step of the same run from a trace with one event more. -/
theorem Leaves.log (hs : s.run = some r) {e : Event} {out : Out} (h : Leaves r (s.log e) n out)
    (he : e.isInert = true) : Leaves r s n out := by
  have hlog : s.log e = { s with run := some r, trace := [e] ++ s.trace } := by
    cases s
    simp_all [State.log]
  rw [hlog] at h
  exact h.from (by simpa using he) rfl rfl rfl id rfl rfl

/-- A step in a frame of its own. -/
theorem leaves_framed {out : Out} (h : Leaves { r with frames := r.frames + 1 } s n out) :
    Leaves r s (n + 1) (out.1, out.2 ++ [.endFrame]) := by
  have goes : ∀ {r' : Run} {es : List Event} {code : List Instr},
      Goes { r with frames := r.frames + 1 } r' es code n →
      Goes r r' es (code ++ [.endFrame]) (n + 1) := fun g =>
    { inert := g.inert
      request := g.request
      armed := g.armed
      frames := by
        rw [g.frames]
        simp [frames]
        omega
      methods := g.methods
      cost := by simpa [cost, weight] using g.cost
      noEntry := fun i hi => (List.mem_append.mp hi).elim (g.noEntry i)
        fun hi => by rw [List.mem_singleton.mp hi]; rfl }
  cases h with
  | waits g hr hd => exact .waits (goes g) hr hd
  | answers g hw hr hd result => exact .answers (goes g) hw hr hd result

theorem leaves_whileRunning (hs : s.run = some r) {step : Step}
    (h : r.running = true → Leaves { r with frames := r.frames + 1 }
      (s.put { r with frames := r.frames + 1 }) n
      (step { r with frames := r.frames + 1 } (s.put { r with frames := r.frames + 1 }))) :
    Leaves r s (n + 1) (whileRunning step r s) := by
  unfold whileRunning
  split
  · rename_i hr
    have hput : s = { s.put { r with frames := r.frames + 1 } with run := some r } := by
      cases s
      simp_all [State.put]
    rw [hput]
    exact leaves_framed (h hr).ofPut
  · exact leaves_code hs _ (by simp [cost]) rfl (by simp)

/-! ## What each step leaves -/

theorem leaves_finishCopied (hs : s.run = some r) : Leaves r s 1 (finishCopied r s) :=
  leaves_finish hs _

theorem leaves_answerInserted (hs : s.run = some r) (verified : Bool) :
    Leaves r s 1 (answerInserted verified r s) :=
  leaves_finish hs _

theorem leaves_answerPasted (hs : s.run = some r) (copied downgraded keys verified restored : Bool) :
    Leaves r s 1 (answerPasted copied downgraded keys verified restored r s) :=
  leaves_finish hs _

theorem leaves_restore (hs : s.run = some r) (callback : Callback) {next : Step}
    (h : ∀ r s, s.run = some r → Leaves r s 1 (next r s)) :
    Leaves r s 2 (restore callback next r s) := by
  unfold restore
  split
  · exact (leaves_await callback).mono (by omega)
  · exact leaves_whileRunning hs fun _ => h _ _ rfl

theorem leaves_insertedDirectly (hs : s.run = some r) (verified : Bool) :
    Leaves r s 2 (insertedDirectly verified r s) := by
  unfold insertedDirectly
  split
  · exact leaves_restore hs _ fun r s hs => leaves_answerInserted hs verified
  · exact (leaves_answerInserted hs verified).mono (by omega)

theorem leaves_answerPaste (hs : s.run = some r) (copied downgraded keys verified : Bool) :
    Leaves r s 2 (answerPaste copied downgraded keys verified r s) := by
  unfold answerPaste
  split
  · exact leaves_restore hs _ fun r s hs => leaves_answerPasted hs ..
  · exact (leaves_answerPasted hs ..).mono (by omega)

theorem leaves_pasted (hs : s.run = some r) (method : String) (keys html : Bool) :
    Leaves r s 2 (pasted env method keys html r s) := by
  unfold pasted
  dsimp only
  split
  · exact leaves_answerPaste hs ..
  · exact (leaves_await _).mono (by omega)

theorem leaves_pressThrough (index : Nat) (method : String) (keys gated : Bool) :
    Leaves r s 1 (pressThrough index method keys gated r s) := by
  unfold pressThrough
  split
  · exact @Leaves.waits r s 1
      { r with gates := gated :: r.gates, pending := .backendDone index method true :: r.pending }
      [.keysRequested r.request] [.call]
      ⟨by simp [Event.isInert], rfl, rfl, rfl, id, by simp [cost, weight], by simp [Instr.isEntry]⟩ rfl rfl
  · exact leaves_await _

theorem leaves_pasteThroughBackend (hs : s.run = some r) (index : Nat) :
    Leaves r s (2 + (3 - index)) (pasteThroughBackend index r s) := by
  unfold pasteThroughBackend
  split
  · exact leaves_code hs _ (by simp [cost, weight]) rfl (by simp [Instr.isEntry])
  · exact (leaves_finishCopied hs).mono (by omega)

/-- Past the last method there is nothing to try. -/
theorem leaves_pasteThroughBackend_succ (hs : s.run = some r) (hm : r.methods.length ≤ 3) (index : Nat) :
    Leaves r s (1 + (3 - index)) (pasteThroughBackend (index + 1) r s) := by
  unfold pasteThroughBackend
  split
  · exact leaves_code hs _ (by simp [cost, weight]; omega) rfl (by simp [Instr.isEntry])
  · exact (leaves_finishCopied hs).mono (by omega)

theorem leaves_throughBackend (index : Nat) : Leaves r s 1 (throughBackend env index r s) := by
  unfold throughBackend
  dsimp only
  split
  · exact leaves_await _
  · exact leaves_pressThrough ..

theorem leaves_pastePrepared (index : Nat) (method refusal : String) :
    Leaves r s 1 (pastePrepared index method refusal r s) := by
  unfold pastePrepared
  split
  · exact Leaves.put (leaves_finishCopied rfl) rfl rfl rfl id rfl rfl
  · exact leaves_pressThrough ..

theorem leaves_pasteFocusChecked (hs : s.run = some r) (index : Nat) (method : String)
    (focus : FocusMatch) : Leaves r s 3 (pasteFocusChecked index method focus r s) := by
  unfold pasteFocusChecked
  split
  · exact (leaves_whileRunning hs fun _ => leaves_pastePrepared ..).mono (by omega)
  · exact leaves_code hs _ (by simp [cost, weight]) rfl (by simp [Instr.isEntry])

theorem leaves_pasteUnlessOnlyInserting (hs : s.run = some r) (error : String) :
    Leaves r s 5 (pasteUnlessOnlyInserting env error r s) := by
  unfold pasteUnlessOnlyInserting
  split
  · exact (leaves_finish hs _).mono (by omega)
  · split
    · exact Leaves.put ((leaves_finish rfl _).mono (by omega)) rfl rfl rfl id rfl rfl
    · have hm := orderedMethods_length env.platform r.request.settings r.choice.method
      exact Leaves.put (leaves_pasteThroughBackend rfl 0) rfl rfl rfl (fun _ => hm) rfl rfl

theorem leaves_notInserted (hs : s.run = some r) (error : String) :
    Leaves r s 5 (notInserted env error r s) := by
  unfold notInserted
  split
  · exact (leaves_finish hs _).mono (by omega)
  · exact leaves_pasteUnlessOnlyInserting hs error

theorem leaves_insertOrPaste (hs : s.run = some r) : Leaves r s 7 (insertOrPaste env r s) := by
  unfold insertOrPaste
  split
  · exact leaves_code hs _ (by simp [cost, weight]) rfl (by simp [Instr.isEntry])
  · exact (leaves_notInserted hs "").mono (by omega)

theorem leaves_copied (hs : s.run = some r) (a : Answer) : Leaves r s 7 (copied env a r s) := by
  unfold copied
  dsimp only
  split
  · exact Leaves.log hs (Leaves.put (leaves_insertOrPaste rfl) rfl rfl rfl id rfl rfl) rfl
  · exact Leaves.put (leaves_insertOrPaste rfl) rfl rfl rfl id rfl rfl

theorem leaves_save (hs : s.run = some r) (wanted canSnapshot : Bool) :
    Leaves r s 2 (save wanted canSnapshot r s) := by
  unfold save
  split
  · exact leaves_whileRunning hs fun _ => leaves_await _
  · split
    · exact Leaves.put (leaves_whileRunning rfl fun _ => leaves_await _) rfl rfl rfl id rfl rfl
    · exact (leaves_await _).mono (by omega)

theorem leaves_captured (a : Answer) : Leaves r s 2 (captured a r s) := by
  unfold captured
  dsimp only
  refine Leaves.put (leaves_whileRunning rfl fun _ => leaves_await _) ?_ ?_ ?_ ?_ ?_ ?_ <;>
    split <;> first | rfl | exact id

theorem leaves_focusChecked (focus : FocusMatch) (canSnapshot : Bool) :
    Leaves r s 2 (focusChecked focus canSnapshot r s) :=
  Leaves.put (leaves_save rfl _ canSnapshot) rfl rfl rfl id rfl rfl

theorem leaves_start (canSnapshot : Bool) : Leaves r s 4 (start env canSnapshot r s) := by
  unfold start
  refine leaves_framed ?_
  split
  · exact Leaves.put ((leaves_await _).mono (by omega)) rfl rfl rfl id rfl rfl
  · exact Leaves.put ((leaves_focusChecked _ canSnapshot).mono (by omega)) rfl rfl rfl id rfl rfl

theorem leaves_restored (hs : s.run = some r) (a : Answer) {next : Step}
    (h : ∀ r s, s.run = some r → Leaves r s n (next r s)) : Leaves r s n (restored a next r s) := by
  have keeps : ∀ s : State, Leaves r s n (next (noteRestored a r) (s.put (noteRestored a r))) := by
    intro s
    refine Leaves.put (h _ _ rfl) ?_ ?_ ?_ ?_ ?_ ?_ <;> unfold noteRestored <;> split <;> try split
    all_goals first | rfl | exact id
  unfold restored
  split
  · exact (keeps (s.log (.wrote .previous))).log hs rfl
  · exact keeps s

/-- **One step of a run**, whatever callback is answered. -/
theorem leaves_hear (hs : s.run = some r) (reply : Reply) (a : Answer) (callback : Callback) :
    Leaves r s 8 (hear env reply a callback r s) := by
  cases callback with
  | focusChecked =>
    simp only [hear]
    refine Leaves.mono (n := 2 + 1) (leaves_whileRunning hs fun _ => ?_) (by omega)
    exact (leaves_focusChecked a.focus reply.yes).log rfl rfl
  | captured => exact (leaves_captured a).mono (by omega)
  | copied => exact leaves_whileRunning hs fun _ => leaves_copied rfl a
  | insertionVerified =>
    exact (leaves_whileRunning hs fun _ => leaves_insertedDirectly rfl a.ok).mono (by omega)
  | restoredInserted verified =>
    simp only [hear]
    refine Leaves.mono (n := 1 + 1) (leaves_restored hs a fun r s hs => ?_) (by omega)
    exact leaves_whileRunning hs fun _ => leaves_answerInserted rfl verified
  | pasteFocus index method =>
    simp only [hear]
    refine Leaves.mono (n := 3 + 1) (leaves_whileRunning hs fun _ => ?_) (by omega)
    exact (leaves_pasteFocusChecked rfl index method a.focus).log rfl rfl
  | backendDone index method keys =>
    simp only [hear]
    refine Leaves.mono (n := 5 + 1) (leaves_whileRunning hs fun _ => ?_) (by omega)
    dsimp only
    split
    · split
      · exact (leaves_pasted rfl ..).mono (by omega)
      · exact ((leaves_pasted rfl ..).log rfl rfl).mono (by omega)
    · split
      · exact Leaves.put ((leaves_finishCopied rfl).mono (by omega)) rfl rfl rfl id rfl rfl
      · exact Leaves.put ((leaves_pasteThroughBackend rfl index).mono (by omega)) rfl rfl rfl id rfl rfl
  | pasteVerified downgraded keys =>
    exact (leaves_whileRunning hs fun _ => leaves_answerPaste rfl ..).mono (by omega)
  | restoredPasted copied downgraded keys verified =>
    simp only [hear]
    refine Leaves.mono (n := 1 + 1) (leaves_restored hs a fun r s hs => ?_) (by omega)
    exact leaves_whileRunning hs fun _ => leaves_answerPasted rfl ..
  | gateFocus =>
    have call : ∀ es : List Event, (∀ e ∈ es, e.isInert = true) →
        Leaves r s 8 ({ s with run := some r, trace := es ++ s.trace }, [.call]) := fun es hes =>
      .waits ⟨hes, rfl, rfl, rfl, id, by simp [cost, weight], by simp [Instr.isEntry]⟩ rfl rfl
    have hs' : ∀ es, { s with run := some r, trace := es ++ s.trace } = { s with trace := es ++ s.trace } :=
      fun es => by rw [← hs]
    simp only [hs'] at call
    simp only [hear]
    split
    · split
      · exact call [.keysCleared r.request, .focusFound a.focus] (by simp [Event.isInert])
      · exact call [.focusFound a.focus] (by simp [Event.isInert])
    · exact call [] (by simp)

theorem leaves_askGate (hs : s.run = some r) (focusGated : Bool) :
    Leaves r s 2 (askGate focusGated r s) := by
  unfold askGate
  split
  · exact leaves_code hs _ (by simp [cost, weight]) rfl (by simp [Instr.isEntry])
  · split
    · have hcall : Leaves r (s.log (.keysCleared r.request)) 2 (s.log (.keysCleared r.request), [.call]) :=
        leaves_code (s := s.log (.keysCleared r.request)) hs [.call] (by simp [cost, weight]) rfl (by simp [Instr.isEntry])
      exact hcall.log hs rfl
    · exact leaves_whileRunning hs fun _ => leaves_await _

/-- The instructions that only step the run. -/
def Instr.isStep : Instr → Bool
  | .answered .. | .gate .. | .call | .canInsertText | .insertText | .backendFactory _
  | .preparePaste .. => true
  | _ => false

/-- **One instruction of a run** leaves less to run than it took itself. -/
theorem leaves_exec (env : Environment) (hs : s.run = some r) (hm : r.methods.length ≤ 3) (reply : Reply) {i : Instr}
    (hi : i.isStep = true) : Leaves r s (weight i - 1) (exec env reply i s) := by
  cases i with
  | deliver | startNext | deadline | destroy | deleteRun | endFrame => simp [Instr.isStep] at hi
  | call => exact leaves_code hs [] (by simp [cost]) rfl (by simp)
  | answered _ callback a =>
    simp only [exec, onRunOf, onRun, hs, weight]
    split
    · exact Leaves.put ((leaves_hear rfl reply a callback).mono (by omega)) rfl rfl rfl id rfl rfl
    · exact leaves_code hs [] (by simp [cost]) rfl (by simp)
  | gate id focusGated =>
    simp only [exec, onRunOf, onRun, hs, weight]
    split
    · exact (leaves_askGate hs focusGated).mono (by omega)
    · exact leaves_code hs [] (by simp [cost]) rfl (by simp)
  | canInsertText =>
    simp only [exec, onRun, hs, weight]
    split
    · exact leaves_code hs [.insertText] (by simp [cost, weight]) rfl (by simp [Instr.isEntry])
    · exact (leaves_notInserted hs "").mono (by omega)
  | insertText =>
    simp only [exec, onRun, hs, weight]
    split
    · exact (leaves_await _).mono (by omega)
    · exact (leaves_notInserted hs reply.error).mono (by omega)
  | backendFactory index =>
    simp only [exec, onRun, hs, weight]
    split
    · exact (leaves_throughBackend index).mono (by omega)
    · exact (leaves_pasteThroughBackend_succ hs hm index).mono (by omega)
  | preparePaste index method =>
    simp only [exec, onRun, hs, weight]
    exact leaves_whileRunning hs fun _ => leaves_pastePrepared ..

/-! ## The invariant -/

/-- How many deliveries were answered. -/
def answeredCount (s : State) : ℕ := (numbers Event.answered? s.trace).length

/-- The run waits for an answer. -/
def State.isRunning (s : State) : Bool := s.run.any Run.running

/-- What the queue, the run and the trace agree on at every moment. -/
structure Sound (s : State) : Prop where
  asked : numbers Event.asked? s.trace = List.range' 1 s.asked
  answered : numbers Event.answered? s.trace = List.range' 1 (answeredCount s)
  started : ∃ n, numbers Event.started? s.trace = List.range' 1 n ∧ n ≤ s.asked ∧
    answeredCount s ≤ n ∧ n ≤ answeredCount s + 1 ∧
    (s.alive = true → n = answeredCount s + if s.isRunning then 1 else 0)
  /-- The requests are those not answered yet, in order. -/
  queue : s.alive = true →
    s.requests.map Request.id = List.range' (answeredCount s + 1) (s.asked - answeredCount s)
  running : ∀ r, s.run = some r → r.running = true →
    s.alive = true ∧ r.armed = true ∧ s.requests.head? = some r.request ∧ r.deleting = false
  /-- A run that no longer waits is deleted once it has no frame left. -/
  deletable : ∀ r, s.run = some r → r.running = false → r.frames = 0 → r.deleting = true
  methods : ∀ r, s.run = some r → r.methods.length ≤ 3
  /-- Where no run is left a request not started has a call of `startNext` queued. -/
  posted : s.alive = true → s.run = none → s.requests ≠ [] → 0 < s.posted
  silent : Silent s.trace
  unstopped : s.alive = true → .stopped ∉ s.trace
  gone : s.alive = false → s.posted = 0

/-- The frames of the run, where there is one. -/
def State.frames (s : State) : ℕ := (s.run.map Run.frames).getD 0

/-- What the delivery was entered by finds the state it asked for, and stands in front of all other
code; the run is deleted below no code at all. -/
def Due (s : State) : List Instr → Prop
  | [] => True
  | i :: code => (i.isEntry = true → enters s i = true ∨
      (i = .deleteRun ∧ (∃ r, s.run = some r ∧ r.running = false) ∧ code = [])) ∧
    ∀ j ∈ code, j.isEntry = false

/-- The invariant of a delivery's runs. -/
structure Inv (c : Config State Instr) : Prop where
  sound : Sound c.state
  frames : c.state.frames = frames c.code
  due : Due c.state c.code

theorem State.isRunning_of_run (hs : s.run = some r) : s.isRunning = r.running := by
  simp [State.isRunning, hs]

theorem State.frames_of_run (hs : s.run = some r) : s.frames = r.frames := by
  simp [State.frames, hs]

/-- The request under way is the first that was not answered yet. -/
theorem Sound.head (h : Sound s) (hs : s.run = some r) (hr : r.running = true) :
    r.request.id = answeredCount s + 1 ∧ answeredCount s < s.asked := by
  obtain ⟨halive, -, hhead, -⟩ := h.running r hs hr
  have hq := h.queue halive
  cases hreq : s.requests with
  | nil => simp [hreq] at hhead
  | cons request requests =>
    simp only [hreq, List.head?_cons, Option.some.injEq] at hhead
    subst hhead
    rw [hreq, List.map_cons] at hq
    cases hn : s.asked - answeredCount s with
    | zero => simp [hn] at hq
    | succ n =>
      rw [hn, List.range'_succ] at hq
      exact ⟨(List.cons.inj hq).1, by omega⟩

/-- A step that goes on waiting keeps what the queue, the run and the trace agree on. -/
theorem Sound.waits (h : Sound s) (hs : s.run = some r) {r' : Run} {es : List Event}
    (hes : ∀ e ∈ es, e.isInert = true) (hreq : r'.request = r.request) (harm : r'.armed = r.armed)
    (hm : r'.methods.length ≤ 3) (hrun : r'.running = r.running)
    (hdel : r.running = true → r'.deleting = false)
    (hgone : r'.running = false → r'.frames = 0 → r'.deleting = true) :
    Sound { s with run := some r', trace := es ++ s.trace } := by
  have hcount : answeredCount { s with run := some r', trace := es ++ s.trace } = answeredCount s := by
    simp only [answeredCount, numbers_inert answered?_inert hes]
  have hrunning : State.isRunning { s with run := some r', trace := es ++ s.trace } = s.isRunning := by
    rw [State.isRunning_of_run rfl, State.isRunning_of_run hs, hrun]
  refine ⟨?_, ?_, ?_, ?_, ?_, ?_, ?_, ?_, ?_, ?_, h.gone⟩
  · rw [numbers_inert asked?_inert hes]
    exact h.asked
  · rw [numbers_inert answered?_inert hes, hcount]
    exact h.answered
  · rw [numbers_inert started?_inert hes, hcount, hrunning]
    exact h.started
  · rw [hcount]
    exact h.queue
  · rintro _ ⟨⟩ hr
    obtain ⟨h1, h2, h3, -⟩ := h.running r hs (hrun ▸ hr)
    exact ⟨h1, harm.trans h2, by rw [hreq]; exact h3, hdel (hrun ▸ hr)⟩
  · rintro _ ⟨⟩ hr hf
    exact hgone hr hf
  · rintro _ ⟨⟩
    exact hm
  · exact fun _ hn => by simp at hn
  · exact silent_inert hes h.silent
  · exact fun ha hst => h.unstopped ha ((stopped_inert hes).mp hst)

/-- The answer of the request under way keeps it too: the queue moves on by one. -/
theorem Sound.answers (h : Sound s) (hs : s.run = some r) (hr : r.running = true) {r' : Run}
    {es : List Event} (hes : ∀ e ∈ es, e.isInert = true) (hm : r'.methods.length ≤ 3)
    (hrun : r'.running = false) (hgone : r'.frames = 0 → r'.deleting = true)
    (result : DeliveryResult) :
    Sound { s with
      run := some r'
      requests := s.requests.tail
      trace := .answered r.request result :: (es ++ s.trace) } := by
  obtain ⟨hid, hlt⟩ := h.head hs hr
  obtain ⟨halive, -, -⟩ := h.running r hs hr
  have hanswered : numbers Event.answered? (.answered r.request result :: (es ++ s.trace)) =
      List.range' 1 (answeredCount s + 1) := by
    rw [numbers_cons, numbers_inert answered?_inert hes, h.answered, List.range'_1_concat]
    simp [Event.answered?, hid, Nat.add_comm]
  have hcount : answeredCount { s with
      run := some r'
      requests := s.requests.tail
      trace := .answered r.request result :: (es ++ s.trace) } = answeredCount s + 1 := by
    simp only [answeredCount] at hanswered ⊢
    rw [hanswered, List.length_range']
  refine ⟨?_, ?_, ?_, ?_, ?_, ?_, ?_, ?_, ?_, ?_, h.gone⟩
  · rw [numbers_cons, numbers_inert asked?_inert hes, h.asked]
    simp [Event.asked?]
  · rw [hcount]
    exact hanswered
  · obtain ⟨n, hn, hle, h1, h2, h3⟩ := h.started
    refine ⟨n, ?_, hle, ?_, ?_, fun _ => ?_⟩
    · rw [numbers_cons, numbers_inert started?_inert hes, hn]
      simp [Event.started?]
    all_goals
      have := h3 halive
      rw [State.isRunning_of_run hs, hr, if_pos rfl] at this
      rw [hcount]
    · omega
    · omega
    · rw [State.isRunning_of_run (r := r') rfl, hrun]
      simpa using this
  · intro ha
    rw [hcount, List.map_tail, h.queue ha]
    obtain ⟨n, hn⟩ : ∃ n, s.asked - answeredCount s = n + 1 := ⟨s.asked - answeredCount s - 1, by omega⟩
    rw [hn, List.range'_succ, List.tail_cons]
    congr 1
    change n = s.asked - (answeredCount s + 1)
    omega
  · rintro _ ⟨⟩ hr'
    rw [hrun] at hr'
    cases hr'
  · rintro _ ⟨⟩ - hf
    exact hgone hf
  · rintro _ ⟨⟩
    exact hm
  · exact fun _ hn => by simp at hn
  · exact ⟨fun _ hst => h.unstopped halive ((stopped_inert hes).mp hst), silent_inert hes h.silent⟩
  · intro ha hst
    rcases List.mem_cons.mp hst with hst | hst
    · cases hst
    · exact h.unstopped ha ((stopped_inert hes).mp hst)

theorem Sound.leaves (h : Sound s) (hs : s.run = some r) {out : Out} (hl : Leaves r s n out) :
    Sound out.1 ∧ out.1.frames = s.frames + TextDelivery.frames out.2 := by
  have hm := h.methods r hs
  rw [State.frames_of_run hs]
  cases hl with
  | waits g hr hd =>
    refine ⟨h.waits hs g.inert g.request g.armed (g.methods hm) hr (fun hrun => ?_) ?_, g.frames⟩
    · rw [hd]
      exact (h.running r hs hrun).2.2.2
    · intro hr' hf
      rw [hd]
      refine h.deletable r hs (hr ▸ hr') ?_
      have := g.frames
      omega
  | answers g hw hr hd result => exact ⟨h.answers hs hw g.inert (g.methods hm) hr hd result, g.frames⟩

/-! ## Runs -/

theorem frames_append (code k : List Instr) : frames (code ++ k) = frames code + frames k := by
  simp [frames]

theorem frames_cons {i : Instr} (hi : i ≠ .endFrame) (k : List Instr) : frames (i :: k) = frames k := by
  simp [frames, hi]

theorem Sound.answered_le (h : Sound s) : answeredCount s ≤ s.asked := by
  obtain ⟨n, -, h1, h2, -⟩ := h.started
  omega

theorem Sound.deliver (h : Sound s) (halive : s.alive = true) (settings : OutputSettings)
    (content : DeliveryContent) (target : Target) : Sound { s with
      requests := s.requests ++ [⟨s.asked + 1, settings, content, target⟩]
      asked := s.asked + 1
      posted := s.posted + 1
      trace := .asked (s.asked + 1) :: s.trace } := by
  have hcount : answeredCount { s with
      requests := s.requests ++ [⟨s.asked + 1, settings, content, target⟩]
      asked := s.asked + 1
      posted := s.posted + 1
      trace := .asked (s.asked + 1) :: s.trace } = answeredCount s := by
    simp [answeredCount, numbers_cons, Event.answered?]
  have hle := h.answered_le
  refine ⟨?_, ?_, ?_, ?_, ?_, h.deletable, h.methods, fun _ _ _ => Nat.succ_pos _, ?_, ?_, ?_⟩
  · rw [numbers_cons, h.asked, List.range'_1_concat]
    simp [Event.asked?, Nat.add_comm]
  · rw [hcount, numbers_cons, h.answered]
    simp [Event.answered?]
  · obtain ⟨n, hn, h1, h2, h3, h4⟩ := h.started
    rw [hcount]
    exact ⟨n, by simpa [numbers_cons, Event.started?] using hn, Nat.le_succ_of_le h1, h2, h3, h4⟩
  · intro ha
    rw [hcount, List.map_append, h.queue ha]
    have : s.asked + 1 - answeredCount s = (s.asked - answeredCount s) + 1 := by omega
    simp only [this, List.range'_1_concat, List.map_cons, List.map_nil]
    congr 2
    omega
  · intro r hs hr
    obtain ⟨h1, h2, h3, h4⟩ := h.running r hs hr
    refine ⟨h1, h2, ?_, h4⟩
    cases hreq : s.requests with
    | nil => simp [hreq] at h3
    | cons => simpa [hreq] using h3
  · exact ⟨fun he => absurd rfl he, h.silent⟩
  · exact fun ha hst => h.unstopped ha (by simpa using hst)
  · exact fun ha => absurd (halive.symm.trans ha) (by simp)

/-- A queued call is done with; the run it starts is the first request's. -/
theorem Sound.begin (h : Sound s) (hp : 0 < s.posted) (hrun : s.run = none) {request : Request}
    {requests : List Request} (hreq : s.requests = request :: requests) :
    Sound { s with
      posted := s.posted - 1
      run := some { request := request }
      trace := .started request.id :: s.trace } := by
  have halive : s.alive = true := by
    by_contra ha
    have := h.gone (by simpa using ha)
    omega
  have hcount : answeredCount { s with
      posted := s.posted - 1
      run := some { request := request }
      trace := .started request.id :: s.trace } = answeredCount s := by
    simp [answeredCount, numbers_cons, Event.answered?]
  have hq := h.queue halive
  rw [hreq, List.map_cons] at hq
  obtain ⟨m, hm⟩ : ∃ m, s.asked - answeredCount s = m + 1 := by
    cases hm : s.asked - answeredCount s with
    | zero => simp [hm] at hq
    | succ m => exact ⟨m, rfl⟩
  rw [hm, List.range'_succ] at hq
  obtain ⟨hid, -⟩ := List.cons.inj hq
  refine ⟨?_, ?_, ?_, ?_, ?_, ?_, ?_, ?_, ?_, ?_, ?_⟩
  · rw [numbers_cons, h.asked]
    simp [Event.asked?]
  · rw [hcount, numbers_cons, h.answered]
    simp [Event.answered?]
  · obtain ⟨n, hn, -, -, -, h4⟩ := h.started
    have hcur : n = answeredCount s := by simpa [State.isRunning, hrun] using h4 halive
    subst hcur
    rw [hcount]
    refine ⟨answeredCount s + 1, ?_, ?_, by omega, by omega, fun _ => by simp [State.isRunning]⟩
    · rw [numbers_cons, hn, List.range'_1_concat]
      simp [Event.started?, hid, Nat.add_comm]
    · change answeredCount s + 1 ≤ s.asked
      omega
  · rw [hcount]
    exact h.queue
  · rintro _ ⟨⟩ -
    exact ⟨halive, rfl, by simp [hreq], rfl⟩
  · rintro _ ⟨⟩ hr
    simp at hr
  · rintro _ ⟨⟩
    simp
  · exact fun _ hn => by simp at hn
  · exact ⟨fun he => absurd rfl he, h.silent⟩
  · exact fun ha hst => h.unstopped ha (by simpa using hst)
  · exact fun ha => absurd (halive.symm.trans ha) (by simp)

/-- A queued call that finds a run, or nothing to start, is done with. -/
theorem Sound.posted_pred (h : Sound s) (hp : s.run ≠ none ∨ s.requests = []) :
    Sound { s with posted := s.posted - 1 } := by
  refine ⟨h.asked, h.answered, h.started, h.queue, h.running, h.deletable, h.methods, ?_, h.silent,
    h.unstopped, fun ha => ?_⟩
  · intro _ hrun hreq
    exact (hp.elim (· hrun) hreq).elim
  · have := h.gone ha
    simp only
    omega

/-- The state with the run of the first request just made. -/
def State.begun (s : State) (request : Request) : State :=
  { s with
    posted := s.posted - 1
    run := some { request := request }
    trace := .started request.id :: s.trace }

/-- What a queued call can do: start the first request, or find a run or nothing to start. -/
theorem startNext_cases (env : Environment) (canSnapshot : Bool) (s : State) :
    (∃ request requests, s.run = none ∧ s.requests = request :: requests ∧
      Leaves { request := request } (s.begun request) 4 (startNext env canSnapshot s)) ∨
    ((s.run ≠ none ∨ s.requests = []) ∧
      startNext env canSnapshot s = ({ s with posted := s.posted - 1 }, [])) := by
  cases hrun : s.run with
  | some r => exact .inr ⟨.inl (by simp), by simp [startNext, hrun]⟩
  | none =>
    cases hreq : s.requests with
    | nil => exact .inr ⟨.inr rfl, by simp [startNext, hrun, hreq]⟩
    | cons request requests =>
      refine .inl ⟨request, requests, rfl, rfl, ?_⟩
      have hstart : startNext env canSnapshot s =
          start env canSnapshot { request := request } (s.begun request) := by
        cases s
        cases hrun
        cases hreq
        rfl
      rw [hstart]
      exact leaves_start canSnapshot

theorem Sound.startNext (env : Environment) (h : Sound s) (hp : 0 < s.posted) (canSnapshot : Bool) :
    Sound (startNext env canSnapshot s).1 ∧ (TextDelivery.startNext env canSnapshot s).1.frames =
      s.frames + TextDelivery.frames (TextDelivery.startNext env canSnapshot s).2 := by
  obtain ⟨request, requests, hrun, hreq, hl⟩ | ⟨hnone, heq⟩ := startNext_cases env canSnapshot s
  · simpa [State.frames, State.begun, hrun] using (h.begin hp hrun hreq).leaves rfl hl
  · rw [heq]
    exact ⟨h.posted_pred hnone, rfl⟩

theorem Sound.deadline (env : Environment) (h : Sound s) (hs : s.run = some r) (reply : Reply) :
    Sound (exec env reply .deadline s).1 ∧ (exec env reply .deadline s).1.frames =
      s.frames + TextDelivery.frames (exec env reply .deadline s).2 := by
  simp only [exec, onRun, hs]
  split
  · rename_i hr
    refine ⟨@Sound.answers r s h hs hr
      { r with armed := false, running := false, deleting := r.deleting || r.frames = 0 } []
      (by simp) (h.methods r hs) rfl (fun hf => ?_) _, ?_⟩
    · simp only at hf
      simp [hf]
    · simp [State.frames, hs, answer, TextDelivery.frames]
  · rename_i hr
    have hr' : r.running = false := by simpa using hr
    refine ⟨?_, by simp [State.frames, hs, State.put, TextDelivery.frames]⟩
    refine ⟨h.asked, h.answered, ?_, h.queue, ?_, ?_, ?_, ?_, h.silent, h.unstopped, h.gone⟩
    · have := h.started
      simpa [State.isRunning, hs, hr', State.put, answeredCount] using this
    · rintro _ ⟨⟩ hrun
      rw [hr'] at hrun
      cases hrun
    · rintro _ ⟨⟩ - hf
      exact h.deletable r hs hr' hf
    · rintro _ ⟨⟩
      exact h.methods r hs
    · exact fun _ hn => by simp [State.put] at hn

theorem Sound.destroy (h : Sound s) :
    Sound (destroy s).1 ∧ (TextDelivery.destroy s).1.frames = s.frames := by
  have stops : ∀ run : Option Run, (∀ r, run = some r → r.running = false ∧ r.methods.length ≤ 3 ∧
      (r.frames = 0 → r.deleting = true)) →
      Sound { s with alive := false, posted := 0, run := run, trace := .stopped :: s.trace } := by
    intro run hrun
    have hcount : answeredCount { s with
        alive := false, posted := 0, run := run, trace := .stopped :: s.trace } = answeredCount s := by
      simp [answeredCount, numbers_cons, Event.answered?]
    refine ⟨?_, ?_, ?_, by simp, ?_, fun r hr _ => (hrun r hr).2.2,
      fun r hr => (hrun r hr).2.1, by simp, ⟨by simp [Event.answered?], h.silent⟩, by simp,
      fun _ => rfl⟩
    · rw [numbers_cons, h.asked]
      simp [Event.asked?]
    · rw [hcount, numbers_cons, h.answered]
      simp [Event.answered?]
    · obtain ⟨n, hn, h1, h2, h3, -⟩ := h.started
      rw [hcount]
      exact ⟨n, by simpa [numbers_cons, Event.started?] using hn, h1, h2, h3, by simp⟩
    · intro r hr hrunning
      rw [(hrun r hr).1] at hrunning
      cases hrunning
  unfold TextDelivery.destroy
  cases hs : s.run with
  | none => exact ⟨by simpa [hs] using stops none (by simp), by simp [State.frames, hs]⟩
  | some r =>
    simp only
    split
    · rename_i hf
      exact ⟨stops none (by simp), by simp [State.frames, hs, hf]⟩
    · rename_i hf
      refine ⟨stops (some { r with running := false }) ?_, by simp [State.frames, hs, State.put]⟩
      rintro _ ⟨⟩
      exact ⟨rfl, h.methods r hs, fun h0 => absurd h0 hf⟩

theorem Sound.deleteRun (h : Sound s) (hs : s.run = some r) (hr : r.running = false) :
    Sound { s with run := none, posted := if s.alive then s.posted + 1 else s.posted } := by
  refine ⟨h.asked, h.answered, ?_, h.queue, by simp, by simp, by simp, ?_, h.silent, h.unstopped, ?_⟩
  · have := h.started
    simpa [State.isRunning, hs, hr, answeredCount] using this
  · intro ha _ _
    simp only at ha ⊢
    rw [if_pos ha]
    omega
  · intro ha
    simp only at ha ⊢
    rw [if_neg (by simp [ha])]
    exact h.gone ha

theorem Sound.endFrame (h : Sound s) (hs : s.run = some r) : Sound (endFrame r s).1 := by
  refine ⟨h.asked, h.answered, ?_, h.queue, ?_, ?_, ?_, ?_, h.silent, h.unstopped, h.gone⟩
  · have hrun : State.isRunning (TextDelivery.endFrame r s).1 = s.isRunning := by
      rw [State.isRunning_of_run hs]
      rfl
    rw [hrun]
    exact h.started
  · rintro _ ⟨⟩ hr
    obtain ⟨h1, h2, h3, h4⟩ := h.running r hs hr
    refine ⟨h1, h2, h3, ?_⟩
    simp only at hr
    simp [h4, hr]
  · rintro _ ⟨⟩ hr hf
    simp only at hr hf
    simp [hr, hf]
  · rintro _ ⟨⟩
    exact h.methods r hs
  · exact fun _ hn => by simp [TextDelivery.endFrame, State.put] at hn

theorem Due.of_noEntry {code : List Instr} (h : ∀ i ∈ code, i.isEntry = false) : Due s code := by
  cases code with
  | nil => trivial
  | cons i k =>
    refine ⟨fun hi => ?_, fun j hj => h j (List.mem_cons_of_mem _ hj)⟩
    rw [h i (by simp)] at hi
    cases hi

theorem due_startNext {k : List Instr} (h : Due s (.startNext :: k)) : 0 < s.posted := by
  have henters := (h.1 rfl).resolve_right (by simp)
  simp only [enters, Bool.and_eq_true, decide_eq_true_eq] at henters
  exact henters.2

theorem due_deadline {k : List Instr} (h : Due s (.deadline :: k)) :
    ∃ r, s.run = some r ∧ r.armed = true := by
  have henters := (h.1 rfl).resolve_right (by simp)
  simp only [enters] at henters
  split at henters
  · rename_i r hr
    exact ⟨r, hr, ((Bool.and_eq_true _ _).mp henters).2⟩
  · cases henters

theorem due_deleteRun {k : List Instr} (h : Due s (.deleteRun :: k)) :
    (∃ r, s.run = some r ∧ r.running = false) ∧ k = [] := by
  obtain henters | ⟨-, h1, h2⟩ := h.1 rfl
  · simp [enters] at henters
  · exact ⟨h1, h2⟩

theorem inv_run (reply : Reply) (i : Instr) (k : List Instr) (h : Inv ⟨s, i :: k⟩) :
    Inv ⟨(exec env reply i s).1, (exec env reply i s).2 ++ k⟩ := by
  obtain ⟨hs, hf, hd⟩ := h
  dsimp only at hs hf hd
  have htail := hd.2
  -- It is enough that the state stays sound, and that the frames left are those in the code.
  have inv : Sound (exec env reply i s).1 →
      (exec env reply i s).1.frames = frames (exec env reply i s).2 + frames k →
      (∀ j ∈ (exec env reply i s).2, j.isEntry = false) →
      Inv ⟨(exec env reply i s).1, (exec env reply i s).2 ++ k⟩ := fun h1 h2 h3 =>
    ⟨h1, by rw [frames_append, h2], Due.of_noEntry fun j hj =>
      (List.mem_append.mp hj).elim (h3 j) (htail j)⟩
  by_cases hstep : i.isStep = true
  · have hi : i ≠ .endFrame := by
      rintro rfl
      simp [Instr.isStep] at hstep
    rw [frames_cons hi] at hf
    cases hrun : s.run with
    | some r =>
      have hl := leaves_exec env hrun (hs.methods r hrun) reply hstep
      obtain ⟨h1, h2⟩ := hs.leaves hrun hl
      exact inv h1 (by rw [h2, hf, Nat.add_comm]) hl.noEntry
    | none =>
      have hnone : exec env reply i s = (s, []) := by
        cases i <;> simp_all [Instr.isStep, exec, onRunOf, onRun]
      rw [hnone] at inv ⊢
      exact inv hs (by simpa [frames] using hf) (by simp)
  · cases i with
    | answered | gate | call | canInsertText | insertText | backendFactory | preparePaste =>
      simp [Instr.isStep] at hstep
    | deliver settings content target =>
      rw [frames_cons (by simp)] at hf
      have halive : s.alive = true := by simpa [enters] using hd.1 rfl
      exact inv (hs.deliver halive settings content target) (by simpa [exec, State.frames, frames] using hf)
        (by simp [exec])
    | startNext =>
      rw [frames_cons (by simp)] at hf
      obtain ⟨h1, h2⟩ := hs.startNext env (due_startNext hd) reply.yes
      refine inv h1 (by simp only [exec, h2, hf]; omega) ?_
      obtain ⟨_, _, _, _, hl⟩ | ⟨-, heq⟩ := startNext_cases env reply.yes s
      · exact hl.noEntry
      · simp [exec, heq]
    | deadline =>
      rw [frames_cons (by simp)] at hf
      obtain ⟨r, hr, -⟩ := due_deadline hd
      obtain ⟨h1, h2⟩ := hs.deadline env hr reply
      refine inv h1 (by rw [h2, hf, Nat.add_comm]) ?_
      simp only [exec, onRun, hr]
      split <;> simp [answer, Instr.isEntry]
    | destroy =>
      rw [frames_cons (by simp)] at hf
      obtain ⟨h1, h2⟩ := hs.destroy
      have hcode : (destroy s).2 = [] := by
        unfold destroy
        dsimp only
        split
        · rfl
        · split <;> rfl
      exact inv h1 (by simp only [exec, h2, hf, hcode]; simp [frames]) (by simp [exec, hcode])
    | deleteRun =>
      obtain ⟨⟨r, hr, hrun⟩, hk⟩ := due_deleteRun hd
      exact inv (hs.deleteRun hr hrun) (by simp [exec, State.frames, frames, hk]) (by simp [exec])
    | endFrame =>
      simp only [frames, List.count_cons_self] at hf
      cases hrun : s.run with
      | none => simp [State.frames, hrun] at hf
      | some r =>
        rw [State.frames_of_run hrun] at hf
        have hexec : exec env reply .endFrame s = endFrame r s := by simp [exec, onRun, hrun]
        rw [hexec] at inv ⊢
        refine inv (hs.endFrame hrun) ?_ (by simp [endFrame])
        simp [endFrame, State.put, State.frames, frames, hf]

theorem inv_enter (i : Instr) (k : List Instr) (h : Inv ⟨s, k⟩) (hk : (machine env).hasControl k = true)
    (hi : enters s i = true) : Inv ⟨s, i :: k⟩ := by
  obtain ⟨hs, hf, hd⟩ := h
  dsimp only at hs hf hd
  -- Where the environment has control, no entered instruction is in front or below.
  have hnone : ∀ j ∈ k, j.isEntry = false := by
    cases k with
    | nil => simp
    | cons j k =>
      have hj : j.isEntry = false := by
        cases j <;> simp_all [Machine.hasControl, machine, Instr.yields, Instr.isEntry]
      intro j' hj'
      rcases List.mem_cons.mp hj' with rfl | hj'
      · exact hj
      · exact hd.2 j' hj'
  have hne : i ≠ .endFrame := by
    rintro rfl
    simp [enters] at hi
  exact ⟨hs, by rw [frames_cons hne]; exact hf, fun _ => .inl hi, hnone⟩

theorem sound_initial : Sound {} := by
  refine ⟨rfl, rfl, ⟨0, rfl, Nat.le_refl _, Nat.le_refl _, Nat.zero_le _, fun _ => rfl⟩, fun _ => rfl,
    ?_, ?_, ?_, ?_, trivial, ?_, ?_⟩ <;> simp

theorem inv_wake (i : Instr) (h : Inv ⟨s, []⟩) (hi : (machine env).wakes s i = true) : Inv ⟨s, [i]⟩ := by
  obtain ⟨hs, hf, -⟩ := h
  cases i with
  | deleteRun =>
    refine ⟨hs, hf, fun _ => .inr ⟨rfl, ?_, rfl⟩, by simp⟩
    simp only [machine] at hi
    split at hi
    · rename_i r _ hr
      refine ⟨r, hr, ?_⟩
      by_contra hrun
      have := (hs.running r hr (by simpa using hrun)).2.2.2
      rw [hi] at this
      cases this
    · cases hi
  | _ => simp [machine] at hi

/-- **The invariant of a delivery**, in every configuration of every run. -/
theorem inv_of_reachable {c : Config State Instr}
    (h : (machine env).Reachable (fun _ _ => True) IsInitial c) : Inv c := by
  refine h.invariant (fun s hs => ?_) (fun reply i k s _ h => inv_run reply i k h)
    (fun i k s _ h hk hi => inv_enter i k h hk hi) (fun i s _ h hi => inv_wake i h hi)
  cases hs
  exact ⟨sound_initial, rfl, trivial⟩

theorem Sound.answers_spec (h : Sound s) : Answers s := by
  obtain ⟨n, hn, h1, h2, h3, -⟩ := h.started
  have hlen : (numbers Event.started? s.trace).length = n := by rw [hn, List.length_range']
  exact ⟨h.asked, by rw [hlen, hn], h.answered, by rw [hlen]; exact h2, by rw [hlen]; exact h3,
    by rw [hlen]; exact h1, h.silent⟩

/-! ## Nothing is forgotten -/

/-- The moves the delivery and its event loop make by themselves. -/
def Internal : Move Instr Reply → Bool
  | .run _ | .enter .startNext | .enter .deadline | .wake .deleteRun => true
  | _ => false

/-- What a run may still make happen: its answer, its deadline and its deletion. -/
def Run.rank (r : Run) : ℕ := 2 + 2 * r.running.toNat + r.armed.toNat

def runRank (s : State) : ℕ := (s.run.map Run.rank).getD 0

/-- The requests no run was made for, while the delivery is there. -/
def waiting (s : State) : ℕ := s.alive.toNat * (s.requests.length - s.isRunning.toNat)

/-- What is still to happen without the environment. -/
def load (c : Config State Instr) : ℕ :=
  cost c.code + c.state.posted + runRank c.state + 10 * waiting c.state

/-- The moves still to come without the environment. -/
def rank (c : Config State Instr) : ℕ :=
  2 * load c + (!c.code.head?.any Instr.isEntry).toNat

/-- What a state may still make happen, without the code on the stack. -/
def stateLoad (s : State) : ℕ := s.posted + runRank s + 10 * waiting s

theorem load_eq (s : State) (code : List Instr) : load ⟨s, code⟩ = cost code + stateLoad s := by
  simp only [load, stateLoad]
  omega

theorem cost_cons (i : Instr) (k : List Instr) : cost (i :: k) = weight i + cost k := by
  simp [cost]

theorem cost_append (code k : List Instr) : cost (code ++ k) = cost code + cost k := by
  simp [cost]

/-- A step of a run makes nothing happen that was not due. -/
theorem Leaves.stateLoad (h : Sound s) (hs : s.run = some r) {out : Out} (hl : Leaves r s n out) :
    stateLoad out.1 ≤ stateLoad s := by
  cases hl with
  | waits g hr hd =>
    simp only [TextDelivery.stateLoad, runRank, waiting, State.isRunning, hs, Option.any_some, hr,
      Option.map_some, Option.getD_some, Run.rank, g.armed, Nat.le_refl]
  | answers g hw hr hd result =>
    obtain ⟨halive, -, hhead, -⟩ := h.running r hs hw
    simp only [TextDelivery.stateLoad, runRank, waiting, State.isRunning, hs, Option.any_some, hr, hw,
      Option.map_some, Option.getD_some, Run.rank, g.armed, List.length_tail, halive, Bool.toNat_true,
      Bool.toNat_false]
    omega

theorem Sound.stateLoad_begin (h : Sound s) (hp : 0 < s.posted) (hrun : s.run = none)
    {request : Request} {requests : List Request} (hreq : s.requests = request :: requests) :
    stateLoad (s.begun request) + 5 < stateLoad s := by
  have halive : s.alive = true := by
    by_contra ha
    have := h.gone (by simpa using ha)
    omega
  simp only [stateLoad, runRank, waiting, State.isRunning, State.begun, hrun, hreq, halive,
    Option.any_some, Option.any_none, Option.map_some, Option.map_none, Option.getD_some,
    Option.getD_none, Run.rank, List.length_cons, Bool.toNat_true, Bool.toNat_false]
  omega

theorem stateLoad_deadline (env : Environment) (hs : s.run = some r) (harm : r.armed = true) (reply : Reply) :
    cost (exec env reply .deadline s).2 + stateLoad (exec env reply .deadline s).1 < stateLoad s := by
  simp only [exec, onRun, hs]
  split
  · rename_i hrun
    have hlen : s.alive.toNat * (s.requests.length - 1 - 0) ≤ s.alive.toNat * (s.requests.length - 1) :=
      Nat.le_refl _
    simp only [answer, cost, stateLoad, runRank, waiting, State.isRunning, hs, weight, hrun, harm,
      Option.any_some, Option.map_some, Option.getD_some, Run.rank, State.put, List.length_tail,
      List.map_cons, List.map_nil, List.sum_cons, List.sum_nil, Bool.toNat_true, Bool.toNat_false]
    omega
  · rename_i hrun
    simp only [cost, stateLoad, runRank, waiting, State.isRunning, hs, harm, Option.any_some,
      Option.map_some, Option.getD_some, Run.rank, State.put, List.map_nil, List.sum_nil,
      Bool.toNat_true, Bool.toNat_false]
    omega

theorem stateLoad_destroy (s : State) :
    cost (destroy s).2 + stateLoad (destroy s).1 ≤ stateLoad s := by
  unfold destroy
  dsimp only
  split
  · rename_i hr
    simp only [cost, stateLoad, runRank, waiting, hr, List.map_nil, List.sum_nil, Bool.toNat_false]
    omega
  · rename_i r hr
    split
    · simp [cost, stateLoad, runRank, waiting]
    · simp only [cost, stateLoad, runRank, waiting, hr, State.put, Option.map_some, Option.getD_some,
        Run.rank, List.map_nil, List.sum_nil, Bool.toNat_false]
      omega

/-- **Every instruction** lowers what is still to happen. -/
theorem load_run (env : Environment) (reply : Reply) (i : Instr) (k : List Instr) (h : Inv ⟨s, i :: k⟩) :
    load ⟨(exec env reply i s).1, (exec env reply i s).2 ++ k⟩ < load ⟨s, i :: k⟩ := by
  obtain ⟨hs, hf, hd⟩ := h
  dsimp only at hs hf hd
  rw [load_eq, load_eq, cost_append, cost_cons]
  suffices cost (exec env reply i s).2 + stateLoad (exec env reply i s).1 < weight i + stateLoad s by omega
  by_cases hstep : i.isStep = true
  · have hpos : 0 < weight i := by
      cases i with
      | deliver | startNext | deadline | destroy | deleteRun | endFrame => simp [Instr.isStep] at hstep
      | _ =>
        simp only [weight]
        omega
    cases hrun : s.run with
    | some r =>
      have hl := leaves_exec env hrun (hs.methods r hrun) reply hstep
      have h1 := hl.cost
      have h2 := hl.stateLoad hs hrun
      omega
    | none =>
      have hnone : exec env reply i s = (s, []) := by
        cases i <;> simp_all [Instr.isStep, exec, onRunOf, onRun]
      rw [hnone]
      simpa [cost] using hpos
  · cases i with
    | answered | gate | call | canInsertText | insertText | backendFactory | preparePaste =>
      simp [Instr.isStep] at hstep
    | deliver settings content target =>
      have halive : s.alive = true := by simpa [enters] using hd.1 rfl
      simp only [exec, cost, stateLoad, runRank, waiting, State.isRunning, weight, halive,
        List.length_append, List.length_singleton, List.map_nil, List.sum_nil, Bool.toNat_true]
      omega
    | startNext =>
      simp only [exec, weight]
      obtain ⟨request, requests, hrun, hreq, hl⟩ | ⟨-, heq⟩ := startNext_cases env reply.yes s
      · have h1 := hl.cost
        have h2 : stateLoad _ ≤ stateLoad (s.begun request) := hl.stateLoad (hs.begin (due_startNext hd) hrun hreq) rfl
        have h3 := hs.stateLoad_begin (due_startNext hd) hrun hreq
        omega
      · rw [heq]
        have := due_startNext hd
        simp only [cost, stateLoad, runRank, waiting, State.isRunning, List.map_nil, List.sum_nil]
        omega
    | deadline =>
      obtain ⟨r, hr, harm⟩ := due_deadline hd
      have := stateLoad_deadline env hr harm reply
      omega
    | destroy =>
      have := stateLoad_destroy s
      simp only [exec, weight]
      omega
    | deleteRun =>
      obtain ⟨⟨r, hr, hrun⟩, hk⟩ := due_deleteRun hd
      simp only [exec, cost, stateLoad, runRank, waiting, State.isRunning, hr, weight, hrun, Run.rank,
        Option.any_some, Option.any_none, Option.map_some, Option.map_none, Option.getD_some,
        Option.getD_none, List.map_nil, List.sum_nil, Bool.toNat_false]
      split <;> omega
    | endFrame =>
      cases hrun : s.run with
      | none => simp [exec, onRun, hrun, cost, weight]
      | some r =>
        simp only [exec, onRun, hrun, endFrame, cost, stateLoad, runRank, waiting, State.isRunning,
          State.put, weight, Option.any_some, Option.map_some, Option.getD_some, Run.rank,
          List.map_nil, List.sum_nil]
        omega

/-- The delivery and its event loop go on for at most `rank` moves. -/
theorem rank_lowers (c : Config State Instr) (mv : Move Instr Reply) (c' : Config State Instr)
    (hmv : Internal mv = true)
    (hc : (machine env).Reachable (fun _ _ => True) IsInitial c)
    (hnext : (machine env).next? c mv = some c') :
    (machine env).Reachable (fun _ _ => True) IsInitial c' ∧ rank c' < rank c := by
  refine ⟨hc.step mv trivial hnext, ?_⟩
  have hinv := inv_of_reachable hc
  obtain ⟨s, code⟩ := c
  obtain ⟨r, i, k, rfl, ⟨⟩, rfl⟩ | ⟨i, rfl, hk, -, rfl⟩ | ⟨i, rfl, ⟨⟩, -, rfl⟩ := Machine.next?_cases hnext
  · have := load_run env r i k hinv
    simp only [machine, rank]
    have h1 := Bool.toNat_le (!((exec env r i s).2 ++ k).head?.any Instr.isEntry)
    omega
  · -- The front was no entered instruction, and weighs nothing now that it is one.
    have hfront : code.head?.any Instr.isEntry = false := by
      cases code with
      | nil => rfl
      | cons j k => cases j <;> simp_all [Machine.hasControl, machine, Instr.yields, Instr.isEntry]
    have hi : i.isEntry = true ∧ weight i = 0 := by
      cases i <;> simp_all [Internal, Instr.isEntry, weight]
    simp only [rank, hfront, List.head?_cons, Option.any_some, hi.1, load_eq, cost_cons, hi.2]
    simp
  · have hi : i.isEntry = true ∧ weight i = 0 := by
      cases i <;> simp_all [Internal, Instr.isEntry, weight]
    simp only [rank, List.head?_cons, Option.any_some, hi.1, load_eq, cost_cons, hi.2]
    simp [cost]

/-- Where the delivery and its event loop have nothing more to do, everything asked was answered. -/
theorem answered_of_quiet {c : Config State Instr}
    (hc : (machine env).Reachable (fun _ _ => True) IsInitial c)
    (hquiet : ∀ mv, Internal mv = true → (machine env).next? c mv = none)
    (halive : c.state.alive = true) :
    numbers Event.answered? c.state.trace = List.range' 1 c.state.asked := by
  obtain ⟨hs, hf, -⟩ := inv_of_reachable hc
  obtain ⟨s, code⟩ := c
  dsimp only at hs hf hquiet halive
  have hcode : code = [] := by
    have := hquiet (.run {}) rfl
    cases code with
    | nil => rfl
    | cons i k => simp [Machine.next?] at this
  subst hcode
  have hposted : s.posted = 0 := by
    have := hquiet (.enter .startNext) rfl
    simpa [Machine.next?, Machine.hasControl, machine, enters, halive] using this
  have hrun : s.run = none := by
    cases hr : s.run with
    | none => rfl
    | some r =>
      have hdeadline := hquiet (.enter .deadline) rfl
      have hdelete := hquiet (.wake .deleteRun) rfl
      simp only [Machine.next?, Machine.hasControl, machine, enters, hr, halive] at hdeadline hdelete
      cases hrun : r.running with
      | true => simp [(hs.running r hr hrun).2.1] at hdeadline
      | false =>
        have hframes : r.frames = 0 := by
          rw [State.frames_of_run hr] at hf
          simpa [frames] using hf
        simp [hs.deletable r hr hrun hframes] at hdelete
  have hnone : s.requests = [] := by
    by_contra hne
    have := hs.posted halive hrun hne
    omega
  have hq := hs.queue halive
  rw [hnone, List.map_nil] at hq
  have hle := hs.answered_le
  have hlen := congrArg List.length hq
  simp only [List.length_nil, List.length_range'] at hlen
  rw [hs.answered]
  congr 1
  change answeredCount s = s.asked
  omega

/-- **Every delivery is answered once and in order**: at every moment of every run, and whatever
is still unanswered is answered within a bound, once the delivery is left to its event loop. -/
theorem answers_of_reachable (env : Environment) {c : Config State Instr}
    (hc : (machine env).Reachable (fun _ _ => True) IsInitial c) :
    Answers c.state ∧ ∀ (mvs : List (Move Instr Reply)) (c' : Config State Instr),
      (∀ mv ∈ mvs, Internal mv = true) → (machine env).play c mvs = some c' →
      mvs.length ≤ rank c ∧
        ((∀ mv, Internal mv = true → (machine env).next? c' mv = none) → c'.state.alive = true →
          numbers Event.answered? c'.state.trace = List.range' 1 c'.state.asked) := by
  refine ⟨(inv_of_reachable hc).sound.answers_spec, fun mvs c' hown hplay => ?_⟩
  obtain ⟨hle, hc'⟩ := Machine.length_le_of_rank rank_lowers hc mvs hown hplay
  exact ⟨hle, answered_of_quiet hc'⟩

/-- A delivery that only copies. -/
def copyOnly : Environment := ⟨.other, fun _ _ => { method := .clipboardOnly }, false⟩

/-- Two deliveries: the first is copied while its run starts, the second never hears of its copy
before its deadline. -/
def copyThenDeadline : List (Move Instr Reply) :=
  [.enter (.deliver {} ⟨"one", none⟩ {}), .run {}, .enter (.deliver {} ⟨"two", none⟩ {}), .run {},
   .enter .startNext, .run {}, .enter (.answered 1 .copied { ok := true }), .run {}, .run {}, .run {},
   .run {}, .run {}, .run {}, .wake .deleteRun, .run {}, .enter .startNext, .run {}, .run {}, .run {},
   .run {}, .enter .deadline, .run {}, .run {}, .enter (.answered 2 .copied { ok := true }), .run {}]

/-- Both are answered, in order, and the late answer changes nothing. -/
theorem answers_copyThenDeadline :
    ∃ c, (machine copyOnly).play ⟨{}, []⟩ copyThenDeadline = some c ∧ Answers c.state ∧
      numbers Event.answered? c.state.trace = [1, 2] := by
  have hplay : ((machine copyOnly).play ⟨{}, []⟩ copyThenDeadline).map
      (fun c => numbers Event.answered? c.state.trace) = some [1, 2] := by
    decide
  obtain ⟨c, hc, hnumbers⟩ := Option.map_eq_some_iff.mp hplay
  exact ⟨c, hc, (answers_of_reachable copyOnly (Machine.reachable_of_play rfl hc)).1, hnumbers⟩

end Speecher.TextDelivery
