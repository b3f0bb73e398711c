import Speecher.Output.DeliveryAnswers

/-!
# Paste keys go out only where they may, and the words stay on the clipboard

`PasteSafe` is about the trace of a delivery, at every moment of every run. Paste keys are requested
of a keyboard backend, and its last-moment gate is told that they may go out, only for a Target that
is not a secure field, and only where the last focus check of the run found focus unchanged, or the
run pastes blindly because its Target cannot be tracked. A receipt other than verified-in-target
finds the delivered words in the last clipboard write the run heard was accepted; a receipt that
says so (copied, or input sent) finds that there was one.

A run is one chain of steps, so at every moment at most one callback or pending call continues it
(`Paste.one`). Each is entitled to what the steps before it checked (`FitsCallback`, `FitsInstr`).
-/

namespace Speecher.TextDelivery

/-! ## Reading a trace -/

/-- The last focus check answered to the run under way. The trace is newest first. -/
def lastFocus : List Event → Option FocusMatch
  | [] => none
  | .focusFound focus :: _ => some focus
  | .started _ :: _ => none
  | _ :: es => lastFocus es

/-- The last clipboard write the run under way heard was accepted. -/
def lastWrite : List Event → Option Written
  | [] => none
  | .wrote what :: _ => some what
  | .started _ :: _ => none
  | _ :: es => lastWrite es

/-- The delivery pastes into whatever has focus: its Target cannot be tracked. -/
def Blind (env : Environment) (request : Request) : Prop :=
  (choosePasteMethod env.resolvePasteRule request.settings request.target).currentFocusFallback = true

/-- Paste keys may go out for a request, given the last focus check. -/
def MayPress (env : Environment) (request : Request) (focus : Option FocusMatch) : Prop :=
  request.target.secure = false ∧ (focus = some .same ∨ Blind env request)

/-- A receipt agrees with the last clipboard write. -/
def Receipted (request : Request) (result : DeliveryResult) (write : Option Written) : Prop :=
  result.receipt ≠ .verifiedInTarget →
    (∀ what, write = some what → what = .words request.content) ∧
    (result.receipt = .copied ∨ result.receipt = .inputSent → write = some (.words request.content))

/-- **What a delivery may do to the app in front and to the clipboard.** -/
def PasteSafe (env : Environment) : List Event → Prop
  | [] => True
  | e :: es =>
    (match e with
      | .keysRequested request | .keysCleared request => MayPress env request (lastFocus es)
      | .answered request result => Receipted request result (lastWrite es)
      | _ => True) ∧ PasteSafe env es

/-! ## What a run's continuations are entitled to -/

/-- A continuation of the run's own chain of steps; a gate's question is none. -/
def Callback.isMain : Callback → Bool
  | .gateFocus => false
  | _ => true

def Instr.isMain : Instr → Bool
  | .canInsertText | .insertText | .backendFactory _ | .preparePaste .. => true
  | _ => false

/-- No keyboard backend holds a gate. -/
def NoGate (r : Run) : Prop := r.gates = [] ∧ .gateFocus ∉ r.pending

/-- The words are on the clipboard, and a focus check or a blind paste may let the keys out. -/
def Ready (env : Environment) (r : Run) : Prop :=
  r.copiedInitially = true ∧ r.request.target.secure = false ∧
    (env.hasProvider = true ∨ Blind env r.request) ∧ NoGate r

def FitsCallback (env : Environment) (r : Run) : Callback → Prop
  | .focusChecked => NoGate r ∧ env.hasProvider = true
  | .captured | .copied => NoGate r
  | .restoredInserted verified => verified = true
  | .pasteFocus .. => Ready env r
  | .backendDone _ _ keys => r.copiedInitially = true ∧ (keys = false → Ready env r)
  | .pasteVerified .. => r.copiedInitially = true
  | .restoredPasted copied _ _ verified => copied = false ∧ verified = true
  | .insertionVerified | .gateFocus => True

def FitsInstr (env : Environment) (r : Run) (es : List Event) : Instr → Prop
  | .canInsertText | .insertText => NoGate r
  | .backendFactory _ => Ready env r
  | .preparePaste .. => Ready env r ∧ lastFocus es = some .same
  | _ => True

/-- What holds of a run at every moment. -/
@[mk_iff]
structure Safe (env : Environment) (r : Run) : Prop where
  choice : r.choice = choosePasteMethod env.resolvePasteRule r.request.settings r.request.target
  method : r.pasteMethod ≠ .clipboardOnly → r.pasteMethod = r.choice.method
  focused : r.targetFocused = true → env.hasProvider = true ∨ Blind env r.request
  gates : ∀ gated ∈ r.gates, r.request.target.secure = false ∧ (gated = false → Blind env r.request)
  gateFocus : .gateFocus ∈ r.pending → r.request.target.secure = false

/-- Only the words were written, and they were if the first copy said so. -/
def Words (r : Run) (es : List Event) : Prop :=
  (∀ what, lastWrite es = some what → what = .words r.request.content) ∧
    (r.copiedInitially = true → lastWrite es = some (.words r.request.content))

/-- How many continuations of the run's chain there are. -/
def mains (r : Run) (code : List Instr) : ℕ :=
  r.pending.countP Callback.isMain + code.countP Instr.isMain

/-- What a step of the run leaves. -/
structure Leads (env : Environment) (r : Run) (out : Out) : Prop where
  run : out.1.run = some r
  safe : Safe env r
  words : r.running = true → Words r out.1.trace
  pending : ∀ callback ∈ r.pending, FitsCallback env r callback
  code : ∀ i ∈ out.2, FitsInstr env r out.1.trace i
  one : mains r out.2 ≤ 1
  trace : PasteSafe env out.1.trace

def Continues (env : Environment) (out : Out) : Prop := ∃ r, Leads env r out

/-- A run at a step of its chain: nothing else continues it. -/
structure Idle (env : Environment) (r : Run) (s : State) : Prop where
  run : s.run = some r
  safe : Safe env r
  pending : ∀ callback ∈ r.pending, callback = .gateFocus
  trace : PasteSafe env s.trace

variable {env : Environment} {r : Run} {s : State}

theorem Idle.noMain (h : Idle env r s) : r.pending.countP Callback.isMain = 0 := by
  rw [List.countP_eq_zero]
  intro callback hm
  rw [h.pending callback hm]
  simp [Callback.isMain]

theorem Idle.mains (h : Idle env r s) {code : List Instr} (hc : code.countP Instr.isMain ≤ 1) :
    mains r code ≤ 1 := by
  have := h.noMain
  simp only [TextDelivery.mains]
  omega

theorem Idle.fits (h : Idle env r s) : ∀ callback ∈ r.pending, FitsCallback env r callback := by
  intro callback hm
  rw [h.pending callback hm]
  trivial

/-- The run stays as it is, and code is left that continues it at most once. -/
theorem Idle.code (h : Idle env r s) (hw : r.running = true → Words r s.trace) {code : List Instr}
    (hfit : ∀ i ∈ code, FitsInstr env r s.trace i) (hc : code.countP Instr.isMain ≤ 1) :
    Continues env (s, code) :=
  ⟨r, h.run, h.safe, hw, h.fits, hfit, h.mains hc, h.trace⟩

/-- Fields that no check reads changed. -/
theorem Idle.put (h : Idle env r s) {r' : Run} (hreq : r'.request = r.request)
    (hchoice : r'.choice = r.choice)
    (hmethod : r'.pasteMethod ≠ .clipboardOnly → r'.pasteMethod = r.pasteMethod)
    (hfocus : r'.targetFocused = true → env.hasProvider = true ∨ Blind env r.request)
    (hgates : r'.gates = r.gates) (hpending : r'.pending = r.pending) : Idle env r' (s.put r') := by
  refine ⟨rfl, ⟨?_, ?_, ?_, ?_, ?_⟩, ?_, h.trace⟩
  · rw [hreq, hchoice]
    exact h.safe.choice
  · intro hm
    rw [hchoice, hmethod hm]
    exact h.safe.method (by rwa [← hmethod hm])
  · rw [hreq]
    exact hfocus
  · rw [hreq, hgates]
    exact h.safe.gates
  · rw [hreq, hpending]
    exact h.safe.gateFocus
  · rw [hpending]
    exact h.pending

/-- An event that is no press and no answer. -/
theorem Idle.log (h : Idle env r s) {e : Event}
    (he : ∀ es, PasteSafe env es → PasteSafe env (e :: es)) : Idle env r (s.log e) :=
  ⟨h.run, h.safe, h.pending, he _ h.trace⟩

theorem FitsCallback.await {callback new : Callback} (hnew : new.isMain = true)
    (h : FitsCallback env r callback) :
    FitsCallback env { r with pending := new :: r.pending } callback := by
  have hgate : NoGate r → NoGate { r with pending := new :: r.pending } := by
    rintro ⟨hg, hp⟩
    refine ⟨hg, ?_⟩
    rintro hm
    rcases List.mem_cons.mp hm with rfl | hm
    · simp [Callback.isMain] at hnew
    · exact hp hm
  cases callback with
  | focusChecked => exact ⟨hgate h.1, h.2⟩
  | captured | copied => exact hgate h
  | pasteFocus => exact ⟨h.1, h.2.1, h.2.2.1, hgate h.2.2.2⟩
  | backendDone => exact ⟨h.1, fun hk => ⟨(h.2 hk).1, (h.2 hk).2.1, (h.2 hk).2.2.1, hgate (h.2 hk).2.2.2⟩⟩
  | restoredInserted | pasteVerified | restoredPasted => exact h
  | insertionVerified | gateFocus => trivial

/-- A callback of the run's chain is handed out. -/
theorem Idle.await (h : Idle env r s) (hw : r.running = true → Words r s.trace) {callback : Callback}
    (hmain : callback.isMain = true) (hfit : FitsCallback env r callback) :
    Continues env (await callback r s) := by
  refine ⟨{ r with pending := callback :: r.pending }, rfl, ⟨h.safe.choice, h.safe.method,
    h.safe.focused, h.safe.gates, fun hm => ?_⟩, hw, fun cb hm => ?_, by simp [TextDelivery.await, FitsInstr],
    ?_, h.trace⟩
  · rcases List.mem_cons.mp hm with rfl | hm
    · simp [Callback.isMain] at hmain
    · exact h.safe.gateFocus hm
  · rcases List.mem_cons.mp hm with rfl | hm
    · exact hfit.await hmain
    · rw [h.pending cb hm]
      trivial
  · simp [TextDelivery.mains, TextDelivery.await, hmain, Instr.isMain, h.noMain]

/-- The run answers, where its receipt agrees with what was written. -/
theorem Idle.finish (h : Idle env r s) {result : DeliveryResult}
    (hres : r.running = true → Receipted r.request result (lastWrite s.trace)) :
    Continues env (finish result r s) := by
  unfold TextDelivery.finish
  split
  · rename_i hr
    exact ⟨_, rfl, ⟨h.safe.choice, h.safe.method, h.safe.focused, h.safe.gates, h.safe.gateFocus⟩,
      by simp, h.fits, by simp [answer, FitsInstr], h.mains (by simp [answer, Instr.isMain]), hres hr, h.trace⟩
  · rename_i hr
    exact h.code (fun h => absurd h hr) (by simp) (by simp)

/-- The frame a step ran in is left after it. -/
theorem Continues.framed {out : Out} (h : Continues env out) :
    Continues env (out.1, out.2 ++ [.endFrame]) := by
  obtain ⟨r, hl⟩ := h
  refine ⟨r, hl.run, hl.safe, hl.words, hl.pending, fun i hi => ?_, ?_, hl.trace⟩
  · rcases List.mem_append.mp hi with hi | hi
    · exact hl.code i hi
    · rw [List.mem_singleton.mp hi]
      trivial
  · simpa [mains, List.countP_append, Instr.isMain] using hl.one

/-- A step in a frame of its own. -/
theorem Idle.whileRunning (h : Idle env r s) {step : Step}
    (hstep : r.running = true → Idle env { r with frames := r.frames + 1 }
        (s.put { r with frames := r.frames + 1 }) →
      Continues env (step { r with frames := r.frames + 1 } (s.put { r with frames := r.frames + 1 }))) :
    Continues env (whileRunning step r s) := by
  unfold TextDelivery.whileRunning
  split
  · rename_i hr
    exact (hstep hr (h.put rfl rfl (fun _ => rfl) h.safe.focused rfl rfl)).framed
  · rename_i hr
    exact h.code (fun h => absurd h hr) (by simp) (by simp)

/-! ## Each step of the chain -/

/-- A receipt that promises nothing about a verified paste, with the words on the clipboard. -/
theorem Words.receipted {es : List Event} (h : Words r es) (hc : r.copiedInitially = true)
    (result : DeliveryResult) : Receipted r.request result (lastWrite es) :=
  fun _ => ⟨h.1, fun _ => h.2 hc⟩

/-- One that promises nothing about the clipboard. -/
theorem Words.receipted_of_ne {es : List Event} (h : Words r es) {result : DeliveryResult}
    (h1 : result.receipt ≠ .copied) (h2 : result.receipt ≠ .inputSent) :
    Receipted r.request result (lastWrite es) :=
  fun _ => ⟨h.1, fun hr => (hr.elim h1 h2).elim⟩

theorem Idle.finishCopied (h : Idle env r s) (hw : r.running = true → Words r s.trace)
    (hc : r.copiedInitially = true) : Continues env (finishCopied r s) :=
  h.finish fun hr => (hw hr).receipted hc _

theorem Idle.answerInserted (h : Idle env r s) {verified : Bool}
    (hw : verified = false → r.running = true → Words r s.trace) :
    Continues env (answerInserted verified r s) := by
  refine h.finish fun hr => ?_
  cases verified with
  | true => exact fun hne => absurd rfl hne
  | false => exact (hw rfl hr).receipted_of_ne (by simp) (by simp)

theorem Idle.answerPasted (h : Idle env r s) {copied downgraded keys verified restored : Bool}
    (hc : verified = true → copied = false)
    (hw : verified = false → r.copiedInitially = true ∧ (r.running = true → Words r s.trace)) :
    Continues env (answerPasted copied downgraded keys verified restored r s) := by
  refine h.finish fun hr => ?_
  cases verified with
  | true =>
    rw [hc rfl]
    exact fun hne => absurd rfl hne
  | false => exact ((hw rfl).2 hr).receipted (hw rfl).1 _

theorem Idle.restore (h : Idle env r s) (hw : r.running = true → Words r s.trace) (callback : Callback)
    (hmain : callback.isMain = true) (hfit : FitsCallback env r callback) {next : Step}
    (hnext : r.running = true → Idle env { r with frames := r.frames + 1 }
        (s.put { r with frames := r.frames + 1 }) →
      Continues env (next { r with frames := r.frames + 1 } (s.put { r with frames := r.frames + 1 }))) :
    Continues env (restore callback next r s) := by
  unfold TextDelivery.restore
  split
  · exact h.await hw hmain hfit
  · exact h.whileRunning hnext

theorem Idle.insertedDirectly (h : Idle env r s) (hw : r.running = true → Words r s.trace)
    (verified : Bool) : Continues env (insertedDirectly verified r s) := by
  unfold TextDelivery.insertedDirectly
  split
  · rename_i hv
    have hv : verified = true := ((Bool.and_eq_true _ _).mp hv).2
    exact h.restore hw (.restoredInserted verified) rfl hv fun _ h => h.answerInserted fun hf => absurd (hv.symm.trans hf) (by simp)
  · exact h.answerInserted fun _ => hw

theorem Idle.answerPaste (h : Idle env r s) (hw : r.running = true → Words r s.trace)
    {copied downgraded keys verified : Bool} (hc : r.copiedInitially = true)
    (hv : verified = true → copied = false) :
    Continues env (answerPaste copied downgraded keys verified r s) := by
  unfold TextDelivery.answerPaste
  split
  · rename_i hkv
    have hverified : verified = true := ((Bool.and_eq_true _ _).mp hkv).2
    exact h.restore hw (.restoredPasted copied downgraded keys verified) rfl ⟨hv hverified, hverified⟩ fun _ h =>
      h.answerPasted hv fun hf => absurd (hverified.symm.trans hf) (by simp)
  · exact h.answerPasted hv fun _ => ⟨hc, hw⟩

theorem Idle.pasted (h : Idle env r s) (hw : r.running = true → Words r s.trace)
    (hc : r.copiedInitially = true) (method : String) (keys html : Bool) :
    Continues env (pasted env method keys html r s) := by
  unfold TextDelivery.pasted
  dsimp only
  split
  · exact h.answerPaste hw hc (by simp)
  · exact h.await hw rfl hc

/-- A backend delivers; a keyboard backend does where the keys may go out. -/
theorem Idle.pressThrough (h : Idle env r s) (hw : r.running = true → Words r s.trace) {index : Nat}
    {method : String} {keys gated : Bool} (hready : Ready env r)
    (hpress : keys = true → MayPress env r.request (lastFocus s.trace) ∧
      (gated = false → Blind env r.request)) :
    Continues env (pressThrough index method keys gated r s) := by
  unfold TextDelivery.pressThrough
  split
  · rename_i hkeys
    obtain ⟨hmay, hblind⟩ := hpress hkeys
    have h' : Idle env { r with gates := gated :: r.gates }
        ((s.log (.keysRequested r.request)).put { r with gates := gated :: r.gates }) := by
      refine ⟨rfl, ⟨h.safe.choice, h.safe.method, h.safe.focused, ?_, h.safe.gateFocus⟩, h.pending,
        hmay, h.trace⟩
      intro g hg
      rcases List.mem_cons.mp hg with rfl | hg
      · exact ⟨hmay.1, hblind⟩
      · exact h.safe.gates g hg
    exact h'.await hw rfl ⟨hready.1, by simp⟩
  · exact h.await hw rfl ⟨hready.1, fun _ => hready⟩

theorem Idle.pasteThroughBackend (h : Idle env r s) (hw : r.running = true → Words r s.trace)
    (hready : Ready env r) (index : Nat) : Continues env (pasteThroughBackend index r s) := by
  unfold TextDelivery.pasteThroughBackend
  split
  · exact h.code hw (by simpa [FitsInstr] using hready) (by simp [Instr.isMain])
  · exact h.finishCopied hw hready.1

theorem Idle.throughBackend (h : Idle env r s) (hw : r.running = true → Words r s.trace)
    (hready : Ready env r) (index : Nat) : Continues env (throughBackend env index r s) := by
  unfold TextDelivery.throughBackend
  dsimp only
  split
  · exact h.await hw rfl hready
  · rename_i hgated
    refine h.pressThrough hw hready fun hkeys => ?_
    -- Not gated, so there is no provider or the paste is blind, and without one it is blind too.
    have hblind : Blind env r.request := by
      rcases hready.2.2.1 with hp | hblind
      · have : r.choice.currentFocusFallback = true := by
          rw [hkeys, hp] at hgated
          simpa using hgated
        rwa [h.safe.choice] at this
      · exact hblind
    exact ⟨⟨hready.2.1, .inr hblind⟩, fun _ => hblind⟩

theorem Idle.pastePrepared (h : Idle env r s) (hw : r.running = true → Words r s.trace)
    (hready : Ready env r) (index : Nat) (method : String) {refusal : String}
    (hfocus : refusal = "" → lastFocus s.trace = some .same) :
    Continues env (pastePrepared index method refusal r s) := by
  unfold TextDelivery.pastePrepared
  split
  · exact Idle.finishCopied (h.put rfl rfl (fun _ => rfl) h.safe.focused rfl rfl) hw hready.1
  · rename_i hrefusal
    exact h.pressThrough hw hready fun _ =>
      ⟨⟨hready.2.1, .inl (hfocus (by simpa using hrefusal))⟩, by simp⟩

theorem Idle.pasteFocusChecked (h : Idle env r s) (hw : r.running = true → Words r s.trace)
    (hready : Ready env r) (index : Nat) (method : String) {focus : FocusMatch}
    (hfocus : lastFocus s.trace = some focus) :
    Continues env (pasteFocusChecked index method focus r s) := by
  unfold TextDelivery.pasteFocusChecked
  split
  · refine h.whileRunning fun _ h => h.pastePrepared hw hready index method fun hempty => ?_
    revert hempty
    split
    · simp
    · split <;> simp
  · rename_i hsame
    have hsame : focus = .same := by simpa using hsame
    exact h.code hw (by simpa [FitsInstr] using ⟨hready, hsame ▸ hfocus⟩) (by simp [Instr.isMain])

theorem Idle.pasteUnlessOnlyInserting (h : Idle env r s) (hw : r.running = true → Words r s.trace)
    (hc : r.copiedInitially = true) (hgate : NoGate r) (error : String) :
    Continues env (pasteUnlessOnlyInserting env error r s) := by
  unfold TextDelivery.pasteUnlessOnlyInserting
  split
  · exact h.finish fun hr => (hw hr).receipted hc _
  · split
    · refine Idle.finish ?_ fun hr => (hw hr).receipted hc _
      exact h.put rfl rfl (by simp) h.safe.focused rfl rfl
    · rename_i hmethod
      -- A paste method is left, so the Target has focus and is not a secure field.
      have hpaste : r.pasteMethod ≠ .clipboardOnly ∧ r.targetFocused = true := by
        unfold methodInFocus at hmethod
        split at hmethod
        · simp at hmethod
        · split at hmethod
          · simp at hmethod
          · exact ⟨hmethod, by simp_all⟩
      have hsecure : r.request.target.secure = false := by
        by_contra hs
        have := choosePasteMethod_secure env.resolvePasteRule r.request.settings (by simpa using hs)
        rw [← h.safe.choice, ← h.safe.method hpaste.1] at this
        exact hpaste.1 this
      refine Idle.pasteThroughBackend ?_ ?_ ?_ 0
      · exact h.put rfl rfl (fun _ => rfl) h.safe.focused rfl rfl
      · exact hw
      · exact ⟨hc, hsecure, h.safe.focused hpaste.2, hgate⟩

theorem Idle.notInserted (h : Idle env r s) (hw : r.running = true → Words r s.trace) (hgate : NoGate r)
    (error : String) : Continues env (notInserted env error r s) := by
  unfold TextDelivery.notInserted
  split
  · exact h.finish fun hr => (hw hr).receipted_of_ne (by simp) (by simp)
  · rename_i hc
    exact h.pasteUnlessOnlyInserting hw (by simpa using hc) hgate error

theorem Idle.insertOrPaste (h : Idle env r s) (hw : r.running = true → Words r s.trace)
    (hgate : NoGate r) : Continues env (insertOrPaste env r s) := by
  unfold TextDelivery.insertOrPaste
  split
  · exact h.code hw (by simpa [FitsInstr] using hgate) (by simp [Instr.isMain])
  · exact h.notInserted hw hgate ""

theorem Idle.copied (h : Idle env r s) (hw : r.running = true → Words r s.trace) (hgate : NoGate r)
    (a : Answer) : Continues env (copied env a r s) := by
  unfold TextDelivery.copied
  dsimp only
  split
  · rename_i ha
    have h' := (h.log (e := .wrote (.words r.request.content)) fun _ h => ⟨trivial, h⟩)
    exact Idle.insertOrPaste (h'.put rfl rfl (fun _ => rfl) h.safe.focused rfl rfl) (fun _ => ⟨by rintro _ ⟨⟩; rfl, fun _ => rfl⟩) hgate
  · rename_i ha
    exact Idle.insertOrPaste (h.put rfl rfl (fun _ => rfl) h.safe.focused rfl rfl) (fun hr => ⟨(hw hr).1, fun hc => absurd hc ha⟩) hgate

theorem Idle.copy (h : Idle env r s) (hw : r.running = true → Words r s.trace) (hgate : NoGate r) :
    Continues env (copy r s) :=
  h.await hw rfl hgate

theorem Idle.save (h : Idle env r s) (hw : r.running = true → Words r s.trace) (hgate : NoGate r)
    (wanted canSnapshot : Bool) : Continues env (save wanted canSnapshot r s) := by
  unfold TextDelivery.save
  split
  · exact h.whileRunning fun _ h => h.copy hw hgate
  · split
    · refine Idle.whileRunning ?_ fun _ h => h.copy hw hgate
      exact h.put rfl rfl (fun _ => rfl) h.safe.focused rfl rfl
    · exact h.await hw rfl hgate

theorem Idle.captured (h : Idle env r s) (hw : r.running = true → Words r s.trace) (hgate : NoGate r)
    (a : Answer) : Continues env (captured a r s) := by
  unfold TextDelivery.captured
  dsimp only
  split
  · refine Idle.whileRunning ?_ fun _ h => h.copy hw hgate
    exact h.put rfl rfl (fun _ => rfl) h.safe.focused rfl rfl
  · refine Idle.whileRunning ?_ fun _ h => h.copy hw hgate
    exact h.put rfl rfl (fun _ => rfl) h.safe.focused rfl rfl

theorem Idle.focusChecked (h : Idle env r s) (hw : r.running = true → Words r s.trace)
    (hgate : NoGate r) {focus : FocusMatch} (hfocus : focus = .same → env.hasProvider = true)
    (canSnapshot : Bool) : Continues env (focusChecked focus canSnapshot r s) := by
  unfold TextDelivery.focusChecked
  refine Idle.save ?_ ?_ ?_ _ canSnapshot
  rotate_left
  · exact hw
  · exact hgate
  refine h.put rfl rfl (fun _ => rfl) (fun hf => ?_) rfl rfl
  simp only [Bool.and_eq_true, Bool.or_eq_true, decide_eq_true_eq] at hf
  rcases hf.2 with hblind | hsame
  · rw [h.safe.choice] at hblind
    exact .inr hblind
  · exact .inl (hfocus hsame)

theorem noteRestored_cases (a : Answer) (r : Run) :
    noteRestored a r = r ∨
      (∃ note, noteRestored a r = { r with clipboardNote := note }) ∨
      ∃ warning, noteRestored a r = { r with clipboardWarning := warning } := by
  unfold noteRestored
  split
  · split
    · exact .inr (.inl ⟨_, rfl⟩)
    · exact .inl rfl
  · exact .inr (.inr ⟨_, rfl⟩)

theorem Idle.noteRestored (h : Idle env r s) (a : Answer) :
    Idle env (noteRestored a r) (s.put (noteRestored a r)) := by
  obtain heq | ⟨note, heq⟩ | ⟨warning, heq⟩ := noteRestored_cases a r <;>
    rw [heq] <;> exact h.put rfl rfl (fun _ => rfl) h.safe.focused rfl rfl

/-- A restore's answer ends the run, whatever was written back. -/
theorem Idle.restored (h : Idle env r s) (a : Answer) {next : Step}
    (hnext : ∀ r s, Idle env r s → Continues env (next r s)) :
    Continues env (restored a (TextDelivery.whileRunning next) r s) := by
  have hlog : Idle env r (if a.ok && !a.keptNewerCopy then s.log (.wrote .previous) else s) := by
    split
    · exact h.log fun _ h => ⟨trivial, h⟩
    · exact h
  exact (hlog.noteRestored a).whileRunning fun _ h => hnext _ _ h

theorem Words.log {es : List Event} (h : Words r es) {e : Event} (he : lastWrite (e :: es) = lastWrite es) :
    Words r (e :: es) := by
  rwa [Words, he]

/-- **A continuation of the run's chain** is answered. -/
theorem Idle.hear (h : Idle env r s) (hw : r.running = true → Words r s.trace) (reply : Reply)
    (a : Answer) {callback : Callback} (hmain : callback.isMain = true)
    (hfit : FitsCallback env r callback) : Continues env (hear env reply a callback r s) := by
  cases callback with
  | gateFocus => simp [Callback.isMain] at hmain
  | focusChecked =>
    simp only [TextDelivery.hear]
    refine h.whileRunning fun _ h => ?_
    exact (h.log fun _ h => ⟨trivial, h⟩).focusChecked (fun hr => (hw hr).log rfl) hfit.1 (fun _ => hfit.2) _
  | captured => exact h.captured hw hfit a
  | copied => exact h.whileRunning fun _ h => h.copied hw hfit a
  | insertionVerified => exact h.whileRunning fun _ h => h.insertedDirectly hw a.ok
  | restoredInserted verified =>
    exact h.restored a fun r s h => h.answerInserted fun hf => absurd (hfit.symm.trans hf) (by simp)
  | pasteFocus index method =>
    simp only [TextDelivery.hear]
    refine h.whileRunning fun _ h => ?_
    exact (h.log fun _ h => ⟨trivial, h⟩).pasteFocusChecked (fun hr => (hw hr).log rfl) hfit index method rfl
  | backendDone index method keys =>
    simp only [TextDelivery.hear]
    refine h.whileRunning fun _ h => ?_
    dsimp only
    split
    · split
      · exact h.pasted hw hfit.1 ..
      · refine Idle.pasted (h.log fun _ h => ⟨trivial, h⟩) ?_ hfit.1 ..
        exact fun _ => ⟨by rintro _ ⟨⟩; rfl, fun _ => rfl⟩
    · split
      · refine Idle.finishCopied ?_ ?_ ?_
        · exact h.put rfl rfl (fun _ => rfl) h.safe.focused rfl rfl
        · exact hw
        · exact hfit.1
      · rename_i hkeys
        refine Idle.pasteThroughBackend ?_ ?_ ?_ index
        · exact h.put rfl rfl (fun _ => rfl) h.safe.focused rfl rfl
        · exact hw
        · exact hfit.2 (by simpa using hkeys)
  | pasteVerified downgraded keys =>
    exact h.whileRunning fun _ h => h.answerPaste hw hfit fun _ => rfl
  | restoredPasted copied downgraded keys verified =>
    exact h.restored a fun r s h => h.answerPasted (fun _ => hfit.1) fun hf =>
      absurd (hfit.2.symm.trans hf) (by simp)

/-! ## Beside the chain -/

/-- A run before and after what changes none of its chain's findings; at most a gate's question is
handed out, where a gate was. -/
structure Alike (r r' : Run) : Prop where
  request : r'.request = r.request
  choice : r'.choice = r.choice
  pasteMethod : r'.pasteMethod = r.pasteMethod
  targetFocused : r'.targetFocused = r.targetFocused
  gates : r'.gates = r.gates
  copiedInitially : r'.copiedInitially = r.copiedInitially
  pending : ∀ callback ∈ r'.pending, callback ∈ r.pending ∨
    (callback = .gateFocus ∧ r.gates ≠ [] ∧ r.request.target.secure = false)
  mains : r'.pending.countP Callback.isMain ≤ r.pending.countP Callback.isMain
  running : r'.running = true → r.running = true

theorem Alike.refl (r : Run) : Alike r r :=
  ⟨rfl, rfl, rfl, rfl, rfl, rfl, fun _ h => .inl h, Nat.le_refl _, id⟩

theorem Alike.noGate {r' : Run} (h : Alike r r') (hg : NoGate r) : NoGate r' := by
  refine ⟨h.gates.trans hg.1, fun hm => ?_⟩
  rcases h.pending _ hm with hm | ⟨-, hne, -⟩
  · exact hg.2 hm
  · exact hne hg.1

theorem Alike.ready {r' : Run} (h : Alike r r') (hr : Ready env r) : Ready env r' := by
  refine ⟨h.copiedInitially.trans hr.1, ?_, ?_, h.noGate hr.2.2.2⟩
  · rw [h.request]
    exact hr.2.1
  · rw [h.request]
    exact hr.2.2.1

theorem Alike.fitsCallback {r' : Run} (h : Alike r r') {callback : Callback}
    (hf : FitsCallback env r callback) : FitsCallback env r' callback := by
  cases callback with
  | focusChecked => exact ⟨h.noGate hf.1, hf.2⟩
  | captured | copied => exact h.noGate hf
  | pasteFocus => exact h.ready hf
  | backendDone => exact ⟨h.copiedInitially.trans hf.1, fun hk => h.ready (hf.2 hk)⟩
  | pasteVerified => exact h.copiedInitially.trans hf
  | restoredInserted | restoredPasted => exact hf
  | insertionVerified | gateFocus => trivial

theorem Alike.fitsInstr {r' : Run} (h : Alike r r') {es es' : List Event}
    (hfocus : NoGate r → lastFocus es' = lastFocus es) {i : Instr} (hf : FitsInstr env r es i) :
    FitsInstr env r' es' i := by
  cases i with
  | canInsertText | insertText => exact h.noGate hf
  | backendFactory => exact h.ready hf
  | preparePaste => exact ⟨h.ready hf.1, (hfocus hf.1.2.2.2).trans hf.2⟩
  | _ => trivial

theorem Alike.safe {r' : Run} (h : Alike r r') (hs : Safe env r) : Safe env r' := by
  refine ⟨?_, ?_, ?_, ?_, fun hm => ?_⟩
  · rw [h.choice, h.request]
    exact hs.choice
  · rw [h.pasteMethod, h.choice]
    exact hs.method
  · rw [h.targetFocused, h.request]
    exact hs.focused
  · rw [h.gates, h.request]
    exact hs.gates
  · rw [h.request]
    rcases h.pending _ hm with hm | ⟨-, -, hsecure⟩
    · exact hs.gateFocus hm
    · exact hsecure

/-- What runs beside the chain leaves its continuations entitled to what they were. -/
theorem Leads.beside {i : Instr} {k code : List Instr} {s' : State} {r' : Run}
    (h : Leads env r (s, i :: k)) (hr : s'.run = some r') (halike : Alike r r')
    (hfocus : NoGate r → lastFocus s'.trace = lastFocus s.trace)
    (hwrite : r'.running = true → lastWrite s'.trace = lastWrite s.trace)
    (hcode : ∀ j ∈ code, j.isMain = false) (htrace : PasteSafe env s'.trace) :
    Leads env r' (s', code ++ k) := by
  refine ⟨hr, halike.safe h.safe, fun hrun => ?_, fun callback hm => ?_, fun j hj => ?_, ?_, htrace⟩
  · obtain ⟨h1, h2⟩ := h.words (halike.running hrun)
    simp only [Words, hwrite hrun, halike.request, halike.copiedInitially]
    exact ⟨h1, h2⟩
  · rcases halike.pending callback hm with hm | ⟨rfl, -⟩
    · exact halike.fitsCallback (h.pending callback hm)
    · trivial
  · rcases List.mem_append.mp hj with hj | hj
    · have := hcode j hj
      cases j <;> simp_all [Instr.isMain, FitsInstr]
    · exact halike.fitsInstr hfocus (h.code j (List.mem_cons_of_mem _ hj))
  · have hone := h.one
    have hzero : code.countP Instr.isMain = 0 := List.countP_eq_zero.mpr fun j hj => by simp [hcode j hj]
    have hm := halike.mains
    simp only [TextDelivery.mains, List.countP_append, List.countP_cons] at hone ⊢
    omega

/-- Where the run's chain was continued, nothing below continues it. -/
theorem Continues.over {out : Out} (h : Continues env out) {k : List Instr}
    (hk : ∀ j ∈ k, j.isMain = false) : Continues env (out.1, out.2 ++ k) := by
  obtain ⟨r, hl⟩ := h
  refine ⟨r, hl.run, hl.safe, hl.words, hl.pending, fun i hi => ?_, ?_, hl.trace⟩
  · rcases List.mem_append.mp hi with hi | hi
    · exact hl.code i hi
    · have := hk i hi
      cases i <;> simp_all [Instr.isMain, FitsInstr]
  · have hzero : k.countP Instr.isMain = 0 := List.countP_eq_zero.mpr fun j hj => by simp [hk j hj]
    have := hl.one
    simp only [mains, List.countP_append] at this ⊢
    omega

/-! ## Runs -/

/-- The invariant of a delivery's presses and clipboard. -/
structure Paste (env : Environment) (c : Config State Instr) : Prop where
  trace : PasteSafe env c.state.trace
  run : ∀ r, c.state.run = some r → Leads env r (c.state, c.code)
  noRun : c.state.alive = true → c.state.run = none → ∀ i ∈ c.code, i.isMain = false

/-- The instructions below a continuation of the chain. -/
theorem Leads.below {i : Instr} {k : List Instr} (h : Leads env r (s, i :: k)) (hi : i.isMain = true) :
    Idle env r s ∧ (∀ j ∈ k, j.isMain = false) := by
  have hone := h.one
  simp only [mains, List.countP_cons, hi, if_true] at hone
  have h1 : r.pending.countP Callback.isMain = 0 := by omega
  have h2 : k.countP Instr.isMain = 0 := by omega
  refine ⟨⟨h.run, h.safe, fun callback hm => ?_, h.trace⟩, fun j hj => ?_⟩
  · have := List.countP_eq_zero.mp h1 callback hm
    cases callback <;> simp_all [Callback.isMain]
  · simpa using List.countP_eq_zero.mp h2 j hj

theorem Leads.paste {code : List Instr} (h : Leads env r (s, code)) : Paste env ⟨s, code⟩ where
  trace := h.trace
  run r' hr := by
    obtain rfl : r = r' := Option.some.inj (h.run.symm.trans hr)
    exact h
  noRun _ hr := by
    have := h.run.symm.trans hr
    cases this

/-- Nothing of the run changed, and the instruction in front is gone. -/
theorem Leads.tail {i : Instr} {k : List Instr} (h : Leads env r (s, i :: k)) : Leads env r (s, k) :=
  show Leads env r (s, [] ++ k) from
    h.beside h.run (Alike.refl r) (fun _ => rfl) (fun _ => rfl) (by simp) h.trace

/-- A run that no longer waits only notes what became of the previous clipboard. -/
theorem hear_stopped (env : Environment) (hs : s.run = some r) (hr : r.running = false) (reply : Reply) (a : Answer)
    (callback : Callback) :
    ∃ r', (hear env reply a callback r s).1.run = some r' ∧ Alike r r' ∧ r'.running = false ∧
      lastFocus (hear env reply a callback r s).1.trace = lastFocus s.trace ∧
      (PasteSafe env s.trace → PasteSafe env (hear env reply a callback r s).1.trace) ∧
      ∀ j ∈ (hear env reply a callback r s).2, j.isMain = false := by
  have stays : ∀ step : Step, whileRunning step r s = (s, []) := fun step => by
    simp [whileRunning, hr]
  have restored : ∀ next : Step, ∃ r', (restored a (whileRunning next) r s).1.run = some r' ∧
      Alike r r' ∧ r'.running = false ∧
      lastFocus (TextDelivery.restored a (whileRunning next) r s).1.trace = lastFocus s.trace ∧
      (PasteSafe env s.trace → PasteSafe env (TextDelivery.restored a (whileRunning next) r s).1.trace) ∧
      ∀ j ∈ (TextDelivery.restored a (whileRunning next) r s).2, j.isMain = false := by
    intro next
    have hnote : Alike r (noteRestored a r) ∧ (noteRestored a r).running = false := by
      obtain heq | ⟨note, heq⟩ | ⟨warning, heq⟩ := noteRestored_cases a r <;> rw [heq]
      · exact ⟨Alike.refl r, hr⟩
      · exact ⟨⟨rfl, rfl, rfl, rfl, rfl, rfl, fun _ h => .inl h, Nat.le_refl _, id⟩, hr⟩
      · exact ⟨⟨rfl, rfl, rfl, rfl, rfl, rfl, fun _ h => .inl h, Nat.le_refl _, id⟩, hr⟩
    refine ⟨noteRestored a r, ?_⟩
    simp only [TextDelivery.restored, whileRunning, hnote.2, Bool.false_eq_true, if_false]
    refine ⟨rfl, hnote.1, trivial, ?_, ?_, by simp⟩
    · split <;> rfl
    · split
      · exact fun h => ⟨trivial, h⟩
      · exact id
  cases callback with
  | restoredInserted verified => exact restored _
  | restoredPasted copied downgraded keys verified => exact restored _
  | captured =>
    simp only [hear, captured]
    split <;> simp only [whileRunning, hr, Bool.false_eq_true, if_false] <;>
      exact ⟨_, rfl, ⟨rfl, rfl, rfl, rfl, rfl, rfl, fun _ h => .inl h, Nat.le_refl _, by simp⟩, rfl, rfl,
        id, by simp⟩
  | gateFocus =>
    simp only [hear, hr, Bool.false_eq_true, if_false]
    exact ⟨r, hs, Alike.refl r, hr, trivial, id, by simp [Instr.isMain]⟩
  | focusChecked | copied | insertionVerified | pasteFocus | backendDone | pasteVerified =>
    simp only [hear, stays]
    exact ⟨r, hs, Alike.refl r, hr, trivial, id, by simp⟩

theorem alike_erase (r : Run) (callback : Callback) :
    Alike r { r with pending := r.pending.erase callback } :=
  ⟨rfl, rfl, rfl, rfl, rfl, rfl, fun _ h => .inl (List.mem_of_mem_erase h),
    (List.erase_sublist).countP_le, id⟩

theorem Leads.answered {id : Nat} {callback : Callback} {a : Answer} {k : List Instr} (reply : Reply)
    (h : Leads env r (s, .answered id callback a :: k)) (hheld : r.running = true → callback ∈ r.pending) :
    Continues env
      ((hear env reply a callback { r with pending := r.pending.erase callback }
        (s.put { r with pending := r.pending.erase callback })).1,
      (hear env reply a callback { r with pending := r.pending.erase callback }
        (s.put { r with pending := r.pending.erase callback })).2 ++ k) := by
  have halike := alike_erase r callback
  -- The callback is gone from the run before anything else is.
  have h' : Leads env { r with pending := r.pending.erase callback }
      (s.put { r with pending := r.pending.erase callback }, [.call] ++ k) :=
    h.beside rfl halike (fun _ => rfl) (fun _ => rfl) (by simp [Instr.isMain]) h.trace
  rcases Bool.eq_false_or_eq_true r.running with hr | hr
  rotate_left
  · obtain ⟨r', hrun, halike', hr', hfocus, htrace, hcode⟩ := hear_stopped env
      (s := s.put { r with pending := r.pending.erase callback }) rfl hr reply a callback
    exact ⟨r', h'.beside hrun halike' (fun _ => hfocus)
      (fun hrun' => absurd (hr'.symm.trans hrun') (by simp)) hcode (htrace h'.trace)⟩
  · have hmem := hheld hr
    cases hmain : callback.isMain with
    | true =>
      have hone := h.one
      have hcount := (List.perm_cons_erase hmem).countP_eq Callback.isMain
      simp only [List.countP_cons, hmain, if_true] at hcount
      simp only [mains, List.countP_cons, Instr.isMain] at hone
      have hk : ∀ j ∈ k, j.isMain = false := fun j hj => by
        have := List.countP_eq_zero.mp (by omega : k.countP Instr.isMain = 0) j hj
        simpa using this
      have hidle : Idle env { r with pending := r.pending.erase callback }
          (s.put { r with pending := r.pending.erase callback }) := by
        refine ⟨rfl, h'.safe, fun cb hm => ?_, h'.trace⟩
        have := List.countP_eq_zero.mp (by omega : (r.pending.erase callback).countP Callback.isMain = 0) cb hm
        cases cb <;> simp_all [Callback.isMain]
      exact (hidle.hear h'.words reply a hmain (halike.fitsCallback (h.pending callback hmem))).over hk
    | false =>
      obtain rfl : callback = .gateFocus := by
        cases callback <;> simp_all [Callback.isMain]
      have hsecure := h.safe.gateFocus hmem
      -- A gate's question was out, so no continuation relies on the focus found before.
      have hgate : ¬NoGate r := fun hg => hg.2 hmem
      simp only [TextDelivery.hear]
      rw [if_pos hr]
      split
      · rename_i hsame
        refine ⟨_, h.beside rfl halike (fun hg => absurd hg hgate) (fun _ => rfl) (by simp [Instr.isMain]) ?_⟩
        exact ⟨⟨hsecure, .inl (by simp [State.log, lastFocus, hsame])⟩, trivial, h.trace⟩
      · exact ⟨_, h.beside rfl halike (fun hg => absurd hg hgate) (fun _ => rfl) (by simp [Instr.isMain])
          ⟨trivial, h.trace⟩⟩

theorem Leads.gate {id : Nat} {gated : Bool} {k : List Instr}
    (h : Leads env r (s, .gate id gated :: k)) (hheld : gated ∈ r.gates) :
    Continues env ((askGate gated r s).1, (askGate gated r s).2 ++ k) := by
  obtain ⟨hsecure, hblind⟩ := h.safe.gates gated hheld
  unfold askGate
  split
  · exact ⟨r, h.beside h.run (Alike.refl r) (fun _ => rfl) (fun _ => rfl) (by simp [Instr.isMain]) h.trace⟩
  · rename_i hr
    have hr : r.running = true := by simpa using hr
    split
    · rename_i hgated
      exact ⟨r, h.beside h.run (Alike.refl r) (fun _ => rfl) (fun _ => rfl) (by simp [Instr.isMain])
        ⟨⟨hsecure, .inr (hblind hgated)⟩, h.trace⟩⟩
    · have hne : r.gates ≠ [] := fun hg => by simp [hg] at hheld
      simp only [whileRunning, hr, if_true, await]
      refine ⟨_, h.beside rfl ⟨rfl, rfl, rfl, rfl, rfl, rfl, fun cb hm => ?_, ?_, fun _ => hr⟩
        (fun _ => rfl) (fun _ => rfl) (by simp [Instr.isMain]) h.trace⟩
      · rcases List.mem_cons.mp hm with rfl | hm
        · exact .inr ⟨rfl, hne, hsecure⟩
        · exact .inl hm
      · simp [Callback.isMain]

/-- A delivery through the virtual keyboard. -/
def keyboard : Environment := ⟨.other, fun _ _ => {}, true⟩

end Speecher.TextDelivery
