import Speecher.Foundations.Machine
import Speecher.Output.PasteRules

/-!
# Text delivery

`TextDelivery` works the deliveries it is asked for one at a time, in order. Each is a `Run`: it
checks the Target's focus, saves the previous clipboard, copies the words, then inserts them
straight into the app or presses the paste keys through a backend, and puts the previous clipboard
back after a verified paste. Every step that waits on a helper goes on from a callback the helper
holds. A run answers once, from one of its steps or from its deadline; it is deleted by the event
loop once none of its frames is on the stack, and only then does the next start.

The delivery is modelled as a re-entrant machine (`TextDelivery.machine`). Each instruction is the
source's code between two calls into foreign code, and each callback carries the local variables it
captures. The environment may answer a callback inside the call it was handed to or any time later,
once; of a run that answered or was stopped it may answer any callback any number of times. It may
ask a backend's paste gate as often as it likes, ask for deliveries, and destroy the delivery.
Queued calls and the deadline may come from a nested event loop too; a deferred deletion comes
from the outermost one alone.
-/

namespace Speecher

/-- The words to deliver. -/
structure DeliveryContent where
  plainText : String
  html : Option String := none
  deriving DecidableEq, Repr

inductive DeliveryReceipt
  | none
  | copied
  | inputSent
  | acceptedByTarget
  | verifiedInTarget
  deriving DecidableEq, Repr

structure DeliveryResult where
  ok : Bool := false
  receipt : DeliveryReceipt := .none
  formatDowngraded : Bool := false
  message : String := ""
  deriving DecidableEq, Repr

/-- How the window in front relates to the one dictation started in. -/
inductive FocusMatch
  | same
  | titleChanged
  | different
  deriving DecidableEq, Repr

namespace TextDelivery

/-- What a delivery is built with: the platform, how paste rules are resolved, and whether it has
a target provider. -/
structure Environment where
  platform : Platform
  resolvePasteRule : List PasteRule → Target → PasteRule
  hasProvider : Bool

/-- One `deliver` call, numbered from 1 in the order of the calls. -/
structure Request where
  id : Nat
  settings : OutputSettings
  content : DeliveryContent
  target : Target
  deriving DecidableEq, Repr

/-- The callbacks a run hands out, with what each captures. -/
inductive Callback
  | focusChecked
  | captured
  | copied
  | insertionVerified
  | restoredInserted (verified : Bool)
  | pasteFocus (index : Nat) (method : String)
  | backendDone (index : Nat) (method : String) (virtualKeyboardInput : Bool)
  | pasteVerified (downgraded virtualKeyboardInput : Bool)
  | restoredPasted (copied downgraded virtualKeyboardInput verified : Bool)
  /-- A backend's paste gate, asking for focus. -/
  | gateFocus
  deriving DecidableEq, Repr

/-- What a helper answers a callback: whether it worked or showed, and what else it found. -/
structure Answer where
  ok : Bool := false
  focus : FocusMatch := .different
  htmlAvailable : Bool := false
  keptNewerCopy : Bool := false
  error : String := ""
  deriving DecidableEq, Repr

/-- One delivery's steps: the fields of `Run` and of its `PreviousClipboard`, the callbacks and
paste gates handed out, and whether its deletion and its deadline are due. -/
structure Run where
  request : Request
  /-- `m_done` is set. -/
  running : Bool := true
  frames : Nat := 0
  deleting : Bool := false
  armed : Bool := true
  choice : PasteChoice := {}
  pasteMethod : PasteMethod := .clipboardOnly
  insertion : DirectInsertion := {}
  focus : FocusMatch := .different
  targetFocused : Bool := false
  copiedInitially : Bool := false
  copiedAsPlainText : Bool := false
  initialCopyError : String := ""
  methods : List String := []
  firstError : String := ""
  saved : Bool := false
  clipboardWarning : String := ""
  clipboardNote : String := ""
  pending : List Callback := []
  /-- The gates handed to keyboard backends, each with whether it asks for focus. -/
  gates : List Bool := []
  deriving DecidableEq, Repr

/-- A clipboard write: the delivery's words, or the previous clipboard. -/
inductive Written
  | words (content : DeliveryContent)
  | previous
  deriving DecidableEq, Repr

/-- What a delivery did and heard, for the trace. -/
inductive Event
  | asked (id : Nat)
  | started (id : Nat)
  /-- A focus check was answered to the run. -/
  | focusFound (focus : FocusMatch)
  /-- A clipboard write was accepted. -/
  | wrote (what : Written)
  /-- A keyboard backend was asked to deliver. -/
  | keysRequested (request : Request)
  /-- A keyboard backend's gate was told that the keys may go out. -/
  | keysCleared (request : Request)
  | answered (request : Request) (result : DeliveryResult)
  | stopped
  deriving DecidableEq, Repr

/-- The fields of `TextDelivery`: its requests, the run until it is deleted, and the queued calls
of `startNext`; the trace is newest first. -/
structure State where
  requests : List Request := []
  run : Option Run := none
  alive : Bool := true
  posted : Nat := 0
  asked : Nat := 0
  trace : List Event := []
  deriving DecidableEq, Repr

/-- The code of a delivery and of its run. -/
inductive Instr
  | deliver (settings : OutputSettings) (content : DeliveryContent) (target : Target)
  | startNext
  | deadline
  /-- `~TextDelivery`. -/
  | destroy
  /-- The run's deferred deletion. -/
  | deleteRun
  | answered (id : Nat) (callback : Callback) (answer : Answer)
  | gate (id : Nat) (focusGated : Bool)
  /-- A call into foreign code returns. -/
  | call
  /-- `~Frame`. -/
  | endFrame
  | canInsertText
  | insertText
  | backendFactory (index : Nat)
  | preparePaste (index : Nat) (method : String)
  deriving DecidableEq, Repr

/-- What a call into foreign code returns. -/
structure Reply where
  yes : Bool := false
  error : String := ""
  deriving DecidableEq, Repr

/-- Code leaves a state and the code still to run. -/
abbrev Out := State × List Instr

/-- A step of a run, from the run and the state that holds it. -/
abbrev Step := Run → State → Out

def State.log (s : State) (e : Event) : State := { s with trace := e :: s.trace }

def State.put (s : State) (r : Run) : State := { s with run := some r }

/-- Hands out a callback and makes the call it goes with. -/
def await (callback : Callback) : Step := fun r s =>
  (s.put { r with pending := callback :: r.pending }, [.call])

/-- `step`, only while the run still waits for an answer, in a frame of its own. -/
def whileRunning (step : Step) : Step := fun r s =>
  if r.running then
    let r := { r with frames := r.frames + 1 }
    ((step r (s.put r)).1, (step r (s.put r)).2 ++ [.endFrame])
  else (s, [])

/-- `TextDelivery::answer`: the run is stopped and its request removed before the answer is
heard. -/
def answer (result : DeliveryResult) : Step := fun r s =>
  ({ s with
      run := some { r with running := false, deleting := r.deleting || r.frames = 0 }
      requests := s.requests.tail
      trace := .answered r.request result :: s.trace }, [.call])

def finish (result : DeliveryResult) : Step := fun r s =>
  if r.running then answer result r s else (s, [])

/-- A message followed by what became of the previous clipboard. -/
def annotate (r : Run) (message : String) : String :=
  let message := if r.clipboardWarning ≠ "" then message ++ "; " ++ r.clipboardWarning else message
  if r.clipboardNote ≠ "" then message ++ " " ++ r.clipboardNote else message

/-- `PreviousClipboard::restore`: `next` hears at once when nothing was saved. -/
def restore (callback : Callback) (next : Step) : Step := fun r s =>
  if r.saved then await callback r s else whileRunning next r s

/-- What the previous clipboard notes of a restore's answer. -/
def noteRestored (a : Answer) (r : Run) : Run :=
  if a.ok then
    if a.keptNewerCopy then { r with clipboardNote := "Previous clipboard kept as-is." } else r
  else { r with clipboardWarning :=
    if a.error = "" then "Previous clipboard could not be restored"
    else "Previous clipboard could not be restored: " ++ a.error }

/-- A restore is answered: the previous clipboard notes what came of it, also for a run that no
longer waits, and `next` goes on. -/
def restored (a : Answer) (next : Step) : Step := fun r s =>
  next (noteRestored a r)
    ((if a.ok && !a.keptNewerCopy then s.log (.wrote .previous) else s).put (noteRestored a r))

/-- No backend delivered; the words are on the clipboard from the copy. -/
def finishCopied : Step := fun r s =>
  finish ⟨true, .copied, r.copiedAsPlainText, annotate r
    (if r.firstError = "" then (if r.copiedAsPlainText then "Copied as plain text" else "Copied")
      else "Copied; insertion failed: " ++ r.firstError)⟩ r s

/-- The answer of `insertedDirectly`. -/
def answerInserted (verified : Bool) : Step := fun r s =>
  let message :=
    if verified then "Pasted"
    else if r.copiedInitially then "Could not confirm insertion. Your dictation is on the clipboard."
    else "Accepted by Target; clipboard copy failed: " ++ r.initialCopyError
  finish ⟨true, if verified then .verifiedInTarget else .acceptedByTarget, r.copiedAsPlainText,
    annotate r (if r.copiedAsPlainText then message ++ " as plain text" else message)⟩ r s

/-- The words went straight into the app; `verified` tells whether they showed there. -/
def insertedDirectly (verified : Bool) : Step := fun r s =>
  if r.copiedInitially && verified then
    restore (.restoredInserted verified) (answerInserted verified) r s
  else answerInserted verified r s

/-- The answer of `answerPaste`. -/
def answerPasted (copied downgraded virtualKeyboardInput verified restoredClipboard : Bool) : Step :=
  fun r s =>
    let verifiable := !r.request.target.compositorActive
    let message :=
      if copied then "Copied"
      else if !verified then
        if verifiable then "Could not confirm the paste. Your dictation is on the clipboard."
        else "Sent. Your dictation is also on the clipboard."
      else if virtualKeyboardInput then
        if restoredClipboard then "Sent to the app" else "Copied • Sent to the app"
      else "Pasted"
    finish ⟨true, if copied then .copied else if verified then .verifiedInTarget else .inputSent,
      downgraded, annotate r
        (if downgraded && !virtualKeyboardInput then message ++ " as plain text" else message)⟩ r s

/-- The paste went out; the answer says what showed of it, after putting the previous clipboard
back for a verified keyboard paste. -/
def answerPaste (copied downgraded virtualKeyboardInput verified : Bool) : Step := fun r s =>
  if virtualKeyboardInput && verified then
    restore (.restoredPasted copied downgraded virtualKeyboardInput verified)
      (answerPasted copied downgraded virtualKeyboardInput verified false) r s
  else answerPasted copied downgraded virtualKeyboardInput verified false r s

variable (env : Environment)

def pasted (method : String) (virtualKeyboardInput htmlAvailable : Bool) : Step := fun r s =>
  let copied : Bool := method = OutputMethod.wlCopy ∨ method = OutputMethod.qtClipboard
  let downgraded := if virtualKeyboardInput then r.copiedAsPlainText
    else r.request.content.html.isSome && !htmlAvailable
  if copied || !env.hasProvider then answerPaste copied downgraded virtualKeyboardInput false r s
  else await (.pasteVerified downgraded virtualKeyboardInput) r s

/-- Delivers through the backend for the method before `index`. -/
def pressThrough (index : Nat) (method : String) (virtualKeyboardInput focusGated : Bool) : Step :=
  fun r s =>
    if virtualKeyboardInput then
      await (.backendDone index method true) { r with gates := focusGated :: r.gates }
        (s.log (.keysRequested r.request))
    else await (.backendDone index method false) r s

/-- Tries the backends for the paste method from `index` on, in turn. -/
def pasteThroughBackend (index : Nat) : Step := fun r s =>
  if index < r.methods.length then (s, [.backendFactory index]) else finishCopied r s

/-- The backend for the method at `index` was made. -/
def throughBackend (index : Nat) : Step := fun r s =>
  let method := r.methods.getD index ""
  let virtualKeyboardInput := pressesPasteKeys method
  let focusGated := virtualKeyboardInput && env.hasProvider && !r.choice.currentFocusFallback
  if focusGated then await (.pasteFocus (index + 1) method) r s
  else pressThrough (index + 1) method virtualKeyboardInput false r s

/-- What a focus-gated paste hears of its preparation: why the keys must not go out, or nothing
when they may. -/
def pastePrepared (index : Nat) (method refusal : String) : Step := fun r s =>
  if refusal ≠ "" then finishCopied { r with firstError := refusal } (s.put { r with firstError := refusal })
  else pressThrough index method true true r s

/-- `checked` of `preparePasteInFocus`. -/
def pasteFocusChecked (index : Nat) (method : String) (atPasteTime : FocusMatch) : Step := fun r s =>
  if atPasteTime ≠ .same then
    whileRunning (pastePrepared index method
      (if !r.request.target.compositorActive then "The target is no longer available for paste"
        else if atPasteTime = .titleChanged then "The window title changed"
        else "The active window changed or could not be verified")) r s
  else (s, [.preparePaste index method])

/-- The paste method, unless insertion was all that was asked or focus moved. -/
def methodInFocus (r : Run) : PasteMethod :=
  if r.insertion.only then .clipboardOnly
  else if r.pasteMethod ≠ .clipboardOnly ∧ r.targetFocused = false then .clipboardOnly
  else r.pasteMethod

/-- What the answer says of moved focus: a retitled window and a second window of the same program
look alike, so neither is called a window change. -/
def focusWarning (r : Run) : String :=
  if r.insertion.only = false ∧ r.pasteMethod ≠ .clipboardOnly ∧ r.targetFocused = false ∧
      r.request.target.compositorActive then
    if r.focus = .titleChanged then "The window title changed. Your dictation is on the clipboard."
    else "The active window changed or could not be verified. Your dictation is on the clipboard."
  else ""

/-- Direct insertion was not tried or did not take, and the words are on the clipboard. -/
def pasteUnlessOnlyInserting (insertionError : String) : Step := fun r s =>
  if r.insertion.only ∧ insertionError ≠ "" then
    finish ⟨true, .copied, r.copiedAsPlainText,
      annotate r "Copied; direct insertion was rejected"⟩ r s
  else if methodInFocus r = .clipboardOnly then
    let r' := { r with pasteMethod := .clipboardOnly }
    finish ⟨true, .copied, r.copiedAsPlainText, annotate r
      (if focusWarning r ≠ "" then focusWarning r
        else if r.copiedAsPlainText then "Copied as plain text" else "Copied")⟩ r' (s.put r')
  else
    let r' := { r with methods := orderedMethods env.platform r.request.settings r.choice.method }
    pasteThroughBackend 0 r' (s.put r')

/-- `insertOrPaste` once nothing was inserted. -/
def notInserted (insertionError : String) : Step := fun r s =>
  if r.copiedInitially = false then
    finish ⟨false, .none, false, annotate r
      (if r.initialCopyError = "" then "Could not copy or insert the transcription"
        else "Could not copy or insert the transcription: " ++ r.initialCopyError)⟩ r s
  else pasteUnlessOnlyInserting env insertionError r s

def insertOrPaste : Step := fun r s =>
  if r.insertion.requested && env.hasProvider then (s, [.canInsertText]) else notInserted env "" r s

/-- The initial copy was answered. -/
def copied (a : Answer) : Step := fun r s =>
  let r := { r with
    copiedInitially := a.ok
    initialCopyError := a.error
    copiedAsPlainText := r.request.content.html.isSome && !a.htmlAvailable }
  insertOrPaste env r
    ((if a.ok then s.log (.wrote (.words r.request.content)) else s).put r)

def copy : Step := await .copied

/-- `PreviousClipboard::save`, up to the snapshot's answer. -/
def save (wanted canSnapshot : Bool) : Step := fun r s =>
  if !wanted then whileRunning copy r s
  else if !canSnapshot then
    let r := { r with clipboardWarning :=
      "Previous clipboard could not be saved because snapshots are unavailable" }
    whileRunning copy r (s.put r)
  else await .captured r s

/-- The snapshot's answer, taken even by a run that no longer waits. -/
def captured (a : Answer) : Step := fun r s =>
  let r := { r with saved := a.ok }
  let r := if a.ok then r else
    { r with clipboardWarning :=
        if a.error = "" then "Previous clipboard could not be saved"
        else "Previous clipboard could not be saved: " ++ a.error }
  whileRunning copy r (s.put r)

/-- `canSnapshot` is what the clipboard says of itself. -/
def focusChecked (focus : FocusMatch) (canSnapshot : Bool) : Step := fun r s =>
  let r := { r with
    focus := focus
    targetFocused := r.pasteMethod ≠ .clipboardOnly && (r.choice.currentFocusFallback || focus = .same) }
  save (r.pasteMethod ≠ .clipboardOnly && r.request.settings.restoreClipboardAfterTyping) canSnapshot
    r (s.put r)

/-- `Run::start`, in its frame. -/
def start (canSnapshot : Bool) : Step := fun r s =>
  let settings := r.request.settings
  let choice := choosePasteMethod env.resolvePasteRule settings r.request.target
  let r := { r with
    frames := r.frames + 1
    choice := choice
    pasteMethod := choice.method
    insertion := directInsertion (OutputMethod.normalized settings.method) choice.method }
  let out := if env.hasProvider then await .focusChecked r (s.put r)
    else focusChecked .different canSnapshot r (s.put r)
  (out.1, out.2 ++ [.endFrame])

/-- `startNext`: the first request, unless a run is still there, answered or not. -/
def startNext (canSnapshot : Bool) (s : State) : Out :=
  let s := { s with posted := s.posted - 1 }
  match s.run, s.requests with
  | none, request :: _ => start env canSnapshot { request := request } (s.log (.started request.id))
  | _, _ => (s, [])

/-- A callback of the run is answered; each hears the answer as its source function does. -/
def hear (reply : Reply) (a : Answer) : Callback → Step
  | .focusChecked => whileRunning fun r s => focusChecked a.focus reply.yes r (s.log (.focusFound a.focus))
  | .captured => captured a
  | .copied => whileRunning (copied env a)
  | .insertionVerified => whileRunning (insertedDirectly a.ok)
  | .restoredInserted verified => restored a (whileRunning (answerInserted verified))
  | .pasteFocus index method => whileRunning fun r s =>
    pasteFocusChecked index method a.focus r (s.log (.focusFound a.focus))
  | .backendDone index method virtualKeyboardInput => whileRunning fun r s =>
    if a.ok then
      pasted env method virtualKeyboardInput a.htmlAvailable r
        (if virtualKeyboardInput then s else s.log (.wrote (.words r.request.content)))
    else
      let r := { r with firstError := if r.firstError = "" then a.error else r.firstError }
      if virtualKeyboardInput then finishCopied r (s.put r)
      else pasteThroughBackend index r (s.put r)
  | .pasteVerified downgraded virtualKeyboardInput =>
    whileRunning (answerPaste false downgraded virtualKeyboardInput a.ok)
  | .restoredPasted copied downgraded virtualKeyboardInput verified =>
    restored a (whileRunning (answerPasted copied downgraded virtualKeyboardInput verified a.ok))
  | .gateFocus => fun r s =>
    -- No frame is held, and the backend hears a refusal from a run that no longer waits.
    if r.running then
      let s := s.log (.focusFound a.focus)
      if a.focus = .same then (s.log (.keysCleared r.request), [.call]) else (s, [.call])
    else (s, [.call])

/-- A backend asks its gate. -/
def askGate (focusGated : Bool) : Step := fun r s =>
  if r.running = false then (s, [.call])
  else if focusGated = false then (s.log (.keysCleared r.request), [.call])
  else whileRunning (await .gateFocus) r s

/-- The run's frame is left; a run that no longer waits goes with its last frame. -/
def endFrame : Step := fun r s =>
  (s.put { r with
    frames := r.frames - 1
    deleting := r.deleting || (r.frames - 1 = 0 && !r.running) }, [])

/-- `~TextDelivery`: the run is stopped, and deleted at once unless it is on the stack. -/
def destroy (s : State) : Out :=
  let s := { s with alive := false, posted := 0, trace := .stopped :: s.trace }
  match s.run with
  | none => (s, [])
  | some r => if r.frames = 0 then ({ s with run := none }, []) else (s.put { r with running := false }, [])

/-- A step of the run, where there is one. -/
def onRun (step : Step) (s : State) : Out :=
  match s.run with
  | none => (s, [])
  | some r => step r s

/-- A step of run `id`, where that run is still there. -/
def onRunOf (id : Nat) (step : Step) : State → Out :=
  onRun fun r s => if r.request.id = id then step r s else (s, [])

/-- One instruction of a delivery. -/
def exec (reply : Reply) : Instr → State → Out
  | .deliver settings content target, s =>
    ({ s with
        requests := s.requests ++ [⟨s.asked + 1, settings, content, target⟩]
        asked := s.asked + 1
        posted := s.posted + 1
        trace := .asked (s.asked + 1) :: s.trace }, [])
  | .startNext, s => startNext env reply.yes s
  | .deadline, s => onRun (fun r s =>
      let r := { r with armed := false }
      if r.running then
        answer ⟨false, .none, false, "Delivery did not finish in time"⟩ r (s.put r)
      else (s.put r, [])) s
  | .destroy, s => destroy s
  | .deleteRun, s => ({ s with run := none, posted := if s.alive then s.posted + 1 else s.posted }, [])
  | .answered id callback a, s => onRunOf id (fun r s =>
      let r := { r with pending := r.pending.erase callback }
      hear env reply a callback r (s.put r)) s
  | .gate id focusGated, s => onRunOf id (askGate focusGated) s
  | .call, s => (s, [])
  | .endFrame, s => onRun endFrame s
  | .canInsertText, s =>
    onRun (fun r s => if reply.yes then (s, [.insertText]) else notInserted env "" r s) s
  | .insertText, s =>
    onRun (fun r s => if reply.yes then await .insertionVerified r s
      else notInserted env reply.error r s) s
  | .backendFactory index, s =>
    onRun (if reply.yes then throughBackend env index else pasteThroughBackend (index + 1)) s
  | .preparePaste index method, s =>
    onRun (whileRunning (pastePrepared index method
      (if reply.yes then "" else "The target is no longer available for paste"))) s

/-- The instructions inside which foreign code runs. -/
def Instr.yields : Instr → Bool
  | .call | .canInsertText | .insertText | .backendFactory _ | .preparePaste .. => true
  | _ => false

/-- What the environment may do wherever it has control: call the delivery's operations while it
is there, run a queued call or the deadline when one is due, answer a callback it holds of the
run that waits, or anything of one that no longer does, and ask a gate it was handed. -/
def enters (s : State) : Instr → Bool
  | .deliver .. | .destroy => s.alive
  | .startNext => s.alive && 0 < s.posted
  | .deadline =>
    match s.run with
    | some r => s.alive && r.armed
    | none => false
  | .answered id callback _ =>
    match s.run with
    | some r => !r.running || r.request.id ≠ id || callback ∈ r.pending
    | none => true
  | .gate id focusGated =>
    match s.run with
    | some r => r.request.id ≠ id || focusGated ∈ r.gates
    | none => true
  | _ => false

/-- A text delivery. -/
def machine : Machine State Instr Reply where
  exec := exec env
  yields := Instr.yields
  enters := enters
  wakes s i :=
    match i, s.run with
    | .deleteRun, some r => r.deleting
    | _, _ => false

/-- A delivery that was asked for nothing yet. -/
def IsInitial (s : State) : Prop := s = {}

end TextDelivery

end Speecher
