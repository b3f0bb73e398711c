import Mathlib.Tactic.Common

/-!
# Paste rules and output methods

Where a delivery's words may go: the Target the dictation started in, the Paste Rule that names
a paste method for it, and the output methods that carry a paste method out, in the order they
are tried. `choosePasteMethod` settles for the clipboard wherever the Target is a secure field,
and wherever it can neither be told apart from what else is in front nor pasted into blindly.
-/

namespace Speecher

/-- What a paste rule is about: every app, a kind of app, or one app. -/
inductive PasteRuleScope
  | global
  | category
  | application
  deriving DecidableEq, Repr

inductive PasteMethod
  | standardPaste
  | terminalPaste
  | directInsert
  | clipboardOnly
  deriving DecidableEq, Repr

structure PasteRule where
  scope : PasteRuleScope := .global
  match' : String := ""
  method : PasteMethod := .standardPaste
  enabled : Bool := true
  deriving DecidableEq, Repr

/-- What a delivery reads of the Target its dictation started in. -/
structure Target where
  applicationId : String := ""
  applicationName : String := ""
  processId : Int := 0
  accessible : Bool := false
  secure : Bool := false
  compositorActive : Bool := false
  deriving DecidableEq, Repr

def Target.hasIdentity (t : Target) : Bool :=
  t.applicationId ≠ "" || decide (0 < t.processId) || t.applicationName ≠ ""

/-- What a delivery reads of the output settings. -/
structure OutputSettings where
  method : String := "automatic"
  ydotoolEnabled : Bool := false
  restoreClipboardAfterTyping : Bool := false
  pasteRules : List PasteRule := []
  deriving DecidableEq, Repr

namespace OutputMethod

def automatic : String := "automatic"
def directInsert : String := "direct_insert"
def ydotool : String := "ydotool"
def wlCopy : String := "wl-copy"
def macPaste : String := "mac-paste"
def winPaste : String := "win-paste"
def qtClipboard : String := "qt-clipboard"

def all : List String := [automatic, directInsert, ydotool, wlCopy, macPaste, winPaste, qtClipboard]

/-- The method a stored name stands for: older names are mapped, unknown ones are automatic. -/
def normalized (method : String) : String :=
  if method = "clipboard" then wlCopy
  else if method = "qt" then qtClipboard
  else if method = "wtype" then automatic
  else if method ∈ all then method else automatic

end OutputMethod

/-- The platform the program is built for. -/
inductive Platform
  | mac
  | win
  | other
  deriving DecidableEq, Repr

namespace TextDelivery

/-- Whether delivery tries inserting straight into the app first, and whether that is all it
tries before leaving the words on the clipboard. -/
structure DirectInsertion where
  requested : Bool := false
  only : Bool := false
  deriving DecidableEq, Repr

def directInsertion (outputMethod : String) (pasteMethod : PasteMethod) : DirectInsertion :=
  if pasteMethod = .clipboardOnly then {}
  else
    let asked := pasteMethod = .directInsert ∨ outputMethod = OutputMethod.directInsert
    ⟨asked ∨ outputMethod = OutputMethod.automatic, asked⟩

/-- The methods that press the paste keys in the target, rather than copy. -/
def pressesPasteKeys (method : String) : Bool :=
  method = OutputMethod.ydotool ∨ method = OutputMethod.macPaste ∨ method = OutputMethod.winPaste

/-- The paste method a delivery starts from, and whether it pastes blindly into whatever has
focus because the Target cannot be tracked. -/
structure PasteChoice where
  method : PasteMethod := .clipboardOnly
  currentFocusFallback : Bool := false
  deriving DecidableEq, Repr

/-- The paste method for a Target, given how paste rules are resolved. -/
def choosePasteMethod (resolvePasteRule : List PasteRule → Target → PasteRule)
    (settings : OutputSettings) (target : Target) : PasteChoice :=
  let pasteRule := resolvePasteRule settings.pasteRules target
  let trackableTarget := target.hasIdentity || target.accessible
  let currentFocusFallback := !trackableTarget && pasteRule.scope = .global &&
    (pasteRule.method = .standardPaste || pasteRule.method = .terminalPaste)
  let pastes := !target.secure && (trackableTarget || currentFocusFallback)
  ⟨if pastes then pasteRule.method else .clipboardOnly, currentFocusFallback⟩

/-- The methods for a paste method, in the order they are tried. -/
def orderedMethods (platform : Platform) (settings : OutputSettings) (pasteMethod : PasteMethod) :
    List String :=
  let method := OutputMethod.normalized settings.method
  match platform with
  | .mac =>
    if method = OutputMethod.automatic then
      (if pasteMethod ≠ .clipboardOnly then [OutputMethod.macPaste] else []) ++
        [OutputMethod.qtClipboard]
    else if method = OutputMethod.macPaste ∧ pasteMethod = .clipboardOnly then
      [OutputMethod.qtClipboard]
    else [method]
  | .win =>
    if method = OutputMethod.automatic then
      if pasteMethod = .clipboardOnly then [OutputMethod.qtClipboard]
      else [OutputMethod.winPaste, OutputMethod.qtClipboard]
    else if method = OutputMethod.winPaste ∧ pasteMethod = .clipboardOnly then
      [OutputMethod.qtClipboard]
    else [method]
  | .other =>
    if method = OutputMethod.automatic then
      (if pasteMethod ≠ .clipboardOnly ∧ settings.ydotoolEnabled then [OutputMethod.ydotool]
        else []) ++ [OutputMethod.wlCopy, OutputMethod.qtClipboard]
    else if method = OutputMethod.ydotool ∧
        (settings.ydotoolEnabled = false ∨ pasteMethod = .clipboardOnly) then
      [OutputMethod.wlCopy, OutputMethod.qtClipboard]
    else [method]

theorem orderedMethods_length (platform : Platform) (settings : OutputSettings)
    (pasteMethod : PasteMethod) : (orderedMethods platform settings pasteMethod).length ≤ 3 := by
  cases platform <;> simp only [orderedMethods] <;> split <;> (try split) <;> simp

/-- A secure Target is left the clipboard alone. -/
theorem choosePasteMethod_secure (resolvePasteRule : List PasteRule → Target → PasteRule)
    (settings : OutputSettings) {target : Target} (h : target.secure = true) :
    (choosePasteMethod resolvePasteRule settings target).method = .clipboardOnly := by
  simp [choosePasteMethod, h]

end TextDelivery

end Speecher
