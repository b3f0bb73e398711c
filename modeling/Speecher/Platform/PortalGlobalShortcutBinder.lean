import Speecher.Bindings.Words
import Speecher.Foundations.Monitor

/-!
# Shortcuts through the desktop portal

The binder of a Global Shortcut on a Wayland desktop. It asks the portal for a session and then lists or binds its
shortcut in it, each in a request of its own: a call, the Response that ends it, a deadline, and Close when it is
withdrawn. Before the first session it tells the portal who it is. Removing the shortcut closes the session.

The model keeps every request ever made. What the program does is one `step` for each event of its event loop, and it
writes down what it sends and emits; whether the bus lets a request watch for its Response is the desktop's.
-/

namespace Speecher.PortalShortcuts

structure PortalShortcut where
  id : Text
  triggerDescription : Text
  deriving DecidableEq

/-- What a Response brings: the session handle as a path and as a text, and the shortcuts. -/
structure Results where
  sessionPath : Text := []
  sessionText : Text := []
  shortcuts : List PortalShortcut := []
  deriving DecidableEq

structure Response where
  status : ℕ
  results : Results
  deriving DecidableEq

inductive RequestKind
  | createForRestore
  | createForRegistration
  | list
  | bind
  deriving DecidableEq

namespace RequestKind

def creates : RequestKind → Bool
  | createForRestore | createForRegistration => true
  | list | bind => false

def isRegistration : RequestKind → Bool
  | createForRegistration | bind => true
  | createForRestore | list => false

end RequestKind

/-- The calls that open requests, with their arguments. -/
inductive PortalCall
  | createSession (token : Text)
  | listShortcuts (session : Text)
  | bindShortcuts (session id description : Text) (preferredTrigger : Option Text)
  deriving DecidableEq

inductive Call
  | bind
  | registerShortcut
  | removeRegistration
  deriving DecidableEq

inductive Told
  | asked (call : Call)
  | sent (kind : RequestKind) (call : PortalCall)
  /-- The call that tells the portal who asks. -/
  | identified
  | closedRequest (path : Text)
  /-- The handle of a new session arrived. -/
  | received (session : Text)
  | closedSession (session : Text)
  /-- The current session, or empty once it is none. -/
  | current (session : Text)
  /-- With the signal it comes from. -/
  | activated (session id : Text)
  | deactivated (session id : Text) (heldMs : Option ℕ)
  | registrationFinished (ok : Bool) (text : Text)
  | bindingChanged
  | supportChanged
  deriving DecidableEq

/-! ## One request -/

/-- Its call is under way, or answered, or the request has ended. -/
inductive Phase
  | calling
  | waiting
  | finished
  deriving DecidableEq

structure PortalRequest where
  kind : RequestKind
  /-- Predicted, until the reply of the call names it. -/
  path : Text
  phase : Phase := .calling
  /-- Responses at other paths, the latest first. -/
  earlyResponses : List (Text × Response) := []
  /-- Withdrawn while its call was under way: the reply closes it. -/
  closesLater : Bool := false
  deriving DecidableEq

/-- How a request ends. -/
inductive Outcome
  | answered (response : Response)
  | failed (error : Text)
  | timedOut
  deriving DecidableEq

namespace PortalRequest

def finished (r : PortalRequest) : Bool := r.phase = .finished

def finish (r : PortalRequest) : PortalRequest := { r with phase := .finished, earlyResponses := [] }

def cancel (r : PortalRequest) : Out PortalRequest Told :=
  match r.phase with
  | .calling => ({ r.finish with closesLater := true }, [])
  | .waiting => (r.finish, [.closedRequest r.path])
  | .finished => (r, [])

/-- The call's reply names the request or fails. -/
def handleReply (r : PortalRequest) : Except Text Text → PortalRequest × Option Outcome
  | .error error => (r.finish, some (.failed error))
  | .ok path =>
    match r.earlyResponses.lookup path with
    | some response => ({ r with path := path }.finish, some (.answered response))
    | none => ({ r with path := path, phase := .waiting, earlyResponses := [] }, none)

def handleResponse (path : Text) (response : Response) (r : PortalRequest) : PortalRequest × Option Outcome :=
  if r.phase = .finished then (r, none)
  else if path ≠ r.path then
    (if r.phase = .calling then { r with earlyResponses := (path, response) :: r.earlyResponses } else r, none)
  else (r.finish, some (.answered response))

end PortalRequest

/-! ## The binder -/

structure ShortcutAction where
  id : Text
  description : Text
  /-- The key sequence as portable text. -/
  defaultShortcut : Text := []
  deriving DecidableEq

/-- What the binder is given: its action, and the desktop it runs on. -/
structure Desktop where
  action : ShortcutAction
  /-- It runs in a Flatpak, whose identity the portal knows. -/
  sandboxed : Bool
  /-- Its name on the bus. -/
  baseService : Text
  /-- The identifiers drawn for a request, and for the session it asks for. -/
  requestUuid : ℕ → Text
  sessionUuid : ℕ → Text
  /-- The bus lets the request watch for its Response. -/
  watches : ℕ → Bool
  toLower : Text → Text

/-- Why the portal refused to take note of who asks. -/
structure IdentityError where
  /-- The portal does not know the interface or the call. -/
  unknownCall : Bool
  message : Text
  deriving DecidableEq

structure Binder where
  supported : Bool := false
  supportKnown : Bool := true
  bindWhenSupported : Bool := false
  registerWhenSupported : Bool := false
  identityReady : Bool := false
  identityPending : Bool := false
  registrationAfterIdentity : Bool := false
  identityContinuationCancelled : Bool := false
  unsupportedReason : Text := []
  triggerDescription : Text := []
  sessionPath : Text := []
  pendingSessionPath : Text := []
  request : Option ℕ := none
  activatedAtMs : ℕ := 0
  /-- The setting `portalShortcutCleared` of the action. -/
  cleared : Bool := false
  requests : List PortalRequest := []

/-- The kind of the request under way. -/
def Binder.underWay (u : Binder) : Option RequestKind :=
  (u.request.bind fun i => u.requests[i]?).bind fun r => if r.finished then none else some r.kind

def predictedRequestPath (sender token : Text) : Text :=
  let name := if sender.head? = some ':' then sender.tail else sender
  "/org/freedesktop/portal/desktop/request/".toList ++ name.map (fun c => if c = '.' then '_' else c) ++ '/' :: token

def triggerModifier (part : Text) : Text :=
  if part = "Ctrl".toList then "<Control>".toList
  else if part = "Alt".toList then "<Alt>".toList
  else if part = "Shift".toList then "<Shift>".toList
  else if part = "Meta".toList then "<Super>".toList
  else []

namespace Desktop

variable (d : Desktop)

def portalTrigger (sequence : Text) : Text :=
  (sequence.splitOn '+').dropLast.flatMap triggerModifier ++ d.toLower ((sequence.splitOn '+').getLastD [])

def shortcutTrigger (results : Results) : Option Text :=
  (results.shortcuts.find? (·.id = d.action.id)).bind fun shortcut =>
    if shortcut.triggerDescription = [] then none else some shortcut.triggerDescription

end Desktop

namespace Binder

def closePendingSession (u : Binder) : Out Binder Told :=
  if u.pendingSessionPath = [] then (u, [])
  else ({ u with pendingSessionPath := [] }, [.closedSession u.pendingSessionPath])

def cancelRequest (u : Binder) : Out Binder Told :=
  (u.request.bind fun i => u.requests[i]?.map fun r =>
    ({ u with requests := u.requests.set i r.cancel.1 }, r.cancel.2)).getD (u, [])

def closeSession (u : Binder) : Out Binder Told :=
  if u.sessionPath = [] then (u, [])
  else ({ u with sessionPath := [] }, [.closedSession u.sessionPath, .current []])

def removeRegistration (u : Binder) : Out Binder Told :=
  { u with
    cleared := true
    bindWhenSupported := false
    registerWhenSupported := false
    -- The continuation of an identity call under way must not bring the session back.
    identityContinuationCancelled := u.identityPending
    registrationAfterIdentity := false }.cancelRequest.andThen closePendingSession |>.andThen closeSession |>.andThen
    fun u => ({ u with activatedAtMs := 0, triggerDescription := [] }, [.bindingChanged])

def activatePendingSession (trigger : Text) (u : Binder) : Out Binder Told :=
  ({ u with
      sessionPath := u.pendingSessionPath
      pendingSessionPath := []
      triggerDescription := trigger
      activatedAtMs := if u.sessionPath ≠ u.pendingSessionPath then 0 else u.activatedAtMs },
    .current u.pendingSessionPath ::
      (if u.sessionPath ≠ u.pendingSessionPath ∧ u.sessionPath ≠ [] then [.closedSession u.sessionPath] else []) ++
      [.bindingChanged])

def addRequest (r : PortalRequest) (u : Binder) : Binder :=
  { u with requests := u.requests ++ [r], request := some u.requests.length }

variable (d : Desktop)

/-- A request is made; when the bus does not let it watch for its Response it fails at once. -/
def sendRequest (failed : RequestKind → Text → Binder → Out Binder Told) (kind : RequestKind) (call : PortalCall)
    (u : Binder) : Out Binder Told :=
  let request : PortalRequest :=
    { kind := kind,
      path := predictedRequestPath d.baseService ("speecher_".toList ++ d.requestUuid u.requests.length) }
  if d.watches u.requests.length then (u.addRequest request, [.sent kind call])
  else failed kind "Could not watch the portal request".toList (u.addRequest request.finish)

/-- Whether the portal knows who asks; otherwise it is told, and the session waits for that. -/
def ensureHostIdentity (registration : Bool) (u : Binder) : Out Binder Told × Bool :=
  if u.identityReady then ((u, []), true)
  else if d.sandboxed then (({ u with identityReady := true }, []), true)
  else if u.identityPending then
    (({ u with
        identityContinuationCancelled := false
        registrationAfterIdentity := u.registrationAfterIdentity || registration }, []), false)
  else
    (({ u with
        identityPending := true
        identityContinuationCancelled := false
        registrationAfterIdentity := registration }, [.identified]), false)

/-- `createSession`, given what follows a request that fails. -/
def createWith (failed : RequestKind → Text → Binder → Out Binder Told) (registration : Bool) (u : Binder) :
    Out Binder Told :=
  if !registration && u.cleared then (u, [])
  else if !u.supported then (u, if registration then [.registrationFinished false u.unsupportedReason] else [])
  else
    (u.cancelRequest.andThen closePendingSession).andThen fun u =>
      let ensured := ensureHostIdentity d registration u
      if ensured.2 then
        ensured.1.andThen fun u => sendRequest d failed
          (if registration then .createForRegistration else .createForRestore)
          (.createSession ("speecher_session_".toList ++ d.sessionUuid u.requests.length)) u
      else ensured.1

/-- A registration that failed is reported, and what was bound before comes back; the request that restores it only
closes its session when it fails in turn. -/
def requestFailed (kind : RequestKind) (reason : Text) (u : Binder) : Out Binder Told :=
  if kind.isRegistration then
    (u.closePendingSession.andThen fun u => (u, [.registrationFinished false reason])).andThen
      (createWith d (fun _ _ => closePendingSession) false)
  else u.closePendingSession

def createSession (registration : Bool) (u : Binder) : Out Binder Told := createWith d (requestFailed d) registration u

theorem createSession_false (u : Binder) :
    createSession d false u = createWith d (fun _ _ => closePendingSession) false u := rfl

def listShortcuts (u : Binder) : Out Binder Told :=
  sendRequest d (requestFailed d) .list (.listShortcuts u.pendingSessionPath) u

def bindShortcuts (u : Binder) : Out Binder Told :=
  sendRequest d (requestFailed d) .bind
    (.bindShortcuts u.pendingSessionPath d.action.id d.action.description
      (if d.action.defaultShortcut = [] then none else some (d.portalTrigger d.action.defaultShortcut))) u

/-- A session is there: a registration binds the shortcut in it, a restore lists what is bound. -/
def sessionCreated (kind : RequestKind) (session : Text) (u : Binder) : Out Binder Told :=
  if session = [] then
    requestFailed d kind "The portal returned no Global Shortcut session".toList { u with pendingSessionPath := [] }
  else
    Out.andThen ({ u with pendingSessionPath := session }, [.received session])
      (if kind = .createForRegistration then bindShortcuts d else listShortcuts d)

def processRequestResponse (kind : RequestKind) (response : Response) (u : Binder) : Out Binder Told :=
  if response.status ≠ 0 then
    requestFailed d kind (if response.status = 1 then "Setup was cancelled. Try again.".toList
      else "Couldn't set the shortcut. Try again.".toList) u
  else if kind.creates then
    sessionCreated d kind
      (if response.results.sessionPath = [] then response.results.sessionText else response.results.sessionPath) u
  else if kind = .list then
    (d.shortcutTrigger response.results).elim u.closePendingSession fun trigger => u.activatePendingSession trigger
  else
    (d.shortcutTrigger response.results).elim
      (requestFailed d kind "Your desktop didn't say which keys it assigned.".toList u) fun trigger =>
        ({ u with cleared := false }.activatePendingSession trigger).andThen fun u =>
          (u, [.registrationFinished true u.triggerDescription])

/-- What a request's end leads to. -/
def requestEnded (kind : RequestKind) (u : Binder) : Outcome → Out Binder Told
  | .answered response => processRequestResponse d kind response u
  | .failed error => requestFailed d kind error u
  | .timedOut =>
    requestFailed d kind (if kind = .bind then "Your desktop didn't finish setting the shortcut.".toList
      else "Your desktop didn't answer. Try again.".toList) u

def bind (u : Binder) : Out Binder Told :=
  if !u.supportKnown then ({ u with bindWhenSupported := true }, [])
  else if !u.supported then (u, [])
  else createSession d false u

def registerShortcut (u : Binder) : Out Binder Told :=
  if !u.supportKnown then ({ u with registerWhenSupported := true }, [])
  else if !u.supported then (u, [.registrationFinished false u.unsupportedReason])
  else createSession d true u

/-- The portal has the interface or not. -/
def supportAnswered (ok : Bool) (u : Binder) : Out Binder Told :=
  Out.andThen
    ({ u with
        supportKnown := true
        supported := ok
        unsupportedReason := if ok then u.unsupportedReason
          else "Your desktop can't set shortcuts for Speecher automatically.".toList }, [.supportChanged]) fun u =>
    -- A registration asked for meanwhile also binds.
    if u.registerWhenSupported then
      registerShortcut d { u with registerWhenSupported := false, bindWhenSupported := false }
    else if u.supported && u.bindWhenSupported then createSession d false { u with bindWhenSupported := false }
    else (u, [])

def refusal (error : IdentityError) : Text := "Your desktop turned down the request: ".toList ++ error.message

def identityOver (u : Binder) : Binder := { u with identityPending := false, registrationAfterIdentity := false }

def identityAnswered (error : Option IdentityError) (u : Binder) : Out Binder Told :=
  match error.filter (!·.unknownCall) with
  | some error =>
    ({ u.identityOver with unsupportedReason := refusal error },
      if u.registrationAfterIdentity then [.registrationFinished false (refusal error)] else [])
  | none =>
    if u.identityContinuationCancelled then
      ({ u.identityOver with identityReady := true, identityContinuationCancelled := false }, [])
    else createSession d u.registrationAfterIdentity { u.identityOver with identityReady := true }

def handleActivated (session id : Text) (timestamp : ℕ) (u : Binder) : Out Binder Told :=
  if session = u.sessionPath ∧ id = d.action.id then
    ({ u with activatedAtMs := if u.activatedAtMs = 0 then timestamp else u.activatedAtMs }, [.activated session id])
  else (u, [])

def handleDeactivated (session id : Text) (timestamp : ℕ) (u : Binder) : Out Binder Told :=
  if session = u.sessionPath ∧ id = d.action.id then
    ({ u with activatedAtMs := 0 },
      [.deactivated session id
        (if u.activatedAtMs ≠ 0 ∧ u.activatedAtMs ≤ timestamp then some (timestamp - u.activatedAtMs) else none)])
  else (u, [])

/-- A request changes, and when it ends what follows. -/
def requestMoved (index : ℕ) (r : PortalRequest) (moved : PortalRequest × Option Outcome) (u : Binder) :
    Out Binder Told :=
  moved.2.elim ({ u with requests := u.requests.set index moved.1 }, [])
    (requestEnded d r.kind { u with requests := u.requests.set index moved.1 })

end Binder

/-! ## Events -/

inductive Event
  | call (call : Call)
  | supportAnswered (ok : Bool)
  | identityAnswered (error : Option IdentityError)
  /-- The call of a request is answered with its path, or with an error. -/
  | replied (request : ℕ) (reply : Except Text Text)
  /-- A Response reaches a request. -/
  | response (request : ℕ) (path : Text) (response : Response)
  | timedOut (request : ℕ)
  /-- The call of a request that was withdrawn is answered. -/
  | repliedLate (request : ℕ) (reply : Except Text Text)
  /-- The session handles of signals are never empty. -/
  | activated (session id : Text) (timestamp : ℕ)
  | deactivated (session id : Text) (timestamp : ℕ)

def Event.isCall : Event → Bool
  | .call _ => true
  | _ => false

namespace Binder

variable (d : Desktop)

def call (u : Binder) : Call → Out Binder Told
  | .bind => u.bind d
  | .registerShortcut => u.registerShortcut d
  | .removeRegistration => u.removeRegistration

def step (u : Binder) : Event → Option (Out Binder Told)
  | .call call => some (Out.andThen (u, [.asked call]) (Binder.call d · call))
  | .supportAnswered ok => if u.supportKnown then none else some (u.supportAnswered d ok)
  | .identityAnswered error => if u.identityPending then some (u.identityAnswered d error) else none
  | .replied i reply =>
    u.requests[i]?.bind fun r => if r.phase = .calling then some (u.requestMoved d i r (r.handleReply reply)) else none
  | .response i path response => u.requests[i]?.map fun r => u.requestMoved d i r (r.handleResponse path response)
  | .timedOut i =>
    u.requests[i]?.bind fun r =>
      if r.phase = .finished then none
      else some (Out.andThen (u, r.cancel.2) (requestMoved d i r (r.cancel.1, some .timedOut)))
  | .repliedLate i reply =>
    u.requests[i]?.bind fun r =>
      if r.closesLater then
        some ({ u with requests := u.requests.set i { r with closesLater := false } },
          match reply with
          | .ok path => [.closedRequest path]
          | .error _ => [])
      else none
  | .activated session id timestamp => if session = [] then none else some (u.handleActivated d session id timestamp)
  | .deactivated session id timestamp =>
    if session = [] then none else some (u.handleDeactivated d session id timestamp)

/-- The event answers what a registration may wait for: the support, the identity or the end of a request. -/
def answers (u : Binder) : Event → Bool
  | .supportAnswered _ | .identityAnswered _ | .timedOut _ => true
  | .replied i reply => (u.requests[i]?).any fun r => (r.handleReply reply).2.isSome
  | .response i path response => (u.requests[i]?).any fun r => (r.handleResponse path response).2.isSome
  | _ => false

end Binder

end Speecher.PortalShortcuts
