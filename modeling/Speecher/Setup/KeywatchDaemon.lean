import Mathlib.Data.Fintype.Basic
import Mathlib.Data.Fintype.Card
import Mathlib.Data.List.FinRange
import Speecher.Foundations.Runs

/-!
# The key watcher

The Keywatch daemon reads the keyboards and tells each client whether the one key it asked for is down. Clients
connect, ask with a request of two bytes in whatever fragments, and are refused or watch; keyboards are plugged in
and unplugged, and their event buffers overflow.

One step is one turn of the event loop: a connection, a client or a keyboard with something to read, a new device, or
time going by. What the environment decides comes with the step: the bytes and events read, the keyboard's answer
when it is asked which keys are down, and whether each write succeeds. A client's record of what it sent and was sent,
the clients that are gone, the admissions and what the keyboards did are kept beside the daemon's own state.
-/

namespace Speecher.Keywatch

/-! ## The protocol -/

def protocolVersion : UInt8 := 2

def oldestProtocolVersion : UInt8 := 1

/-- One for each Global Shortcut. -/
def maxWatchesPerUser : ℕ := 3

inductive Refusal
  | none | badVersion | keyNotPermitted | alreadyWatching | tooManyRequests
  deriving DecidableEq

structure WatchReply where
  version : UInt8
  /-- `Refusal.none` means the watch is on. -/
  refusal : Refusal
  deriving DecidableEq

structure KeyEvent where
  down : Bool
  monotonicUsec : ℕ
  deriving DecidableEq

structure PermittedKey where
  id : UInt8
  code : String
  evdev : ℕ
  deriving DecidableEq

/-- The keys that cannot spell text. -/
def permittedKeys : List PermittedKey :=
  [⟨1, "ShiftLeft", 42⟩, ⟨2, "ShiftRight", 54⟩, ⟨3, "ControlLeft", 29⟩, ⟨4, "ControlRight", 97⟩,
    ⟨5, "AltLeft", 56⟩, ⟨6, "AltRight", 100⟩, ⟨7, "MetaLeft", 125⟩, ⟨8, "MetaRight", 126⟩, ⟨9, "CapsLock", 58⟩,
    ⟨10, "F13", 183⟩, ⟨11, "F14", 184⟩, ⟨12, "F15", 185⟩, ⟨13, "F16", 186⟩, ⟨14, "F17", 187⟩, ⟨15, "F18", 188⟩,
    ⟨16, "F19", 189⟩, ⟨17, "F20", 190⟩, ⟨18, "F21", 191⟩, ⟨19, "F22", 192⟩, ⟨20, "F23", 193⟩, ⟨21, "F24", 194⟩]

def permittedKeyById (id : UInt8) : Option PermittedKey := permittedKeys.find? (·.id = id)

/-! ## The state -/

def maxClients : ℕ := 16

def rateBuckets : ℕ := maxClients * 2

/-- No more than this many admissions of a user in the window. -/
def rateLimitConnects : ℕ := 16

def rateLimitWindowUsec : ℕ := 60 * 1000000

abbrev Slot := Fin maxClients

/-- A key of a key event. The kernel reports no key of code 0. -/
abbrev KeyCode := {code : ℕ // code ≠ 0}

/-- What a keyboard gives to read. The end of a report comes with the keyboard's answer to which keys are down, if it
is asked and does answer. -/
inductive InputEvent
  | synDropped
  | synReport (keyBits : Option (ℕ → Bool))
  | key (code : KeyCode) (value : ℤ)
  | other

/-- What happened to a keyboard. -/
inductive Occurrence
  | opened (keyboardFd : ℕ)
  | read (keyboardFd : ℕ) (event : InputEvent)
  | closed (keyboardFd : ℕ)

structure Keyboard where
  name : String
  fd : ℕ
  /-- The kernel's buffer overflowed, and what arrives up to the end of the report is a fragment. -/
  resyncing : Bool := false

/-- What is written to a client. -/
inductive Message
  | reply (reply : WatchReply)
  | event (event : KeyEvent)

structure Client where
  uid : ℕ
  pid : ℕ
  /-- 0 until a watch is accepted. -/
  evdev : ℕ := 0
  /-- Every keyboard currently holding the watched key. -/
  holdingKeyboardFds : List ℕ := []
  /-- The bytes of a request that is not whole yet. -/
  pending : List UInt8 := []
  /-- Every byte read from it. -/
  received : List UInt8 := []
  /-- Every message written to it. -/
  sent : List Message := []
  /-- How much had happened to the keyboards when its watch was accepted. -/
  began : ℕ := 0

structure RateBucket where
  uid : ℕ := 0
  count : ℕ := 0
  windowStartUsec : ℕ := 0

structure Server where
  keyboards : List Keyboard := []
  clients : Slot → Option Client := fun _ => none
  rate : Fin rateBuckets → RateBucket := fun _ => {}
  clientCount : ℕ := 0
  /-- The monotonic clock, in microseconds. -/
  now : ℕ := 0
  /-- The connections that are closed, as they were. -/
  closed : List Client := []
  /-- The users admitted, and when. -/
  admissions : List (ℕ × ℕ) := []
  /-- What happened to the keyboards, newest first. -/
  history : List Occurrence := []

namespace Client

variable (client : Client)

def send (down : Bool) (now : ℕ) : Client := { client with sent := client.sent ++ [.event ⟨down, now⟩] }

/-- Key-up when the last keyboard holding the key lets go, and only then. The client is dropped if it is written to in
vain. -/
def releaseHold (keyboardFd now : ℕ) (written : Bool) : Client × Bool :=
  if keyboardFd ∈ client.holdingKeyboardFds then
    let holders := client.holdingKeyboardFds.erase keyboardFd
    let released := { client with holdingKeyboardFds := holders }
    if holders = [] then (released.send false now, written) else (released, true)
  else (client, true)

/-- Key-down when the first keyboard takes hold of the key, and only then. -/
def takeHold (keyboardFd now : ℕ) (written : Bool) : Client × Bool :=
  if keyboardFd ∈ client.holdingKeyboardFds then (client, true)
  else
    let held := { client with holdingKeyboardFds := client.holdingKeyboardFds ++ [keyboardFd] }
    if client.holdingKeyboardFds = [] then (held.send true now, written) else (held, true)

def hold (keyboardFd now : ℕ) (down written : Bool) : Client × Bool :=
  if down then client.takeHold keyboardFd now written else client.releaseHold keyboardFd now written

end Client

namespace Server

variable (s : Server)

/-! ## Clients -/

def putClient (slot : Slot) (client : Client) : Server :=
  { s with clients := Function.update s.clients slot (some client) }

def dropClient (slot : Slot) (client : Client) : Server :=
  { s with
    clients := Function.update s.clients slot none
    closed := s.closed ++ [client]
    clientCount := s.clientCount - 1 }

/-- A visit to a client, which is dropped when the visit fails. -/
def visitClient (slot : Slot) (visit : Client → Client × Bool) : Server :=
  match s.clients slot with
  | none => s
  | some client =>
    if (visit client).2 then s.putClient slot (visit client).1 else s.dropClient slot (visit client).1

/-- A visit to every client, slot after slot. -/
def visitClients (visit : Slot → Client → Client × Bool) : Server :=
  (List.finRange maxClients).foldl (fun s slot => s.visitClient slot (visit slot)) s

/-- The buckets, those whose window is over free again, and whether a user is turned away. -/
def rateLimited (uid : ℕ) : Bool × (Fin rateBuckets → RateBucket) :=
  let rate := fun i =>
    if 0 < (s.rate i).count ∧ rateLimitWindowUsec ≤ s.now - (s.rate i).windowStartUsec then {} else s.rate i
  match (List.finRange rateBuckets).reverse.find? fun i => 0 < (rate i).count ∧ (rate i).uid = uid with
  | some existing =>
    if rateLimitConnects ≤ (rate existing).count then (true, rate)
    else (false, Function.update rate existing { rate existing with count := (rate existing).count + 1 })
  | none =>
    match (List.finRange rateBuckets).find? fun i => (rate i).count = 0 with
    | some free => (false, Function.update rate free ⟨uid, 1, s.now⟩)
    -- No free bucket: fail open rather than lock everyone out.
    | none => (false, rate)

def refuse (uid pid : ℕ) : Server :=
  { s with closed := s.closed ++ [{ uid, pid, sent := [.reply ⟨protocolVersion, .tooManyRequests⟩] }] }

def acceptClient (uid pid : ℕ) : Server :=
  if maxClients ≤ s.clientCount then s.refuse uid pid
  else
    let (limited, rate) := s.rateLimited uid
    let s := { s with rate := rate }
    if limited then s.refuse uid pid
    else
      match (List.finRange maxClients).find? fun slot => (s.clients slot).isNone with
      | some slot =>
        { s.putClient slot { uid, pid } with
          clientCount := s.clientCount + 1
          admissions := s.admissions ++ [(uid, s.now)] }
      | none => s

/-- Whether a client of a user watches. -/
def watches (uid : ℕ) (slot : Slot) : Bool :=
  match s.clients slot with
  | some client => client.uid = uid && client.evdev ≠ 0
  | none => false

def uidAtWatchLimit (asking : Slot) (uid : ℕ) : Bool :=
  maxWatchesPerUser ≤ ((List.finRange maxClients).filter fun slot => slot ≠ asking && s.watches uid slot).length

/-- Why a request is refused, if it is. -/
def refusal (slot : Slot) (client : Client) (version keyId : UInt8) : Refusal :=
  if s.uidAtWatchLimit slot client.uid then .alreadyWatching
  else if version < oldestProtocolVersion ∨ protocolVersion < version then .badVersion
  else if permittedKeyById keyId = none then .keyNotPermitted
  else .none

/-- The answer to a whole request. -/
def answer (slot : Slot) (client : Client) (version keyId : UInt8) : Server :=
  let refusal := s.refusal slot client version keyId
  let reply := ⟨if refusal = .badVersion then protocolVersion else version, refusal⟩
  let client := { client with pending := [], sent := client.sent ++ [.reply reply] }
  match refusal, permittedKeyById keyId with
  | .none, some key => s.putClient slot { client with evdev := key.evdev, began := s.history.length }
  | _, _ => s.dropClient slot client

end Server

/-- What reading a client's socket gives: bytes, nothing for now, or its end. -/
inductive ReadResult
  | bytes (bytes : List UInt8)
  | again
  | ended

namespace Server

variable (s : Server)

def readClient (slot : Slot) (client : Client) : ReadResult → Server
  | .ended => s.dropClient slot client
  | .again => s
  | .bytes bytes =>
    let client := { client with received := client.received ++ bytes }
    -- A watching client has asked all it may, so whatever else it sends is read and dropped.
    if client.evdev ≠ 0 then s.putClient slot client
    else
      let client := { client with pending := client.pending ++ bytes }
      match client.pending with
      | version :: keyId :: _ => s.answer slot client version keyId
      | _ => s.putClient slot client

/-! ## Keyboards -/

def setResyncing (keyboardFd : ℕ) (resyncing : Bool) : Server :=
  { s with
    keyboards := s.keyboards.map fun keyboard =>
      if keyboard.fd = keyboardFd then { keyboard with resyncing := resyncing } else keyboard }

def happened (occurrence : Occurrence) : Server := { s with history := occurrence :: s.history }

def report (keyboardFd evdev : ℕ) (down : Bool) (written : Slot → Bool) : Server :=
  s.visitClients fun slot client =>
    if client.evdev ≠ evdev then (client, true) else client.hold keyboardFd s.now down (written slot)

/-- The key-up a keyboard owes every client still holding its key. -/
def releaseHeldKeys (keyboardFd : ℕ) (written : Slot → Bool) : Server :=
  s.visitClients fun slot client => client.releaseHold keyboardFd s.now (written slot)

/-- After an overflow, every watched key is brought in line with which keys are down now; a keyboard that will not say
is released. -/
def reconcileHolds (keyboardFd : ℕ) (keyBits : Option (ℕ → Bool)) (written : Slot → Bool) : Server :=
  match keyBits with
  | none => s.releaseHeldKeys keyboardFd written
  | some bits =>
    s.visitClients fun slot client =>
      if client.evdev = 0 then (client, true)
      else client.hold keyboardFd s.now (bits client.evdev) (written slot)

def isResyncing (keyboardFd : ℕ) : Bool :=
  s.keyboards.any fun keyboard => keyboard.fd = keyboardFd && keyboard.resyncing

/-- One event read from a keyboard. -/
def readEvent (keyboardFd : ℕ) (event : InputEvent) (written : Slot → Bool) : Server :=
  let resyncing := s.isResyncing keyboardFd
  let s := s.happened (.read keyboardFd event)
  match event with
  | .synDropped => s.setResyncing keyboardFd true
  | .synReport keyBits =>
    if resyncing then (s.setResyncing keyboardFd false).reconcileHolds keyboardFd keyBits written else s
  | .key code value =>
    -- Value 2 is auto-repeat, which is not a transition.
    if resyncing ∨ value = 2 then s else s.report keyboardFd code (value = 1) written
  | .other => s

def dropKeyboard (keyboardFd : ℕ) (written : Slot → Bool) : Server :=
  let s := (s.happened (.closed keyboardFd)).releaseHeldKeys keyboardFd written
  { s with keyboards := s.keyboards.eraseP (·.fd = keyboardFd) }

/-- The events a keyboard gives to read, each with the writes that succeed, and those of its end if it is gone. -/
def readKeyboard (keyboardFd : ℕ) (events : List (InputEvent × (Slot → Bool))) (gone : Option (Slot → Bool)) : Server :=
  let s := events.foldl (fun s event => s.readEvent keyboardFd event.1 event.2) s
  match gone with
  | some written => s.dropKeyboard keyboardFd written
  | none => s

def alreadyOpen (name : String) : Bool := s.keyboards.any fun keyboard => keyboard.name = name

def openKeyboard (name : String) (fd : ℕ) : Server :=
  { s.happened (.opened fd) with keyboards := s.keyboards ++ [{ name, fd }] }

/-! ## Steps -/

/-- What the event loop wakes up for. -/
inductive Event
  | tick (usec : ℕ)
  | connect (uid pid : ℕ)
  | client (slot : Slot) (got : ReadResult)
  | keyboard (keyboardFd : ℕ) (events : List (InputEvent × (Slot → Bool))) (gone : Option (Slot → Bool))
  | plugged (name : String) (fd : ℕ)

/-- The state after an event, when it can happen: a read takes some bytes, as many as are left of a request at most,
and a new descriptor is no open keyboard's. -/
def step : Event → Option Server
  | .tick usec => some { s with now := s.now + usec }
  | .connect uid pid => some (s.acceptClient uid pid)
  | .client slot got =>
    (s.clients slot).bind fun client =>
      match got with
      | .bytes bytes =>
        if bytes ≠ [] ∧ bytes.length ≤ 2 - client.pending.length then some (s.readClient slot client (.bytes bytes))
        else none
      | .again => some (s.readClient slot client .again)
      | .ended => some (s.readClient slot client .ended)
  | .keyboard keyboardFd events gone =>
    if keyboardFd ∈ s.keyboards.map Keyboard.fd then some (s.readKeyboard keyboardFd events gone) else none
  | .plugged name fd =>
    if s.alreadyOpen name then some s
    else if fd ∈ s.keyboards.map Keyboard.fd then none
    else some (s.openKeyboard name fd)

end Server

/-- The states of the daemon's runs. -/
abbrev Running (s : Server) : Prop := Reaches Server.step (fun _ _ => True) {} s

end Speecher.Keywatch
