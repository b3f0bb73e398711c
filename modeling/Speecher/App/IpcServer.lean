import Speecher.App.IpcMessages
import Speecher.Foundations.Runs

/-!
# The running instance's socket

`SingleInstanceIpc` as the server: it accepts connections, cuts what each sends into frames, hands the
requests to the application, and frees the connections that send nothing whole in time. A connection is
one record here, with a flag for each of the server's sets it is in, and it stays listed after its socket
is deleted.

The application answers a request by `writeResponse` or `addStatusWatcher`, at once or later; it may run
the event loop meanwhile, so between two frames of one read anything can happen to another connection,
and to this one anything but another read. What a connection sent and the requests it emitted are kept as
its history.
-/

namespace Speecher

abbrev Bytes := List UInt8

def newline : UInt8 := 10

/-- White space as `QByteArray::trimmed` takes it off. -/
def isBlankByte (b : UInt8) : Bool := b = 32 || (9 ≤ b && b ≤ 13)

/-- `QByteArray::trimmed` leaves nothing. -/
def isBlankFrame (frame : Bytes) : Bool := frame.all isBlankByte

/-- A library that reads JSON from UTF-8 bytes. A text is one value with white space around it, and an
object ends where its bracket closes. -/
structure JsonBytes extends JsonText where
  /-- The text the bytes encode. -/
  decode : Bytes → Text
  blank : ∀ bytes, isBlankFrame bytes = true → fromJson (decode bytes) = none
  object_ends : ∀ start rest fields value, fromJson (decode start) = some (.object fields) →
    fromJson (decode (start ++ rest)) = some value → value = .object fields ∧ isBlankFrame rest = true

theorem toNat_ofNat_ascii {n : ℕ} (h : n < 128) : (Char.ofNat n).toNat = n := by
  have hvalid : n.isValidChar := .inl (by omega)
  unfold Char.ofNat
  rw [dif_pos hvalid]
  rfl

/-- The library that reads the compact texts of ASCII bytes. -/
def JsonBytes.ascii : JsonBytes where
  toJson := Json.print
  fromJson text :=
    match Json.read text.length text with
    | some (value, []) => if Json.print value = text then some value else none
    | _ => none
  fromJson_toJson fields := by
    rw [Json.read_print_nil]
    exact if_pos rfl
  newline := JsonText.compact.newline
  decode bytes := bytes.map fun b => Char.ofNat b.toNat
  blank bytes h := by
    split
    · rename_i value heq
      refine if_neg fun hprint => ?_
      obtain ⟨c, text, htext, hc⟩ := Json.print_head value
      rw [htext] at hprint
      cases bytes with
      | nil => cases hprint
      | cons b bytes =>
        have hb : b.toNat ≤ 32 := by
          have hblank := (List.all_eq_true.mp h) b List.mem_cons_self
          simp only [isBlankByte, Bool.or_eq_true, decide_eq_true_eq, Bool.and_eq_true, UInt8.le_iff_toNat_le] at hblank
          rcases hblank with rfl | ⟨-, hb⟩
          · decide
          · exact hb.trans (by decide)
        rw [(List.cons.inj hprint).1, toNat_ofNat_ascii (by omega)] at hc
        omega
    · rfl
  object_ends start rest fields value hstart hwhole := by
    have hcanonical : ∀ text value, (match Json.read text.length text with
        | some (value, []) => if Json.print value = text then some value else none
        | _ => none) = some value → Json.print value = text := by
      intro text value h
      split at h
      · split_ifs at h with hprint
        obtain rfl := Option.some.inj h
        exact hprint
      · cases h
    have hs := hcanonical _ _ hstart
    have hw := hcanonical _ _ hwhole
    rw [List.map_append, ← hs] at hw
    have hobject := Json.read_object (Json.print value).length fields
      (rest.map fun b => Char.ofNat b.toNat) (by rw [hw, List.length_append]; omega)
    rw [← hw, Json.read_print_nil, Option.some.injEq, Prod.mk.injEq] at hobject
    obtain ⟨hvalue, hrest⟩ := hobject
    rw [List.map_eq_nil_iff.mp hrest.symm]
    exact ⟨hvalue, rfl⟩

variable (json : JsonBytes) (fold : CaseFolding)

/-- `ipcRequestFromFrame` on the bytes of a frame. -/
def requestFromBytes (frame : Bytes) : Except IpcResponse IpcRequest :=
  ipcRequestFromFrame json.toJsonText fold (json.decode frame)

/-- The bytes hold a whole JSON object. -/
def isObject (bytes : Bytes) : Bool := (jsonObject json.toJsonText (json.decode bytes)).isSome

def maximumRequestBytes : ℕ := 64 * 1024
def maximumAcceptedSockets : ℕ := 8
def incompleteRequestTimeoutMs : ℕ := 2000
def expirySweepIntervalMs : ℕ := 500
def maximumStatusWatchers : ℕ := 32

/-- A client's connection. -/
structure Connection where
  /-- It holds one of the accept slots. -/
  accepted : Bool
  /-- The bytes read of a request that is not whole. -/
  requestBuffer : Bytes
  /-- When its incomplete request expires. -/
  deadline : Option ℕ
  /-- The frames its command handling has left, while it is in that. -/
  inCommand : Option (List Bytes)
  pendingDelete : Bool
  statusWatcher : Bool
  /-- The socket is connected; it is closing while an answer is still unsent. -/
  connected : Bool
  unsent : Bool
  deleted : Bool
  /-- What it sent, the requests it emitted, and how many when it became a watcher. -/
  received : Bytes
  emitted : List (Except IpcResponse IpcRequest)
  watchedAt : Option ℕ
  deriving DecidableEq

namespace Connection

/-- An accepted connection: its deadline dates from the accept, not from its first byte. -/
def fresh (now : ℕ) : Connection :=
  ⟨true, [], some (now + incompleteRequestTimeoutMs), none, false, false, true, false, false, [], [], none⟩

/-- The socket and its entries are deleted. -/
def free (c : Connection) : Connection :=
  { c with
    accepted := false
    requestBuffer := []
    deadline := none
    inCommand := none
    pendingDelete := false
    connected := false
    deleted := true }

/-- The socket's `disconnected` signal, whose deletion waits for the command handling. -/
def disconnected (c : Connection) : Connection :=
  if c.inCommand.isSome then { c with connected := false, pendingDelete := true } else c.free

/-- `QLocalSocket::disconnectFromServer`: what is unsent is sent first. -/
def disconnectFromServer (c : Connection) : Connection :=
  if !c.connected then c else if c.unsent then { c with connected := false } else c.disconnected

/-- `SingleInstanceIpc::writeResponse`; `unsent` when its flush left something. -/
def writeResponse (unsent : Bool) (c : Connection) : Connection :=
  if !c.connected then c else disconnectFromServer { c with unsent := c.unsent || unsent }

/-- The frames of a buffer, `frame` being the bytes of the first that are already cut off, and what is
left of it. A request without its newline is read as soon as it is whole. -/
def completeFrames (frame : Bytes) : Bytes → List Bytes × Bytes
  | [] => if isObject json frame then ([frame], []) else ([], frame)
  | b :: buffer =>
    if b = newline then
      let later := completeFrames [] buffer
      (frame :: later.1, later.2)
    else completeFrames (frame ++ [b]) buffer

/-- The read makes the buffer longer than a request may be. -/
def requestTooLarge (bytes : Bytes) (c : Connection) : Bool :=
  maximumRequestBytes < (c.requestBuffer ++ bytes).length

/-- The frames a read completes, and the buffer it leaves. -/
def cut (bytes : Bytes) (c : Connection) : List Bytes × Bytes :=
  if c.requestTooLarge bytes then ([], c.requestBuffer ++ bytes) else completeFrames json [] (c.requestBuffer ++ bytes)

/-- The requests a read completes; a blank frame is none. -/
def requests (bytes : Bytes) (c : Connection) : List Bytes := (c.cut json bytes).1.filter (!isBlankFrame ·)

/-- The deadline after a read. More bytes do not extend it, and blank frames do not end it. -/
def nextDeadline (now : ℕ) (bytes : Bytes) (c : Connection) : Option ℕ :=
  if (c.cut json bytes).2.isEmpty then if (c.requests json bytes).isEmpty then c.deadline else none
  else c.deadline.or (some (now + incompleteRequestTimeoutMs))

/-- A read starts a deadline, and with it the sweep timer. -/
def arms (bytes : Bytes) (c : Connection) : Bool :=
  !c.statusWatcher && !(c.cut json bytes).2.isEmpty && c.deadline.isNone

/-- The socket's `readyRead` signal, as far as its command handling. -/
def readyRead (now : ℕ) (bytes : Bytes) (c : Connection) : Connection :=
  if c.statusWatcher then { c with received := c.received ++ bytes }
  else
    let read :=
      { c with
        received := c.received ++ bytes
        requestBuffer := (c.cut json bytes).2
        deadline := c.nextDeadline json now bytes }
    if c.requestTooLarge bytes then read.disconnectFromServer
    else { read with inCommand := if (c.requests json bytes).isEmpty then none else some (c.requests json bytes) }

/-- The command handling takes its next frame, or ends; a watcher's further requests are dropped. -/
def nextFrame (c : Connection) : Connection :=
  match c.inCommand with
  | none => c
  | some [] => if c.pendingDelete then c.free else { c with inCommand := none }
  | some (frame :: frames) =>
    if c.statusWatcher then { c with inCommand := some [] }
    else { c with inCommand := some frames, emitted := c.emitted ++ [requestFromBytes json fold frame] }

/-- `SingleInstanceIpc::addStatusWatcher`, with room for one more. -/
def addStatusWatcher (unsent : Bool) (c : Connection) : Connection :=
  if !c.connected then c
  else
    { c with
      accepted := false
      requestBuffer := []
      deadline := none
      statusWatcher := true
      unsent := c.unsent || unsent
      watchedAt := c.watchedAt.or (some c.emitted.length) }

/-- What was unsent is sent, which ends a closing socket. -/
def bytesWritten (c : Connection) : Connection :=
  if c.connected then { c with unsent := false } else disconnected { c with unsent := false }

/-- The sweep closes a connection whose deadline has passed. -/
def swept (now : ℕ) (c : Connection) : Connection :=
  if c.deadline.any (· ≤ now) then c.disconnectFromServer else c

end Connection

/-- The server: the time in milliseconds, when its sweep timer is due, and its connections. -/
structure IpcServer where
  now : ℕ
  expirySweep : Option ℕ
  connections : List Connection
  deriving DecidableEq

namespace IpcServer

/-- The server as it starts to listen. -/
def init : IpcServer := ⟨0, none, []⟩

def acceptedSockets (s : IpcServer) : ℕ := s.connections.countP (·.accepted)

def statusWatchers (s : IpcServer) : ℕ := s.connections.countP fun c => c.statusWatcher && !c.deleted

/-- What can happen to the server; connections are counted in the order they were accepted. -/
inductive Event where
  /-- Time passes. -/
  | pass (ms : ℕ)
  | newConnection (peerIsThisUser : Bool)
  | readyRead (id : ℕ) (bytes : Bytes)
  | nextFrame (id : ℕ)
  /-- The application answers a connection. -/
  | writeResponse (id : ℕ) (unsent : Bool)
  | addStatusWatcher (id : ℕ) (unsent : Bool)
  | bytesWritten (id : ℕ)
  /-- The client leaves. -/
  | disconnected (id : ℕ)
  | sweep

/-- One connection changes. -/
def change (s : IpcServer) (id : ℕ) (f : Connection → Connection) : IpcServer :=
  { s with connections := s.connections.modify id f }

/-- Starting the sweep timer starts it anew when it runs. -/
def startSweep (s : IpcServer) : IpcServer := { s with expirySweep := some (s.now + expirySweepIntervalMs) }

/-- A connection that may be given to `f`, when it meets `can`. -/
def changeIf (s : IpcServer) (id : ℕ) (can : Connection → Bool) (f : Connection → Connection) : Option IpcServer :=
  if s.connections[id]?.any can then some (s.change id f) else none

/-- The server after an event, when it can happen. -/
def step (s : IpcServer) : Event → Option IpcServer
  | .pass ms => some { s with now := s.now + ms }
  | .newConnection peerIsThisUser =>
    if maximumAcceptedSockets ≤ s.acceptedSockets || !peerIsThisUser then some s
    else some ({ s with connections := s.connections ++ [Connection.fresh s.now] }).startSweep
  | .readyRead id bytes =>
    let read := s.changeIf id (fun c => c.connected && c.inCommand.isNone) (·.readyRead json s.now bytes)
    if s.connections[id]?.any (·.arms json bytes) then read.map startSweep else read
  | .nextFrame id => s.changeIf id (·.inCommand.isSome) (·.nextFrame json fold)
  | .writeResponse id unsent =>
    s.changeIf id (fun c => !c.deleted && !c.emitted.isEmpty) (·.writeResponse unsent)
  | .addStatusWatcher id unsent =>
    s.changeIf id (fun c => !c.deleted && !c.emitted.isEmpty) fun c =>
      if maximumStatusWatchers ≤ s.statusWatchers then c.writeResponse unsent else c.addStatusWatcher unsent
  | .bytesWritten id => s.changeIf id (·.unsent) (·.bytesWritten)
  | .disconnected id => s.changeIf id (!·.deleted) (·.disconnected)
  | .sweep =>
    if s.expirySweep.any (· ≤ s.now) then
      let connections := s.connections.map (·.swept s.now)
      some { s with
        connections
        expirySweep :=
          if connections.all (·.deadline.isNone) then none else some (s.now + expirySweepIntervalMs) }
    else none

/-- The event starts the sweep timer, and ends what it ran before. -/
def arms (s : IpcServer) : Event → Bool
  | .newConnection peerIsThisUser => !(maximumAcceptedSockets ≤ s.acceptedSockets || !peerIsThisUser)
  | .readyRead id bytes => s.connections[id]?.any (·.arms json bytes)
  | _ => false

/-! ## What an event can do to a connection -/

/-- The changes an event can make to a connection. -/
inductive Change (now : ℕ) : Connection → Connection → Prop
  | same (c : Connection) : Change now c c
  | readyRead {c : Connection} (bytes : Bytes) : c.connected = true → c.inCommand = none →
      Change now c (c.readyRead json now bytes)
  | nextFrame (c : Connection) : Change now c (c.nextFrame json fold)
  | writeResponse {c : Connection} (unsent : Bool) : c.emitted ≠ [] → Change now c (c.writeResponse unsent)
  | addStatusWatcher {c : Connection} (unsent : Bool) : c.emitted ≠ [] → Change now c (c.addStatusWatcher unsent)
  | bytesWritten (c : Connection) : Change now c c.bytesWritten
  | disconnected (c : Connection) : Change now c c.disconnected
  | swept (c : Connection) : Change now c (c.swept now)

variable {json fold}

theorem forall₂_modify {α : Type*} {R : α → α → Prop} (hrefl : ∀ a, R a a) {f : α → α} {l : List α} {i : ℕ}
    (h : ∀ a, l[i]? = some a → R a (f a)) : List.Forall₂ R l (l.modify i f) := by
  induction l generalizing i with
  | nil => rw [List.modify_nil]; exact .nil
  | cons a l ih =>
    cases i with
    | zero => rw [List.modify_zero_cons]; exact .cons (h a rfl) (List.forall₂_same.mpr fun b _ => hrefl b)
    | succ i => rw [List.modify_succ_cons]; exact .cons (hrefl a) (ih h)

theorem exists_of_forall₂ {α β : Type*} {R : α → β → Prop} {l : List α} {l' : List β} (h : List.Forall₂ R l l')
    {b : β} (hb : b ∈ l') : ∃ a ∈ l, R a b := by
  induction h with
  | nil => cases hb
  | cons hab _ ih =>
    rcases List.mem_cons.mp hb with rfl | hb
    · exact ⟨_, List.mem_cons_self, hab⟩
    · obtain ⟨a, ha, hab⟩ := ih hb
      exact ⟨a, List.mem_cons_of_mem _ ha, hab⟩

theorem changeIf_eq_some {s s' : IpcServer} {id : ℕ} {can : Connection → Bool} {f : Connection → Connection}
    (h : s.changeIf id can f = some s') : s' = s.change id f ∧ ∀ c, s.connections[id]? = some c → can c = true := by
  unfold changeIf at h
  split_ifs at h with hcan
  refine ⟨(Option.some.inj h).symm, fun c hc => ?_⟩
  rwa [hc, Option.any_some] at hcan

/-- A connection that `f` changes as an event can. -/
theorem changes_of_changeIf {s s' : IpcServer} {id : ℕ} {can : Connection → Bool} {f : Connection → Connection}
    (h : s.changeIf id can f = some s') (hf : ∀ c, can c = true → Change json fold s.now c (f c)) :
    List.Forall₂ (Change json fold s.now) s.connections s'.connections ∧ s'.now = s.now ∧
      s'.expirySweep = s.expirySweep := by
  obtain ⟨rfl, hcan⟩ := changeIf_eq_some h
  exact ⟨forall₂_modify .same fun c hc => hf c (hcan c hc), rfl, rfl⟩

/-- **An event changes connections as it can, and may add one.** -/
theorem step_connections {s s' : IpcServer} {e : Event} (h : s.step json fold e = some s') :
    ∃ changed, List.Forall₂ (Change json fold s.now) s.connections changed ∧
      (s'.connections = changed ∨
        s'.connections = changed ++ [Connection.fresh s.now] ∧ s.acceptedSockets < maximumAcceptedSockets ∧
          s'.expirySweep = some (s.now + expirySweepIntervalMs)) := by
  have hsame : List.Forall₂ (Change json fold s.now) s.connections s.connections :=
    List.forall₂_same.mpr fun c _ => .same c
  cases e with
  | pass ms =>
    obtain rfl := Option.some.inj h
    exact ⟨_, hsame, .inl rfl⟩
  | newConnection peerIsThisUser =>
    simp only [IpcServer.step] at h
    split_ifs at h with hrefused
    · obtain rfl := Option.some.inj h
      exact ⟨_, hsame, .inl rfl⟩
    · obtain rfl := Option.some.inj h
      simp only [Bool.or_eq_true, decide_eq_true_eq, not_or, not_le] at hrefused
      exact ⟨_, hsame, .inr ⟨rfl, hrefused.1, rfl⟩⟩
  | readyRead id bytes =>
    have hread : ∀ s₁, s.changeIf id (fun c => c.connected && c.inCommand.isNone) (·.readyRead json s.now bytes) = some s₁ →
        List.Forall₂ (Change json fold s.now) s.connections s₁.connections := fun s₁ hs₁ =>
      (changes_of_changeIf hs₁ fun c hcan => by
        simp only [Bool.and_eq_true, Option.isNone_iff_eq_none] at hcan
        exact .readyRead bytes hcan.1 hcan.2).1
    simp only [IpcServer.step] at h
    split_ifs at h
    · obtain ⟨s₁, hs₁, rfl⟩ := Option.map_eq_some_iff.mp h
      exact ⟨_, hread s₁ hs₁, .inl rfl⟩
    · exact ⟨_, hread s' h, .inl rfl⟩
  | nextFrame id => exact ⟨_, (changes_of_changeIf h fun c _ => .nextFrame c).1, .inl rfl⟩
  | writeResponse id unsent =>
    refine ⟨_, (changes_of_changeIf h fun c hcan => .writeResponse unsent ?_).1, .inl rfl⟩
    simp only [Bool.and_eq_true] at hcan
    simpa using hcan.2
  | addStatusWatcher id unsent =>
    refine ⟨_, (changes_of_changeIf h fun c hcan => ?_).1, .inl rfl⟩
    have hemitted : c.emitted ≠ [] := by
      simp only [Bool.and_eq_true] at hcan
      simpa using hcan.2
    split
    · exact .writeResponse unsent hemitted
    · exact .addStatusWatcher unsent hemitted
  | bytesWritten id => exact ⟨_, (changes_of_changeIf h fun c _ => .bytesWritten c).1, .inl rfl⟩
  | disconnected id => exact ⟨_, (changes_of_changeIf h fun c _ => .disconnected c).1, .inl rfl⟩
  | sweep =>
    simp only [IpcServer.step, Option.ite_none_right_eq_some] at h
    obtain ⟨-, h⟩ := h
    obtain rfl := Option.some.inj h
    exact ⟨_, List.forall₂_map_right_iff.mpr (List.forall₂_same.mpr fun c _ => .swept c), .inl rfl⟩

/-- The sweep timer runs on, or anew. -/
theorem step_expirySweep {s s' : IpcServer} {e : Event} (h : s.step json fold e = some s') (he : e ≠ .sweep) :
    s'.expirySweep = if s.arms json e then some (s.now + expirySweepIntervalMs) else s.expirySweep := by
  have hchange : ∀ {id : ℕ} {can : Connection → Bool} {f : Connection → Connection} {s₁ : IpcServer},
      s.changeIf id can f = some s₁ → s₁.expirySweep = s.expirySweep ∧ s₁.now = s.now := by
    intro id can f s₁ hs₁
    rw [(changeIf_eq_some hs₁).1]
    exact ⟨rfl, rfl⟩
  cases e with
  | pass ms =>
    obtain rfl := Option.some.inj h
    rfl
  | newConnection peerIsThisUser =>
    simp only [IpcServer.step] at h
    rw [arms]
    split_ifs at h with hrefused
    · obtain rfl := Option.some.inj h
      rw [hrefused]
      rfl
    · obtain rfl := Option.some.inj h
      rw [Bool.not_eq_true] at hrefused
      rw [hrefused]
      rfl
  | readyRead id bytes =>
    simp only [IpcServer.step] at h
    rw [arms]
    split_ifs at h ⊢
    · obtain ⟨s₁, hs₁, rfl⟩ := Option.map_eq_some_iff.mp h
      rw [startSweep, (hchange hs₁).2]
    · exact (hchange h).1
  | sweep => exact absurd rfl he
  | _ => exact (hchange h).1

/-! ## Invariants of a connection -/

variable (json fold) in
/-- What a connection keeps, whatever happens to it. -/
structure Keeps (P : Connection → Prop) : Prop where
  fresh : ∀ now, P (Connection.fresh now)
  readyRead : ∀ {c} now bytes, P c → c.connected = true → c.inCommand = none → P (c.readyRead json now bytes)
  nextFrame : ∀ {c}, P c → P (c.nextFrame json fold)
  writeResponse : ∀ {c} unsent, P c → c.emitted ≠ [] → P (c.writeResponse unsent)
  addStatusWatcher : ∀ {c} unsent, P c → c.emitted ≠ [] → P (c.addStatusWatcher unsent)
  bytesWritten : ∀ {c}, P c → P c.bytesWritten
  disconnected : ∀ {c}, P c → P c.disconnected
  disconnectFromServer : ∀ {c}, P c → P c.disconnectFromServer

theorem Keeps.change {P : Connection → Prop} (h : Keeps json fold P) {now : ℕ} {c c' : Connection}
    (hchange : Change json fold now c c') (hc : P c) : P c' := by
  cases hchange with
  | same => exact hc
  | readyRead bytes hconnected hcommand => exact h.readyRead now bytes hc hconnected hcommand
  | nextFrame => exact h.nextFrame hc
  | writeResponse unsent hemitted => exact h.writeResponse unsent hc hemitted
  | addStatusWatcher unsent hemitted => exact h.addStatusWatcher unsent hc hemitted
  | bytesWritten => exact h.bytesWritten hc
  | disconnected => exact h.disconnected hc
  | swept =>
    unfold Connection.swept
    split
    · exact h.disconnectFromServer hc
    · exact hc

/-- What a connection keeps holds of every connection in every run. -/
theorem Keeps.holds {P : Connection → Prop} (h : Keeps json fold P) {ok : IpcServer → Event → Prop} {s : IpcServer}
    (hs : Reaches (IpcServer.step json fold) ok init s) : ∀ c ∈ s.connections, P c := by
  refine hs.invariant (P := fun s => ∀ c ∈ s.connections, P c) (fun _ hc => nomatch hc) fun s e s' _ hP hstep => ?_
  obtain ⟨changed, hchanged, hconnections⟩ := step_connections hstep
  have hall : ∀ c ∈ changed, P c := fun c' hc' => by
    obtain ⟨c, hc, hchange⟩ := exists_of_forall₂ hchanged hc'
    exact h.change hchange (hP c hc)
  rcases hconnections with heq | ⟨heq, -⟩
  · rw [heq]
    exact hall
  · rw [heq]
    intro c hc
    rcases List.mem_append.mp hc with hc | hc
    · exact hall c hc
    · rw [List.mem_singleton.mp hc]
      exact h.fresh s.now

end IpcServer

end Speecher
