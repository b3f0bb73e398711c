import Speecher.Foundations.SharedHold
import Speecher.Setup.KeywatchDaemon

/-!
# What a client hears is what the keyboards show

From what happened to the keyboards, `shownSince` says what they showed of a key: each key event outside an overflow,
the keyboard's answer at the end of one, and that a keyboard which is gone has no key down. A watching client is sent
the transitions of the key held by any of them, and its record of who holds the key is theirs (`Watches`).

`kept` is the invariant of every run, and `eventsRight` its result: the events written to a client alternate, down
first, and the last one is down exactly if an open keyboard last showed the key down.
-/

namespace Speecher.Keywatch

/-! ## What the keyboards show -/

/-- Whether a keyboard's buffer has overflowed since the end of its last report. -/
def overflowing (keyboardFd : ℕ) : List Occurrence → Bool
  | [] => false
  | .opened fd :: earlier => if fd = keyboardFd then false else overflowing keyboardFd earlier
  | .read fd .synDropped :: earlier => if fd = keyboardFd then true else overflowing keyboardFd earlier
  | .read fd (.synReport _) :: earlier => if fd = keyboardFd then false else overflowing keyboardFd earlier
  | _ :: earlier => overflowing keyboardFd earlier

/-- What an occurrence shows of a key: that a keyboard has it down or up, or nothing. -/
def shows (key : ℕ) (earlier : List Occurrence) : Occurrence → Option (ℕ × Bool)
  | .read fd (.key code value) =>
    if overflowing fd earlier ∨ value = 2 ∨ code ≠ key then none else some (fd, value = 1)
  -- A keyboard that will not say has no key down.
  | .read fd (.synReport keyBits) =>
    if overflowing fd earlier then some (fd, keyBits.elim false (· key)) else none
  | .closed fd => some (fd, false)
  | .opened _ | .read _ .synDropped | .read _ .other => none

/-- What the keyboards showed of a key after `began` occurrences, newest first. -/
def shownSince (key began : ℕ) : List Occurrence → List (ℕ × Bool)
  | [] => []
  | occurrence :: earlier =>
    if earlier.length < began then []
    else
      match shows key earlier occurrence with
      | some shown => shown :: shownSince key began earlier
      | none => shownSince key began earlier

theorem shownSince_of_le {key began : ℕ} : ∀ {history : List Occurrence}, history.length ≤ began →
    shownSince key began history = []
  | [], _ => rfl
  | _ :: _, h => if_pos (Nat.lt_of_succ_le h)

theorem shownSince_some {key began : ℕ} {occurrence : Occurrence} {earlier : List Occurrence} {shown : ℕ × Bool}
    (hbegan : began ≤ earlier.length) (h : shows key earlier occurrence = some shown) :
    shownSince key began (occurrence :: earlier) = shown :: shownSince key began earlier := by
  rw [shownSince, if_neg (Nat.not_lt.mpr hbegan), h]

theorem shownSince_none {key began : ℕ} {occurrence : Occurrence} {earlier : List Occurrence}
    (hbegan : began ≤ earlier.length) (h : shows key earlier occurrence = none) :
    shownSince key began (occurrence :: earlier) = shownSince key began earlier := by
  rw [shownSince, if_neg (Nat.not_lt.mpr hbegan), h]

/-! ## What a client is sent -/

namespace Client

/-- The events written to a client, down or up. -/
def events (client : Client) : List Bool :=
  client.sent.filterMap fun
    | .event event => some event.down
    | .reply _ => none

/-- What the keyboards showed of a client's key since it began to watch. -/
def shown (client : Client) (history : List Occurrence) : List (ℕ × Bool) :=
  shownSince client.evdev client.began history

end Client

/-- A connection refused as it is accepted. -/
structure TurnedAway (client : Client) : Prop where
  received : client.received = []
  sent : client.sent = [.reply ⟨protocolVersion, .tooManyRequests⟩]

/-- A connection whose request is not whole. -/
structure Waits (client : Client) : Prop where
  received : client.received.length < 2
  pending : client.pending = client.received
  sent : client.sent = []
  evdev : client.evdev = 0
  holders : client.holdingKeyboardFds = []

/-- A connection whose request was refused. -/
structure Refused (client : Client) : Prop where
  answered : ∃ version keyId refusal, client.received = [version, keyId] ∧ refusal ≠ .none ∧
    client.sent = [.reply ⟨if refusal = .badVersion then protocolVersion else version, refusal⟩]

/-- A connection whose request was accepted: after the reply, it is sent the transitions of its key. -/
structure Watches (history : List Occurrence) (client : Client) : Prop where
  answered : ∃ version keyId rest key, client.received = version :: keyId :: rest ∧
    oldestProtocolVersion ≤ version ∧ version ≤ protocolVersion ∧
    permittedKeyById keyId = some key ∧ client.evdev = key.evdev ∧
    ∃ events : List KeyEvent, client.sent = .reply ⟨version, .none⟩ :: events.map .event
  pending : client.pending = []
  began : client.began ≤ history.length
  holders : client.holdingKeyboardFds = holders (client.shown history)
  events : client.events = (transitions (client.shown history)).reverse

theorem evdev_ne_zero {keyId : UInt8} {key : PermittedKey} (h : permittedKeyById keyId = some key) : key.evdev ≠ 0 := by
  have hall : ∀ key ∈ permittedKeys, key.evdev ≠ 0 := by decide
  exact hall key (List.mem_of_find?_eq_some h)

theorem Watches.evdev_ne_zero {history : List Occurrence} {client : Client} (h : Watches history client) :
    client.evdev ≠ 0 := by
  obtain ⟨_, _, _, key, _, _, _, hkey, hevdev, _⟩ := h.answered
  exact hevdev ▸ Keywatch.evdev_ne_zero hkey

/-- **What a hold or a release does**: the holders are who shows the key down, and a transition is written. -/
theorem hold_eq (client : Client) {shown : List (ℕ × Bool)} (h : client.holdingKeyboardFds = holders shown)
    (keyboardFd now : ℕ) (down written : Bool) :
    ∃ events : List KeyEvent, (client.hold keyboardFd now down written).1 = { client with
        holdingKeyboardFds := holders ((keyboardFd, down) :: shown)
        sent := client.sent ++ events.map .event } ∧
      (transitions ((keyboardFd, down) :: shown)).reverse = (transitions shown).reverse ++ events.map KeyEvent.down := by
  cases down with
  | true =>
    simp only [Client.hold, Client.takeHold, if_true, h, holders, transitions]
    split_ifs with hmem hfree hfree
    · simp [hfree] at hmem
    · exact ⟨[], by simp [← h], by simp⟩
    · exact ⟨[⟨true, now⟩], by simp [Client.send, hfree], by simp⟩
    · exact ⟨[], by simp, by simp⟩
  | false =>
    simp only [Client.hold, Client.releaseHold, Bool.false_eq_true, if_false, h, holders, transitions]
    by_cases hmem : keyboardFd ∈ holders shown
    · by_cases hfree : (holders shown).erase keyboardFd = []
      · have honly : holders shown = [keyboardFd] :=
          (List.erase_eq_nil_iff.mp hfree).resolve_left (List.ne_nil_of_mem hmem)
        rw [if_pos hmem, if_pos hfree, if_pos honly, hfree]
        exact ⟨[⟨false, now⟩], rfl, by simp⟩
      · have hmore : holders shown ≠ [keyboardFd] := fun honly => hfree (by simp [honly])
        rw [if_pos hmem, if_neg hfree, if_neg hmore]
        exact ⟨[], by simp, by simp⟩
    · have hmore : holders shown ≠ [keyboardFd] := fun honly => hmem (by simp [honly])
      rw [if_neg hmem, if_neg hmore, List.erase_of_not_mem hmem, ← h]
      exact ⟨[], by simp, by simp⟩

theorem events_append (client : Client) (holders : List ℕ) (events : List KeyEvent) :
    Client.events { client with holdingKeyboardFds := holders, sent := client.sent ++ events.map .event } =
      client.events ++ events.map KeyEvent.down := by
  simp [Client.events, List.filterMap_append, List.filterMap_map]

section Watches

variable {earlier : List Occurrence} {occurrence : Occurrence} {client : Client} (h : Watches earlier client)

include h

/-- A watching client is brought in line with what an occurrence shows of its key. -/
theorem Watches.hold {keyboardFd : ℕ} {down : Bool}
    (hshows : shows client.evdev earlier occurrence = some (keyboardFd, down)) (now : ℕ) (written : Bool) :
    Watches (occurrence :: earlier) (client.hold keyboardFd now down written).1 := by
  obtain ⟨events, hclient, htransitions⟩ := hold_eq client h.holders keyboardFd now down written
  have hshown : client.shown (occurrence :: earlier) = (keyboardFd, down) :: client.shown earlier :=
    shownSince_some h.began hshows
  rw [hclient]
  refine ⟨?_, h.pending, Nat.le_succ_of_le h.began, congrArg Speecher.holders hshown.symm, ?_⟩
  · obtain ⟨version, keyId, rest, key, hreceived, hold, hnew, hkey, hevdev, before, hsent⟩ := h.answered
    refine ⟨version, keyId, rest, key, hreceived, hold, hnew, hkey, hevdev, before ++ events, ?_⟩
    rw [hsent, List.map_append, List.cons_append]
  · rw [events_append, h.events, ← htransitions]
    exact congrArg (fun shown => (transitions shown).reverse) hshown.symm

/-- A watching client is as it was when an occurrence shows nothing of its key. -/
theorem Watches.keep (hshows : shows client.evdev earlier occurrence = none) :
    Watches (occurrence :: earlier) client := by
  have hshown : client.shown (occurrence :: earlier) = client.shown earlier := shownSince_none h.began hshows
  exact ⟨h.answered, h.pending, Nat.le_succ_of_le h.began, hshown ▸ h.holders, hshown ▸ h.events⟩

end Watches

/-! ## Visits to the clients -/

namespace Server

variable {s : Server} {visit : Slot → Client → Client × Bool}

/-- **Induction over the visits.** -/
theorem visitClients_induction {P : Server → Prop} (h : P s)
    (hvisit : ∀ s slot, P s → P (s.visitClient slot (visit slot))) : P (s.visitClients visit) := by
  rw [visitClients]
  induction List.finRange maxClients generalizing s with
  | nil => exact h
  | cons slot slots ih => exact ih (hvisit s slot h)

/-- What a visit leaves alone. -/
theorem visitClient_eq (s : Server) (slot : Slot) (visit : Client → Client × Bool) :
    s.visitClient slot visit = { s with
      clients := (s.visitClient slot visit).clients
      closed := (s.visitClient slot visit).closed
      clientCount := (s.visitClient slot visit).clientCount } := by
  unfold visitClient
  split
  · rfl
  · split_ifs <;> rfl

theorem visitClients_eq (s : Server) (visit : Slot → Client → Client × Bool) :
    s.visitClients visit = { s with
      clients := (s.visitClients visit).clients
      closed := (s.visitClients visit).closed
      clientCount := (s.visitClients visit).clientCount } := by
  refine visitClients_induction (P := fun s' => s' = { s with
    clients := s'.clients, closed := s'.closed, clientCount := s'.clientCount }) rfl fun s' slot hs' => ?_
  rw [visitClient_eq, hs']

@[simp] theorem keyboards_visitClients (s : Server) (visit : Slot → Client → Client × Bool) :
    (s.visitClients visit).keyboards = s.keyboards := by rw [visitClients_eq]

@[simp] theorem history_visitClients (s : Server) (visit : Slot → Client → Client × Bool) :
    (s.visitClients visit).history = s.history := by rw [visitClients_eq]

/-- What the visit leaves of a client. -/
def left (visit : Client → Client × Bool) (client : Client) : Option Client :=
  if (visit client).2 then some (visit client).1 else none

theorem clients_visitClient (s : Server) (slot other : Slot) (visit : Client → Client × Bool) :
    (s.visitClient slot visit).clients other =
      if other = slot then (s.clients slot).bind (left visit) else s.clients other := by
  unfold visitClient
  split
  · rename_i hnone
    split_ifs with heq
    · rw [heq, hnone, Option.bind_none]
    · rfl
  · rename_i client hsome
    rw [hsome, Option.bind_some, left]
    by_cases heq : other = slot
    · subst heq
      rw [if_pos rfl]
      split_ifs <;> simp [putClient, dropClient]
    · rw [if_neg heq]
      split_ifs <;> simp [putClient, dropClient, heq]

/-- A client after the visits. -/
theorem clients_visitClients (s : Server) (visit : Slot → Client → Client × Bool) (slot : Slot) :
    (s.visitClients visit).clients slot = (s.clients slot).bind (left (visit slot)) := by
  have hall : ∀ (slots : List Slot) (s : Server), slots.Nodup →
      (slots.foldl (fun s slot => s.visitClient slot (visit slot)) s).clients slot =
        if slot ∈ slots then (s.clients slot).bind (left (visit slot)) else s.clients slot := by
    intro slots
    induction slots with
    | nil => intros; simp
    | cons first slots ih =>
      intro s hnodup
      obtain ⟨hfirst, hrest⟩ := List.nodup_cons.mp hnodup
      rw [List.foldl_cons, ih _ hrest, clients_visitClient]
      by_cases heq : slot = first
      · subst heq
        simp [hfirst]
      · simp [heq]
  rw [visitClients, hall _ _ (List.nodup_finRange maxClients), if_pos (List.mem_finRange slot)]

theorem mem_closed_visitClient {s : Server} {slot : Slot} {visit : Client → Client × Bool} {client : Client}
    (h : client ∈ (s.visitClient slot visit).closed) :
    client ∈ s.closed ∨ ∃ before, s.clients slot = some before ∧ client = (visit before).1 := by
  unfold visitClient at h
  split at h
  · exact .inl h
  · rename_i before hbefore
    split_ifs at h
    · exact .inl h
    · rcases List.mem_append.mp h with h | h
      · exact .inl h
      · exact .inr ⟨before, hbefore, List.mem_singleton.mp h⟩

/-- A client that is gone after the visits was before, or was visited. -/
theorem mem_closed_visitClients {s : Server} {visit : Slot → Client → Client × Bool} {client : Client}
    (h : client ∈ (s.visitClients visit).closed) :
    client ∈ s.closed ∨ ∃ slot before, s.clients slot = some before ∧ client = (visit slot before).1 := by
  have hall : ∀ (slots : List Slot) (s : Server), slots.Nodup →
      client ∈ (slots.foldl (fun s slot => s.visitClient slot (visit slot)) s).closed →
        client ∈ s.closed ∨ ∃ slot ∈ slots, ∃ before, s.clients slot = some before ∧ client = (visit slot before).1 := by
    intro slots
    induction slots with
    | nil => exact fun _ _ hmem => .inl hmem
    | cons first slots ih =>
      intro s hnodup hmem
      obtain ⟨hfirst, hrest⟩ := List.nodup_cons.mp hnodup
      rcases ih _ hrest hmem with hmem | ⟨slot, hslot, before, hbefore, rfl⟩
      · refine (mem_closed_visitClient hmem).imp id fun ⟨before, hbefore⟩ => ?_
        exact ⟨first, List.mem_cons_self, before, hbefore⟩
      · refine .inr ⟨slot, List.mem_cons_of_mem first hslot, before, ?_, rfl⟩
        rwa [clients_visitClient, if_neg (ne_of_mem_of_not_mem hslot hfirst)] at hbefore
  rcases hall _ s (List.nodup_finRange maxClients) h with h | ⟨slot, -, before, hbefore⟩
  · exact .inl h
  · exact .inr ⟨slot, before, hbefore⟩

end Server

/-! ## The invariant -/

/-- What a connection that is closed was sent. -/
def Gone (history : List Occurrence) (client : Client) : Prop :=
  TurnedAway client ∨ Waits client ∨ Refused client ∨ ∃ earlier, earlier <:+ history ∧ Watches earlier client

theorem Gone.more {history : List Occurrence} {client : Client} (h : Gone history client) (occurrence : Occurrence) :
    Gone (occurrence :: history) client := by
  refine h.imp id (Or.imp id (Or.imp id fun ⟨earlier, hearlier, hwatches⟩ => ⟨earlier, ?_, hwatches⟩))
  exact hearlier.trans (List.suffix_cons occurrence history)

/-- What holds of the daemon in every run. -/
structure Kept (s : Server) : Prop where
  fds : (s.keyboards.map Keyboard.fd).Nodup
  resyncing : ∀ keyboard ∈ s.keyboards, keyboard.resyncing = overflowing keyboard.fd s.history
  /-- A keyboard that last showed a key down is open. -/
  shown : ∀ key began fd, lastShown fd (shownSince key began s.history) = some true → fd ∈ s.keyboards.map Keyboard.fd
  clients : ∀ slot client, s.clients slot = some client → Waits client ∨ Watches s.history client
  closed : ∀ client ∈ s.closed, Gone s.history client

theorem lastShown_cons {κ : Type*} [DecidableEq κ] (k other : κ) (down : Bool) (shown : List (κ × Bool)) :
    lastShown k ((other, down) :: shown) = if other = k then some down else lastShown k shown := by
  by_cases h : other = k <;> simp [lastShown, h]

/-- A keyboard last showed a key down in this occurrence, or before and not up in it. -/
theorem lastShown_shownSince_cons {key began fd : ℕ} {occurrence : Occurrence} {history : List Occurrence}
    (h : lastShown fd (shownSince key began (occurrence :: history)) = some true) :
    shows key history occurrence = some (fd, true) ∨
      lastShown fd (shownSince key began history) = some true ∧ shows key history occurrence ≠ some (fd, false) := by
  rw [shownSince] at h
  split_ifs at h with hbegan
  · simp [lastShown] at h
  · split at h
    · rename_i shown hshows
      obtain ⟨other, down⟩ := shown
      rw [lastShown_cons] at h
      split_ifs at h with heq
      · exact .inl (by rw [hshows, heq, Option.some.inj h])
      · exact .inr ⟨h, by simp [hshows, heq]⟩
    · rename_i hshows
      exact .inr ⟨h, by simp [hshows]⟩

theorem Waits.releaseHold {client : Client} (h : Waits client) (keyboardFd now : ℕ) (written : Bool) :
    (client.releaseHold keyboardFd now written).1 = client := by
  rw [Client.releaseHold, if_neg (by simp [h.holders])]

/-- **A step over the clients**: if what is left of each is in line with what happened, so is all that is left. -/
theorem Kept.visitClients {s s' : Server} {occurrence : Occurrence} {visit : Slot → Client → Client × Bool}
    (h : Kept s) (hclients : s'.clients = s.clients) (hclosed : s'.closed = s.closed)
    (hwaits : ∀ slot client, Waits client → (visit slot client).1 = client)
    (hwatches : ∀ slot client, Watches s.history client → Watches (occurrence :: s.history) (visit slot client).1) :
    (∀ slot client, (s'.visitClients visit).clients slot = some client →
        Waits client ∨ Watches (occurrence :: s.history) client) ∧
      ∀ client ∈ (s'.visitClients visit).closed, Gone (occurrence :: s.history) client := by
  have hafter : ∀ slot before, s.clients slot = some before →
      Waits (visit slot before).1 ∨ Watches (occurrence :: s.history) (visit slot before).1 := by
    intro slot before hbefore
    rcases h.clients slot before hbefore with hwait | hwatch
    · exact .inl ((hwaits slot before hwait).symm ▸ hwait)
    · exact .inr (hwatches slot before hwatch)
  refine ⟨fun slot client hclient => ?_, fun client hclient => ?_⟩
  · rw [Server.clients_visitClients, hclients] at hclient
    obtain ⟨before, hbefore, hleft⟩ := Option.bind_eq_some_iff.mp hclient
    rw [Server.left] at hleft
    split_ifs at hleft
    exact Option.some.inj hleft ▸ hafter slot before hbefore
  · rcases Server.mem_closed_visitClients hclient with hclient | ⟨slot, before, hbefore, rfl⟩
    · exact (h.closed client (hclosed ▸ hclient)).more occurrence
    · rw [hclients] at hbefore
      rcases hafter slot before hbefore with hwait | hwatch
      · exact .inr (.inl hwait)
      · exact .inr (.inr (.inr ⟨_, List.suffix_rfl, hwatch⟩))

/-- The same, when nothing that happened shows anything of a watched key. -/
theorem Kept.unvisited {s : Server} {occurrence : Occurrence} (h : Kept s)
    (hshows : ∀ key, shows key s.history occurrence = none) :
    (∀ slot client, s.clients slot = some client → Waits client ∨ Watches (occurrence :: s.history) client) ∧
      ∀ client ∈ s.closed, Gone (occurrence :: s.history) client :=
  ⟨fun slot client hclient => (h.clients slot client hclient).imp id fun hwatch => hwatch.keep (hshows _),
    fun client hclient => (h.closed client hclient).more occurrence⟩

/-! ## Events of keyboards -/

theorem overflowing_read_ne {fd other : ℕ} (h : other ≠ fd) (event : InputEvent) (history : List Occurrence) :
    overflowing fd (.read other event :: history) = overflowing fd history := by
  cases event <;> simp [overflowing, h]

/-- What an event of a keyboard shows is that keyboard's. -/
theorem fd_of_shows_read {key keyboardFd fd : ℕ} {down : Bool} {event : InputEvent} {history : List Occurrence}
    (h : shows key history (.read keyboardFd event) = some (fd, down)) : keyboardFd = fd := by
  cases event with
  | synDropped => cases h
  | other => cases h
  | synReport keyBits =>
    rw [shows] at h
    split_ifs at h
    exact (Prod.mk.inj (Option.some.inj h)).1
  | key code value =>
    rw [shows] at h
    split_ifs at h
    exact (Prod.mk.inj (Option.some.inj h)).1

section Equations

variable (s : Server) (keyboardFd : ℕ) (written : Slot → Bool)

theorem readEvent_synReport (keyBits : Option (ℕ → Bool)) :
    s.readEvent keyboardFd (.synReport keyBits) written =
      if s.isResyncing keyboardFd then
        ((s.happened (.read keyboardFd (.synReport keyBits))).setResyncing keyboardFd false).reconcileHolds
          keyboardFd keyBits written
      else s.happened (.read keyboardFd (.synReport keyBits)) := rfl

theorem readEvent_key (code : KeyCode) (value : ℤ) :
    s.readEvent keyboardFd (.key code value) written =
      if s.isResyncing keyboardFd ∨ value = 2 then s.happened (.read keyboardFd (.key code value))
      else (s.happened (.read keyboardFd (.key code value))).report keyboardFd code (value = 1) written := rfl

/-- The history after an event of a keyboard. -/
theorem history_readEvent (event : InputEvent) :
    (s.readEvent keyboardFd event written).history = .read keyboardFd event :: s.history := by
  cases event with
  | synDropped => rfl
  | other => rfl
  | synReport keyBits =>
    rw [readEvent_synReport]
    split_ifs
    · cases keyBits <;> simp [Server.reconcileHolds, Server.releaseHeldKeys, Server.setResyncing, Server.happened]
    · rfl
  | key code value =>
    rw [readEvent_key]
    split_ifs
    · rfl
    · rw [Server.report, Server.history_visitClients]
      rfl

end Equations

/-- **A keyboard that is gone** keeps the invariant. -/
theorem Kept.dropKeyboard {s : Server} (h : Kept s) (keyboardFd : ℕ) (written : Slot → Bool) : Kept (s.dropKeyboard keyboardFd written) := by
  obtain ⟨hclients, hclosed⟩ : (∀ slot client, (s.dropKeyboard keyboardFd written).clients slot = some client →
        Waits client ∨ Watches (.closed keyboardFd :: s.history) client) ∧
      ∀ client ∈ (s.dropKeyboard keyboardFd written).closed, Gone (.closed keyboardFd :: s.history) client := by
    unfold Server.dropKeyboard Server.releaseHeldKeys
    refine h.visitClients rfl rfl (fun slot client hwait => hwait.releaseHold _ _ _) fun slot client hwatch => ?_
    have hshows : shows client.evdev s.history (.closed keyboardFd) = some (keyboardFd, false) := rfl
    exact hwatch.hold hshows s.now (written slot)
  have hkeyboards : (s.dropKeyboard keyboardFd written).keyboards = s.keyboards.eraseP (·.fd = keyboardFd) := by
    simp [Server.dropKeyboard, Server.releaseHeldKeys, Server.happened]
  have hhistory : (s.dropKeyboard keyboardFd written).history = .closed keyboardFd :: s.history := by
    simp [Server.dropKeyboard, Server.releaseHeldKeys, Server.happened]
  have hsublist : (s.keyboards.eraseP (·.fd = keyboardFd)).Sublist s.keyboards := List.eraseP_sublist
  refine ⟨?_, ?_, ?_, hhistory ▸ hclients, hhistory ▸ hclosed⟩
  · rw [hkeyboards]
    exact h.fds.sublist (hsublist.map _)
  · rw [hkeyboards, hhistory]
    exact fun keyboard hmem => h.resyncing keyboard (hsublist.subset hmem)
  · rw [hkeyboards, hhistory]
    intro key began fd hlast
    rcases lastShown_shownSince_cons hlast with hshows | ⟨hbefore, hup⟩
    · cases hshows
    · have hother : keyboardFd ≠ fd := fun heq => hup (by rw [heq]; rfl)
      obtain ⟨keyboard, hmem, rfl⟩ := List.mem_map.mp (h.shown key began fd hbefore)
      refine List.mem_map_of_mem ((List.mem_eraseP_of_neg ?_).mpr hmem)
      simpa using Ne.symm hother

section ReadEvent

variable {s : Server} {keyboardFd : ℕ} (h : Kept s) (hopen : keyboardFd ∈ s.keyboards.map Keyboard.fd)

include h hopen

theorem Kept.isResyncing_eq : s.isResyncing keyboardFd = overflowing keyboardFd s.history := by
  obtain ⟨keyboard, hmem, hfd⟩ := List.mem_map.mp hopen
  rw [Bool.eq_iff_iff, Server.isResyncing, List.any_eq_true]
  constructor
  · rintro ⟨other, hother, hresyncing⟩
    simp only [Bool.and_eq_true, decide_eq_true_eq] at hresyncing
    rw [← hresyncing.1, ← h.resyncing other hother]
    exact hresyncing.2
  · intro hoverflow
    refine ⟨keyboard, hmem, ?_⟩
    simp [hfd, h.resyncing keyboard hmem, hoverflow]

/-- The keyboards after an event of one: it is resyncing if its buffer has overflowed. -/
theorem Kept.keyboards_readEvent (event : InputEvent) (written : Slot → Bool) :
    (s.readEvent keyboardFd event written).keyboards = s.keyboards.map fun keyboard =>
      if keyboard.fd = keyboardFd then
        { keyboard with resyncing := overflowing keyboardFd (.read keyboardFd event :: s.history) }
      else keyboard := by
  have hsame : overflowing keyboardFd (.read keyboardFd event :: s.history) = overflowing keyboardFd s.history →
      s.keyboards = s.keyboards.map fun keyboard =>
        if keyboard.fd = keyboardFd then
          { keyboard with resyncing := overflowing keyboardFd (.read keyboardFd event :: s.history) }
        else keyboard := by
    intro hsame
    refine (List.map_id _).symm.trans (List.map_congr_left fun keyboard hmem => ?_)
    split_ifs with hfd
    · have hresyncing := h.resyncing keyboard hmem
      rw [hfd, ← hsame] at hresyncing
      rw [← hresyncing]
      rfl
    · rfl
  have hnow := h.isResyncing_eq hopen
  cases event with
  | synDropped =>
    rw [show overflowing keyboardFd (.read keyboardFd .synDropped :: s.history) = true from if_pos rfl]
    rfl
  | synReport keyBits =>
    have hover : overflowing keyboardFd (.read keyboardFd (.synReport keyBits) :: s.history) = false := if_pos rfl
    rw [readEvent_synReport]
    split_ifs with hresyncing
    · rw [hover]
      cases keyBits <;> simp [Server.reconcileHolds, Server.releaseHeldKeys, Server.setResyncing, Server.happened]
    · refine hsame ?_
      rw [hover, ← hnow]
      simpa using hresyncing
  | key code value =>
    rw [readEvent_key]
    split_ifs with hskip
    · exact hsame rfl
    · rw [Server.report, Server.keyboards_visitClients]
      exact hsame rfl
  | other => exact hsame rfl

/-- The clients after an event of a keyboard. -/
theorem Kept.clients_readEvent (event : InputEvent) (written : Slot → Bool) :
    (∀ slot client, (s.readEvent keyboardFd event written).clients slot = some client →
        Waits client ∨ Watches (.read keyboardFd event :: s.history) client) ∧
      ∀ client ∈ (s.readEvent keyboardFd event written).closed,
        Gone (.read keyboardFd event :: s.history) client := by
  have hnow := h.isResyncing_eq hopen
  cases event with
  | synDropped => exact h.unvisited fun key => rfl
  | other => exact h.unvisited fun key => rfl
  | synReport keyBits =>
    rw [readEvent_synReport]
    split_ifs with hresyncing
    · have hshows : ∀ key, shows key s.history (.read keyboardFd (.synReport keyBits)) =
          some (keyboardFd, keyBits.elim false (· key)) := fun key => if_pos (hnow ▸ hresyncing)
      cases keyBits with
      | none =>
        rw [Server.reconcileHolds, Server.releaseHeldKeys]
        refine h.visitClients rfl rfl (fun slot client hwait => hwait.releaseHold _ _ _) fun slot client hwatch => ?_
        exact hwatch.hold (hshows client.evdev) _ _
      | some bits =>
        rw [Server.reconcileHolds]
        refine h.visitClients rfl rfl (fun slot client hwait => ?_) fun slot client hwatch => ?_
        · rw [if_pos hwait.evdev]
        · rw [if_neg hwatch.evdev_ne_zero]
          exact hwatch.hold (hshows client.evdev) _ _
    · refine h.unvisited fun key => if_neg ?_
      rwa [← hnow]
  | key code value =>
    rw [readEvent_key]
    split_ifs with hskip
    · refine h.unvisited fun key => if_pos ?_
      rw [← hnow]
      exact hskip.imp id .inl
    · rw [Server.report]
      refine h.visitClients rfl rfl (fun slot client hwait => ?_) fun slot client hwatch => ?_
      · rw [if_pos (by rw [hwait.evdev]; exact code.2.symm)]
      · split_ifs with hother
        · refine hwatch.keep (if_pos ?_)
          exact .inr (.inr fun heq => hother heq.symm)
        · have hshows : shows client.evdev s.history (.read keyboardFd (.key code value)) =
              some (keyboardFd, decide (value = 1)) := by
            refine if_neg ?_
            rw [← hnow]
            rintro (hresyncing | hrepeat | hcode)
            · exact hskip (.inl hresyncing)
            · exact hskip (.inr hrepeat)
            · exact hcode (not_not.mp hother).symm
          exact hwatch.hold hshows _ _

theorem Kept.fds_readEvent (event : InputEvent) (written : Slot → Bool) :
    (s.readEvent keyboardFd event written).keyboards.map Keyboard.fd = s.keyboards.map Keyboard.fd := by
  rw [h.keyboards_readEvent hopen event written, List.map_map]
  refine List.map_congr_left fun keyboard _ => ?_
  rw [Function.comp_apply]
  split_ifs <;> rfl

/-- **An event of a keyboard keeps the invariant.** -/
theorem Kept.readEvent (event : InputEvent) (written : Slot → Bool) :
    Kept (s.readEvent keyboardFd event written) := by
  have hkeyboards := h.keyboards_readEvent hopen event written
  have hfds := h.fds_readEvent hopen event written
  obtain ⟨hclients, hclosed⟩ := h.clients_readEvent hopen event written
  have hhistory := history_readEvent s keyboardFd written event
  refine ⟨hfds ▸ h.fds, ?_, ?_, hhistory ▸ hclients, hhistory ▸ hclosed⟩
  · rw [hkeyboards, hhistory]
    intro keyboard hmem
    obtain ⟨before, hbefore, rfl⟩ := List.mem_map.mp hmem
    split_ifs with hfd
    · rw [hfd]
    · rw [overflowing_read_ne (Ne.symm hfd)]
      exact h.resyncing before hbefore
  · rw [hfds, hhistory]
    intro key began fd hlast
    rcases lastShown_shownSince_cons hlast with hshows | ⟨hbefore, -⟩
    · exact fd_of_shows_read hshows ▸ hopen
    · exact h.shown key began fd hbefore

/-- **What a keyboard gives to read** keeps the invariant, its end included. -/
theorem Kept.readKeyboard (events : List (InputEvent × (Slot → Bool))) (gone : Option (Slot → Bool)) :
    Kept (s.readKeyboard keyboardFd events gone) := by
  have hevents : ∀ (events : List (InputEvent × (Slot → Bool))) (s : Server), Kept s →
      keyboardFd ∈ s.keyboards.map Keyboard.fd →
      Kept (events.foldl (fun s event => s.readEvent keyboardFd event.1 event.2) s) ∧
        keyboardFd ∈ (events.foldl (fun s event => s.readEvent keyboardFd event.1 event.2) s).keyboards.map
          Keyboard.fd := by
    intro events
    induction events with
    | nil => exact fun s h hopen => ⟨h, hopen⟩
    | cons event events ih =>
      intro s h hopen
      exact ih _ (h.readEvent hopen event.1 event.2) (h.fds_readEvent hopen event.1 event.2 ▸ hopen)
  obtain ⟨hkept, -⟩ := hevents events s h hopen
  cases gone with
  | none => exact hkept
  | some written => exact hkept.dropKeyboard keyboardFd written

end ReadEvent

/-! ## Clients come, ask and go -/

section Clients

variable {s s' : Server}

/-- A step that leaves the keyboards alone: each client and each connection that is closed is one as before, or right
as it is. -/
theorem Kept.sameKeyboards (h : Kept s) (hkeyboards : s'.keyboards = s.keyboards) (hhistory : s'.history = s.history)
    (hclients : ∀ slot client, s'.clients slot = some client →
      s.clients slot = some client ∨ Waits client ∨ Watches s.history client)
    (hclosed : ∀ client ∈ s'.closed, client ∈ s.closed ∨ Gone s.history client) : Kept s' where
  fds := hkeyboards ▸ h.fds
  resyncing := by
    rw [hkeyboards, hhistory]
    exact h.resyncing
  shown := by
    rw [hkeyboards, hhistory]
    exact h.shown
  clients slot client hclient := by
    rw [hhistory]
    exact (hclients slot client hclient).elim (h.clients slot client) id
  closed client hclient := by
    rw [hhistory]
    exact (hclosed client hclient).elim (h.closed client) id

/-- A client put in a slot. -/
theorem Kept.putClient (h : Kept s) {slot : Slot} {client : Client} (hclient : Waits client ∨ Watches s.history client) :
    Kept (s.putClient slot client) := by
  refine h.sameKeyboards rfl rfl (fun other found hfound => ?_) fun _ hmem => .inl hmem
  change Function.update s.clients slot (some client) other = some found at hfound
  rw [Function.update_apply] at hfound
  split_ifs at hfound
  · exact .inr (Option.some.inj hfound ▸ hclient)
  · exact .inl hfound

theorem Kept.dropClient (h : Kept s) {slot : Slot} {client : Client} (hclient : Gone s.history client) :
    Kept (s.dropClient slot client) := by
  refine h.sameKeyboards rfl rfl (fun other found hfound => ?_) fun gone hmem => ?_
  · change Function.update s.clients slot none other = some found at hfound
    rw [Function.update_apply] at hfound
    split_ifs at hfound
    exact .inl hfound
  · rcases List.mem_append.mp hmem with hmem | hmem
    · exact .inl hmem
    · exact .inr (List.mem_singleton.mp hmem ▸ hclient)

theorem Kept.refuse (h : Kept s) (uid pid : ℕ) : Kept (s.refuse uid pid) := by
  refine h.sameKeyboards rfl rfl (fun _ _ hfound => .inl hfound) fun gone hmem => ?_
  rcases List.mem_append.mp hmem with hmem | hmem
  · exact .inl hmem
  · rw [List.mem_singleton.mp hmem]
    exact .inr (.inl ⟨rfl, rfl⟩)

theorem Kept.acceptClient (h : Kept s) (uid pid : ℕ) : Kept (s.acceptClient uid pid) := by
  have hrate : ∀ rate, Kept { s with rate := rate } := fun rate =>
    h.sameKeyboards rfl rfl (fun _ _ hfound => .inl hfound) fun _ hmem => .inl hmem
  unfold Server.acceptClient
  split_ifs with hfull
  · exact h.refuse uid pid
  · dsimp only
    split_ifs
    · exact (hrate _).refuse uid pid
    · split
      · rename_i slot _
        have hput : Kept ({ s with rate := (s.rateLimited uid).2 }.putClient slot { uid, pid }) :=
          (hrate _).putClient (.inl ⟨Nat.zero_lt_two, rfl, rfl, rfl, rfl⟩)
        exact hput.sameKeyboards rfl rfl (fun _ _ hfound => .inl hfound) fun _ hmem => .inl hmem
      · exact hrate _

theorem refusal_eq_none {slot : Slot} {client : Client} {version keyId : UInt8} :
    s.refusal slot client version keyId = .none ↔ s.uidAtWatchLimit slot client.uid = false ∧
      oldestProtocolVersion ≤ version ∧ version ≤ protocolVersion ∧ permittedKeyById keyId ≠ none := by
  unfold Server.refusal
  split_ifs with hlimit hversion hkey
  · simp [hlimit]
  · simp only [false_iff]
    rintro ⟨-, hold, hnew, -⟩
    exact hversion.elim (UInt8.not_lt.mpr hold) (UInt8.not_lt.mpr hnew)
  · simp [hkey]
  · rw [not_or, UInt8.not_lt, UInt8.not_lt] at hversion
    simp [hlimit, hversion, hkey]

/-- **The answer to a whole request** keeps the invariant. -/
theorem Kept.answer (h : Kept s) {slot : Slot} {client : Client} {version keyId : UInt8}
    (hreceived : client.received = [version, keyId]) (hsent : client.sent = [])
    (hholders : client.holdingKeyboardFds = []) : Kept (s.answer slot client version keyId) := by
  unfold Server.answer
  dsimp only
  split
  · rename_i key hnone hkey
    obtain ⟨-, hold, hnew, -⟩ := refusal_eq_none.mp hnone
    have hshown : shownSince key.evdev s.history.length s.history = [] := shownSince_of_le le_rfl
    refine h.putClient (.inr ⟨?_, rfl, le_rfl, ?_, ?_⟩)
    · refine ⟨version, keyId, [], key, hreceived, hold, hnew, hkey, rfl, [], ?_⟩
      simp [hsent, hnone]
    · simp [Client.shown, hshown, hholders, holders]
    · simp [Client.events, Client.shown, hshown, hsent, transitions]
  · rename_i hrefused
    refine h.dropClient (.inr (.inr (.inl ⟨version, keyId, _, hreceived, ?_, by rw [hsent]; rfl⟩)))
    intro hnone
    obtain ⟨-, -, -, hkey⟩ := refusal_eq_none.mp hnone
    obtain ⟨key, hkey⟩ := Option.ne_none_iff_exists'.mp hkey
    exact hrefused key hnone hkey

/-- **What is read from a client** keeps the invariant. -/
theorem Kept.readClient (h : Kept s) {slot : Slot} {client : Client} (hclient : s.clients slot = some client)
    {got : ReadResult} (hgot : ∀ bytes, got = .bytes bytes → bytes.length ≤ 2 - client.pending.length) :
    Kept (s.readClient slot client got) := by
  have hright := h.clients slot client hclient
  cases got with
  | ended =>
    refine h.dropClient ?_
    rcases hright with hwait | hwatch
    · exact .inr (.inl hwait)
    · exact .inr (.inr (.inr ⟨_, List.suffix_rfl, hwatch⟩))
  | again => exact h
  | bytes bytes =>
    have hlength := hgot bytes rfl
    unfold Server.readClient
    dsimp only
    rcases hright with hwait | hwatch
    · rw [if_neg (by simp [hwait.evdev])]
      rw [hwait.pending] at hlength ⊢
      have := hwait.received
      split
      · rename_i version keyId rest hpending
        refine h.answer ?_ hwait.sent hwait.holders
        have hrest := congrArg List.length hpending
        simp only [List.length_append, List.length_cons] at hrest
        obtain rfl : rest = [] := List.length_eq_zero_iff.mp (by omega)
        exact hpending
      · rename_i hshort
        refine h.putClient (.inl ⟨?_, rfl, hwait.sent, hwait.evdev, hwait.holders⟩)
        rcases hwhole : client.received ++ bytes with _ | ⟨version, _ | ⟨keyId, rest⟩⟩
        · simp
        · simp
        · exact absurd hwhole (hshort version keyId rest)
    · rw [if_pos hwatch.evdev_ne_zero]
      refine h.putClient (.inr ⟨?_, hwatch.pending, hwatch.began, hwatch.holders, hwatch.events⟩)
      obtain ⟨version, keyId, rest, key, hreceived, hanswered⟩ := hwatch.answered
      exact ⟨version, keyId, rest ++ bytes, key, by simp [hreceived], hanswered⟩

end Clients

/-! ## Runs -/

theorem Kept.openKeyboard {s : Server} (h : Kept s) (name : String) {fd : ℕ}
    (hfresh : fd ∉ s.keyboards.map Keyboard.fd) : Kept (s.openKeyboard name fd) := by
  have hshows : ∀ key, shows key s.history (.opened fd) = none := fun _ => rfl
  obtain ⟨hclients, hclosed⟩ := h.unvisited hshows
  refine ⟨?_, ?_, ?_, hclients, hclosed⟩
  · simp only [Server.openKeyboard, List.map_append, List.map_cons, List.map_nil]
    exact (List.perm_append_singleton fd _).nodup_iff.mpr (List.nodup_cons.mpr ⟨hfresh, h.fds⟩)
  · intro keyboard hmem
    rcases List.mem_append.mp hmem with hmem | hmem
    · have hother : fd ≠ keyboard.fd := fun heq => hfresh (heq ▸ List.mem_map_of_mem hmem)
      rw [h.resyncing keyboard hmem]
      exact (if_neg hother).symm
    · rw [List.mem_singleton.mp hmem]
      exact (if_pos rfl).symm
  · intro key began other hlast
    rcases lastShown_shownSince_cons hlast with hshows | ⟨hbefore, -⟩
    · cases hshows
    · simp only [Server.openKeyboard, List.map_append]
      exact List.mem_append_left _ (h.shown key began other hbefore)

/-- **Every step keeps the invariant.** -/
theorem Kept.step {s s' : Server} {event : Server.Event} (h : Kept s) (hstep : s.step event = some s') : Kept s' := by
  cases event with
  | tick usec =>
    obtain rfl := Option.some.inj hstep
    exact h.sameKeyboards rfl rfl (fun _ _ hfound => .inl hfound) fun _ hmem => .inl hmem
  | connect uid pid =>
    obtain rfl := Option.some.inj hstep
    exact h.acceptClient uid pid
  | client slot got =>
    obtain ⟨client, hclient, hread⟩ := Option.bind_eq_some_iff.mp hstep
    cases got with
    | bytes bytes =>
      dsimp only at hread
      split_ifs at hread with hbytes
      obtain rfl := Option.some.inj hread
      exact h.readClient hclient fun _ heq => by cases heq; exact hbytes.2
    | again =>
      obtain rfl := Option.some.inj hread
      exact h.readClient hclient nofun
    | ended =>
      obtain rfl := Option.some.inj hread
      exact h.readClient hclient nofun
  | keyboard keyboardFd events gone =>
    simp only [Server.step] at hstep
    split_ifs at hstep with hopen
    obtain rfl := Option.some.inj hstep
    exact h.readKeyboard hopen events gone
  | plugged name fd =>
    simp only [Server.step] at hstep
    split_ifs at hstep with halready hfresh
    · obtain rfl := Option.some.inj hstep
      exact h
    · obtain rfl := Option.some.inj hstep
      exact h.openKeyboard name hfresh

/-- **The invariant holds in every run.** -/
theorem kept {s : Server} (h : Running s) : Kept s := by
  refine h.invariant ?_ fun s event s' _ hs hstep => hs.step hstep
  exact ⟨.nil, by simp, by simp [shownSince, lastShown], nofun, by simp⟩

/-- The events written to a client alternate, and the first is down. -/
def Alternates (events : List Bool) : Prop := events.IsChain (· ≠ ·) ∧ ∀ first ∈ events.head?, first = true

theorem Watches.alternates {history : List Occurrence} {client : Client} (h : Watches history client) :
    Alternates client.events := by
  rw [h.events]
  refine ⟨?_, ?_⟩
  · rw [List.isChain_reverse]
    exact (isChain_transitions _).imp fun _ _ => Ne.symm
  · rw [List.head?_reverse]
    exact getLast?_transitions _

theorem Gone.alternates {history : List Occurrence} {client : Client} (h : Gone history client) :
    Alternates client.events := by
  rcases h with h | h | ⟨_, _, _, _, _, h⟩ | ⟨_, _, h⟩
  · simp [Client.events, h.sent, Alternates]
  · simp [Client.events, h.sent, Alternates]
  · simp [Client.events, h, Alternates]
  · exact h.alternates

/-- **The key watcher never leaves a shortcut held or doubles it.** In every state of every run, the events written to
any client, those gone included, alternate and start with down, and the last one written to a watching client is down
exactly if an open keyboard last showed its key down since it began to watch. -/
theorem eventsRight (s : Server) (h : Running s) :
    (∀ client, (client ∈ s.closed ∨ ∃ slot, s.clients slot = some client) → Alternates client.events) ∧
      ∀ slot client, s.clients slot = some client → client.evdev ≠ 0 →
        (client.events.getLast? = some true ↔
          ∃ keyboard ∈ s.keyboards, lastShown keyboard.fd (client.shown s.history) = some true) := by
  have hkept := kept h
  refine ⟨fun client hclient => ?_, fun slot client hclient hevdev => ?_⟩
  · rcases hclient with hmem | ⟨slot, hslot⟩
    · exact (hkept.closed client hmem).alternates
    · rcases hkept.clients slot client hslot with hwait | hwatch
      · simp [Client.events, hwait.sent, Alternates]
      · exact hwatch.alternates
  · have hwatch : Watches s.history client :=
      (hkept.clients slot client hclient).resolve_left fun hwait => hevdev hwait.evdev
    rw [hwatch.events, List.getLast?_reverse, head?_transitions]
    constructor
    · intro hheld
      obtain ⟨fd, hfd⟩ := List.exists_mem_of_ne_nil _ hheld
      have hlast := mem_holders.mp hfd
      obtain ⟨keyboard, hmem, rfl⟩ := List.mem_map.mp (hkept.shown _ _ fd hlast)
      exact ⟨keyboard, hmem, hlast⟩
    · rintro ⟨keyboard, -, hlast⟩
      exact List.ne_nil_of_mem (mem_holders.mpr hlast)

/-- Caps Lock is pressed on a keyboard whose buffer overflows, and then on another one, which is unplugged. -/
def capsLockRun : List Server.Event :=
  let slot : Slot := ⟨0, by decide⟩
  let caps : KeyCode := ⟨58, by decide⟩
  let written : Slot → Bool := fun _ => true
  [.plugged "event3" 7, .plugged "event4" 8, .connect 1000 42, .client slot (.bytes [2]), .client slot (.bytes [9]),
    .keyboard 7 [(.synDropped, written), (.key caps 1, written), (.synReport (some (· = 58)), written)] none,
    .keyboard 8 [(.key caps 1, written)] (some written)]

theorem eventsRight_capsLock : ∃ s slot client, Running s ∧ s.clients slot = some client ∧
    client.events = [true] ∧ ∃ keyboard ∈ s.keyboards, lastShown keyboard.fd (client.shown s.history) = some true := by
  have hrun : (Reaches.runs Server.step (fun _ _ => True) {} capsLockRun).any (fun s =>
      (s.clients ⟨0, by decide⟩).any fun client => client.events = [true] && client.evdev ≠ 0) := by decide
  obtain ⟨s, hs, hclient⟩ := (Option.any_eq_true _ _).mp hrun
  obtain ⟨client, hclient, hevents⟩ := (Option.any_eq_true _ _).mp hclient
  simp only [Bool.and_eq_true, decide_eq_true_eq] at hevents
  have hrunning : Running s := .of_runs .start hs
  refine ⟨s, _, client, hrunning, hclient, hevents.1, ?_⟩
  exact ((eventsRight s hrunning).2 _ client hclient hevents.2).mp (by rw [hevents.1]; rfl)

end Speecher.Keywatch
