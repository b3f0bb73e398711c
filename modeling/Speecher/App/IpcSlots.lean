import Speecher.App.IpcFraming

/-!
# The accept slots

A connection that has asked nothing whole holds one of a few accept slots, and a deadline. The sweep that
closes it is due at most an interval after the deadline in every run where no other connection starts the
sweep timer anew once the deadline has passed (`framing_and_slots`); starting it anew puts the sweep off,
so other clients can keep such a connection open for any time (`slot_held_forever`).
-/

namespace Speecher

variable {json : JsonBytes} {fold : CaseFolding}

namespace Connection

/-- The connection holds an accept slot and has asked nothing whole. -/
def unserved (c : Connection) : Bool := c.accepted && c.emitted.isEmpty && c.inCommand.isNone

theorem unserved_iff (c : Connection) :
    c.unserved = true ↔ c.accepted = true ∧ c.emitted = [] ∧ c.inCommand = none := by
  simp [unserved, and_assoc]

/-- The server holds a connection with a deadline until it has asked something whole. -/
structure Held (c : Connection) : Prop where
  deadline : c.accepted = true → c.emitted = [] → c.inCommand = none → c.deadline.isSome = true
  unsent : c.unsent = true → c.emitted ≠ []
  connected : c.accepted = true → c.connected = false → c.unsent = true ∨ c.pendingDelete = true
  pendingDelete : c.pendingDelete = true → c.inCommand ≠ none
  statusWatcher : c.statusWatcher = true → c.emitted ≠ []
  inCommand : c.inCommand = some [] → c.emitted ≠ []

theorem held_free {c : Connection} (h : c.unsent = true → c.emitted ≠ [])
    (hwatcher : c.statusWatcher = true → c.emitted ≠ []) : c.free.Held where
  deadline haccepted := nomatch haccepted
  unsent := h
  connected haccepted := nomatch haccepted
  pendingDelete hpending := nomatch hpending
  statusWatcher := hwatcher
  inCommand hcommand := nomatch hcommand

/-- A socket that disconnects, whether or not it was closing. -/
theorem held_disconnected {c : Connection} (h : c.unsent = true → c.emitted ≠ [])
    (hwatcher : c.statusWatcher = true → c.emitted ≠ []) (hcommand : c.inCommand = some [] → c.emitted ≠ []) :
    c.disconnected.Held := by
  unfold disconnected
  split_ifs with hsome
  · have hne : c.inCommand ≠ none := fun hnone => by rw [hnone] at hsome; cases hsome
    exact ⟨fun _ _ hnone => absurd hnone hne, h, fun _ _ => .inr rfl, fun _ => hne, hwatcher, hcommand⟩
  · exact held_free h hwatcher

theorem Held.disconnectFromServer {c : Connection} (h : c.Held) : c.disconnectFromServer.Held := by
  unfold Connection.disconnectFromServer
  split_ifs with hconnected hunsent
  · exact h
  · exact ⟨h.deadline, h.unsent, fun _ _ => .inl hunsent, h.pendingDelete, h.statusWatcher, h.inCommand⟩
  · exact held_disconnected h.unsent h.statusWatcher h.inCommand

theorem held_fresh (now : ℕ) : (fresh now).Held :=
  ⟨fun _ _ _ => rfl, fun h => (nomatch h), fun _ h => (nomatch h), fun h => (nomatch h), fun h => (nomatch h),
    fun h => (nomatch h)⟩

theorem Held.readyRead {c : Connection} (h : c.Held) (now : ℕ) (bytes : Bytes) (hconnected : c.connected = true)
    (hcommand : c.inCommand = none) : (c.readyRead json now bytes).Held := by
  have hpending : c.pendingDelete = false := Bool.eq_false_iff.mpr fun hp => h.pendingDelete hp hcommand
  unfold Connection.readyRead
  by_cases hwatcher : c.statusWatcher = true
  · rw [if_pos hwatcher]
    exact ⟨h.deadline, h.unsent, h.connected, h.pendingDelete, h.statusWatcher, h.inCommand⟩
  rw [if_neg hwatcher]
  dsimp only
  -- A request taken off leaves no deadline, but is then in command.
  have hdeadline : c.accepted = true → c.emitted = [] → (c.requests json bytes).isEmpty = true →
      (c.nextDeadline json now bytes).isSome = true := by
    intro haccepted hemitted hrequests
    have hsome := h.deadline haccepted hemitted hcommand
    rw [nextDeadline, hrequests]
    split
    · exact hsome
    · cases c.deadline <;> rfl
  by_cases hlarge : c.requestTooLarge bytes = true
  · rw [if_pos hlarge]
    have hrequests : (c.requests json bytes).isEmpty = true := by
      rw [requests, cut, if_pos hlarge]
      rfl
    refine Held.disconnectFromServer ⟨fun ha he _ => hdeadline ha he hrequests, h.unsent, fun _ hc => ?_,
      h.pendingDelete, h.statusWatcher, h.inCommand⟩
    rw [show c.connected = false from hc] at hconnected
    cases hconnected
  · rw [if_neg hlarge]
    refine ⟨fun ha he hnone => hdeadline ha he ?_, h.unsent, h.connected, fun hp => ?_, h.statusWatcher, fun hc => ?_⟩
    · dsimp only at hnone
      split_ifs at hnone with hrequests
      exact hrequests
    · rw [show c.pendingDelete = true from hp] at hpending
      cases hpending
    · dsimp only at hc
      split_ifs at hc with hrequests
      rw [Option.some.inj hc] at hrequests
      exact absurd rfl hrequests

theorem Held.nextFrame {c : Connection} (h : c.Held) : (c.nextFrame json fold).Held := by
  unfold Connection.nextFrame
  split
  · exact h
  · rename_i hcommand
    split_ifs with hpending
    · exact held_free h.unsent h.statusWatcher
    · exact ⟨fun _ he _ => absurd he (h.inCommand hcommand), h.unsent, h.connected, fun hp => absurd hp hpending,
        h.statusWatcher, fun hc => (nomatch hc)⟩
  · rename_i frame frames hcommand
    have hpending : c.pendingDelete = true → ¬ (some ([] : List Bytes) = none) := fun _ h => nomatch h
    split_ifs with hwatcher
    · exact ⟨fun _ _ hc => (nomatch hc), h.unsent, h.connected, hpending, h.statusWatcher,
        fun _ => h.statusWatcher hwatcher⟩
    · exact ⟨fun _ _ hc => (nomatch hc), fun _ => by simp, h.connected, fun _ hc => (nomatch hc), fun _ => by simp,
        fun _ => by simp⟩

theorem Held.writeResponse {c : Connection} (h : c.Held) (unsent : Bool) (hemitted : c.emitted ≠ []) :
    (c.writeResponse unsent).Held := by
  unfold Connection.writeResponse
  split_ifs with hconnected
  · exact h
  · refine Held.disconnectFromServer ⟨h.deadline, fun _ => hemitted, fun _ hc => ?_, h.pendingDelete, h.statusWatcher,
      h.inCommand⟩
    exact absurd (show (!c.connected) = true by rw [show c.connected = false from hc]; rfl) hconnected

theorem Held.addStatusWatcher {c : Connection} (h : c.Held) (unsent : Bool) (hemitted : c.emitted ≠ []) :
    (c.addStatusWatcher unsent).Held := by
  unfold Connection.addStatusWatcher
  split_ifs
  · exact h
  · exact ⟨fun ha => (nomatch ha), fun _ => hemitted, fun ha => (nomatch ha), h.pendingDelete, fun _ => hemitted,
      h.inCommand⟩

theorem Held.bytesWritten {c : Connection} (h : c.Held) : c.bytesWritten.Held := by
  unfold Connection.bytesWritten
  split_ifs with hconnected
  · refine ⟨h.deadline, fun hu => (nomatch hu), fun _ hc => ?_, h.pendingDelete, h.statusWatcher, h.inCommand⟩
    rw [show c.connected = false from hc] at hconnected
    cases hconnected
  · exact held_disconnected (fun hu => (nomatch hu)) h.statusWatcher h.inCommand

end Connection

theorem keeps_held : IpcServer.Keeps json fold Connection.Held where
  fresh := Connection.held_fresh
  readyRead now bytes h hconnected hcommand := h.readyRead now bytes hconnected hcommand
  nextFrame h := h.nextFrame
  writeResponse unsent h hemitted := h.writeResponse unsent hemitted
  addStatusWatcher unsent h hemitted := h.addStatusWatcher unsent hemitted
  bytesWritten h := h.bytesWritten
  disconnected h := Connection.held_disconnected h.unsent h.statusWatcher h.inCommand
  disconnectFromServer h := h.disconnectFromServer

/-! ## Slots -/

namespace Connection

theorem accepted_disconnected {c : Connection} (h : c.disconnected.accepted = true) : c.accepted = true := by
  unfold disconnected at h
  split_ifs at h
  · exact h
  · cases h

theorem accepted_disconnectFromServer {c : Connection} (h : c.disconnectFromServer.accepted = true) :
    c.accepted = true := by
  unfold disconnectFromServer at h
  split_ifs at h
  · exact h
  · exact h
  · exact accepted_disconnected h

theorem not_unserved_of_emitted {c : Connection} (h : c.emitted ≠ []) : c.unserved = false :=
  Bool.eq_false_iff.mpr fun hu => h ((unserved_iff c).mp hu).2.1

theorem not_unserved_disconnected (c : Connection) : c.disconnected.unserved = false := by
  unfold disconnected
  refine Bool.eq_false_iff.mpr fun hu => ?_
  obtain ⟨haccepted, -, hcommand⟩ := (unserved_iff _).mp hu
  split_ifs at haccepted hcommand with hsome
  · rw [show c.inCommand = none from hcommand] at hsome
    cases hsome
  · cases haccepted

/-- Closing a connection that was told nothing frees its slot at once. -/
theorem not_unserved_disconnectFromServer {c : Connection} (hunsent : c.unsent = true → c.emitted ≠ [])
    (hconnected : c.unserved = true → c.connected = true) : c.disconnectFromServer.unserved = false := by
  unfold disconnectFromServer
  split_ifs with hclosed hu
  · refine Bool.eq_false_iff.mpr fun hunserved => ?_
    rw [hconnected hunserved] at hclosed
    cases hclosed
  · exact not_unserved_of_emitted (c := { c with connected := false }) (hunsent hu)
  · exact not_unserved_disconnected c

theorem Held.connected_of_unserved {c : Connection} (h : c.Held) (hu : c.unserved = true) : c.connected = true := by
  obtain ⟨haccepted, hemitted, hcommand⟩ := (unserved_iff c).mp hu
  refine by_contra fun hconnected => ?_
  rcases h.connected haccepted (Bool.eq_false_iff.mpr hconnected) with hunsent | hpending
  · exact h.unsent hunsent hemitted
  · exact h.pendingDelete hpending hcommand

/-- **A sweep past its deadline frees a slot.** -/
theorem Held.swept {c : Connection} (h : c.Held) {now : ℕ} (hu : (c.swept now).unserved = true) :
    c.swept now = c ∧ ∀ d ∈ c.deadline, now < d := by
  unfold Connection.swept at hu ⊢
  split_ifs at hu ⊢ with hexpired
  · rw [not_unserved_disconnectFromServer h.unsent h.connected_of_unserved] at hu
    cases hu
  · refine ⟨rfl, fun d hd => ?_⟩
    rw [Option.mem_def.mp hd, Option.any_some, decide_eq_true_eq] at hexpired
    omega

/-- A read that takes no request leaves the deadline. -/
theorem Held.unserved_readyRead {c : Connection} (h : c.Held) {now : ℕ} {bytes : Bytes} (hconnected : c.connected = true)
    (hcommand : c.inCommand = none) (hu : (c.readyRead json now bytes).unserved = true) :
    c.unserved = true ∧ (c.readyRead json now bytes).deadline = c.deadline := by
  unfold Connection.readyRead at hu ⊢
  by_cases hwatcher : c.statusWatcher = true
  · rw [if_pos hwatcher] at hu ⊢
    exact ⟨hu, rfl⟩
  rw [if_neg hwatcher] at hu ⊢
  dsimp only at hu ⊢
  by_cases hlarge : c.requestTooLarge bytes = true
  · rw [if_pos hlarge] at hu
    refine absurd hu (Bool.eq_false_iff.mp ?_)
    exact not_unserved_disconnectFromServer h.unsent fun _ => hconnected
  · rw [if_neg hlarge] at hu ⊢
    obtain ⟨haccepted, hemitted, hnone⟩ := (unserved_iff _).mp hu
    refine ⟨(unserved_iff c).mpr ⟨haccepted, hemitted, hcommand⟩, ?_⟩
    have hrequests : (c.requests json bytes).isEmpty = true := by
      dsimp only at hnone
      split_ifs at hnone with hrequests
      exact hrequests
    obtain ⟨d, hd⟩ := Option.isSome_iff_exists.mp (h.deadline haccepted hemitted hcommand)
    show c.nextDeadline json now bytes = c.deadline
    rw [nextDeadline, hrequests, hd]
    split <;> rfl

end Connection

namespace IpcServer

theorem Change.accepted {now : ℕ} {c c' : Connection} (h : Change json fold now c c') (haccepted : c'.accepted = true) :
    c.accepted = true := by
  cases h with
  | same => exact haccepted
  | readyRead bytes _ _ =>
    unfold Connection.readyRead at haccepted
    split_ifs at haccepted
    · exact haccepted
    · have hbefore := Connection.accepted_disconnectFromServer haccepted
      exact hbefore
    · exact haccepted
    · exact haccepted
  | nextFrame =>
    unfold Connection.nextFrame at haccepted
    split at haccepted
    · exact haccepted
    · split_ifs at haccepted
      · cases haccepted
      · exact haccepted
    · split_ifs at haccepted
      · exact haccepted
      · exact haccepted
  | writeResponse unsent _ =>
    unfold Connection.writeResponse at haccepted
    split_ifs at haccepted
    · exact haccepted
    · have hbefore := Connection.accepted_disconnectFromServer haccepted
      exact hbefore
  | addStatusWatcher unsent _ =>
    unfold Connection.addStatusWatcher at haccepted
    split_ifs at haccepted
    exact haccepted
  | bytesWritten =>
    unfold Connection.bytesWritten at haccepted
    split_ifs at haccepted
    · exact haccepted
    · have hbefore := Connection.accepted_disconnected haccepted
      exact hbefore
  | disconnected => exact Connection.accepted_disconnected haccepted
  | swept =>
    unfold Connection.swept at haccepted
    split_ifs at haccepted
    · have hbefore := Connection.accepted_disconnectFromServer haccepted
      exact hbefore
    · exact haccepted

/-- A connection that has asked nothing after an event had asked nothing before, and keeps its deadline. -/
theorem Change.unserved {now : ℕ} {c c' : Connection} (h : Change json fold now c c') (hheld : c.Held)
    (hu : c'.unserved = true) : c.unserved = true ∧ c'.deadline = c.deadline := by
  have hanswered : ∀ {c' : Connection}, c'.emitted = c.emitted → c.emitted ≠ [] → c'.unserved = true →
      c.unserved = true ∧ c'.deadline = c.deadline := by
    intro c' heq hemitted hu
    rw [Connection.not_unserved_of_emitted (by rw [heq]; exact hemitted)] at hu
    cases hu
  cases h with
  | same => exact ⟨hu, rfl⟩
  | readyRead bytes hconnected hcommand => exact hheld.unserved_readyRead hconnected hcommand hu
  | nextFrame =>
    revert hu
    unfold Connection.nextFrame
    split
    · exact fun hu => ⟨hu, rfl⟩
    · rename_i hcommand
      split_ifs
      · exact fun hu => nomatch hu
      · exact hanswered rfl (hheld.inCommand hcommand)
    · rename_i frame frames hcommand
      split_ifs
      · intro hu
        cases ((Connection.unserved_iff _).mp hu).2.2
      · intro hu
        exact absurd ((Connection.unserved_iff _).mp hu).2.1 (by simp)
  | writeResponse unsent hemitted => exact hanswered (Connection.quiet_writeResponse c unsent).emitted hemitted hu
  | addStatusWatcher unsent hemitted =>
    refine hanswered ?_ hemitted hu
    unfold Connection.addStatusWatcher
    split_ifs <;> rfl
  | bytesWritten =>
    unfold Connection.bytesWritten at hu ⊢
    split_ifs at hu ⊢
    · exact ⟨hu, rfl⟩
    · rw [Connection.not_unserved_disconnected] at hu
      cases hu
  | disconnected =>
    rw [Connection.not_unserved_disconnected] at hu
    cases hu
  | swept =>
    have hsame := (hheld.swept hu).1
    rw [hsame] at hu ⊢
    exact ⟨hu, rfl⟩

theorem countP_le_of_forall₂ {α : Type*} {R : α → α → Prop} {p : α → Bool} {l l' : List α} (h : List.Forall₂ R l l')
    (hp : ∀ a b, R a b → p b = true → p a = true) : l'.countP p ≤ l.countP p := by
  induction h with
  | nil => exact le_rfl
  | @cons a b l l' hab _ ih =>
    rw [List.countP_cons, List.countP_cons]
    by_cases hb : p b = true
    · rw [if_pos hb, if_pos (hp a b hab hb)]
      omega
    · rw [if_neg hb]
      omega

variable {ok : IpcServer → Event → Prop} {s : IpcServer}

/-- The slots are never more than the limit. -/
theorem acceptedSockets_le (hs : Reaches (step json fold) ok init s) : s.acceptedSockets ≤ maximumAcceptedSockets := by
  refine hs.invariant (P := fun s => s.acceptedSockets ≤ maximumAcceptedSockets) (Nat.zero_le _)
    fun s e s' _ hle hstep => ?_
  obtain ⟨changed, hchanged, hconnections⟩ := step_connections hstep
  have hcount : changed.countP (·.accepted) ≤ s.acceptedSockets :=
    countP_le_of_forall₂ hchanged fun c c' hc hc' => hc.accepted hc'
  rw [acceptedSockets]
  rcases hconnections with heq | ⟨heq, hroom, -⟩
  · rw [heq]
    exact hcount.trans hle
  · rw [heq, List.countP_append]
    have : [Connection.fresh s.now].countP (·.accepted) = 1 := rfl
    omega

/-! ## Deadlines -/

variable (json) in
/-- No event starts the sweep timer anew once the deadline of a connection that has asked nothing has
passed. -/
def Unhurried (s : IpcServer) (e : Event) : Prop :=
  s.arms json e = true → ∀ c ∈ s.connections, c.unserved = true → ∀ d ∈ c.deadline, s.now ≤ d

/-- A connection that has asked nothing has a deadline, and the next sweep is due at most an interval
after it. -/
def DueInTime (s : IpcServer) : Prop :=
  ∀ c ∈ s.connections, c.unserved = true →
    ∃ d due, c.deadline = some d ∧ s.expirySweep = some due ∧ due ≤ d + expirySweepIntervalMs

theorem dueInTime_sweep {s s' : IpcServer} (hheld : ∀ c ∈ s.connections, c.Held)
    (hstep : s.step json fold .sweep = some s') : s'.DueInTime := by
  simp only [IpcServer.step, Option.ite_none_right_eq_some] at hstep
  obtain ⟨-, hstep⟩ := hstep
  obtain rfl := Option.some.inj hstep
  intro c' hc' hu
  obtain ⟨c, hc, rfl⟩ := List.mem_map.mp hc'
  obtain ⟨heq, hlate⟩ := (hheld c hc).swept hu
  rw [heq] at hu
  obtain ⟨haccepted, hemitted, hcommand⟩ := (Connection.unserved_iff c).mp hu
  obtain ⟨d, hd⟩ := Option.isSome_iff_exists.mp ((hheld c hc).deadline haccepted hemitted hcommand)
  refine ⟨d, s.now + expirySweepIntervalMs, by rw [heq]; exact hd, if_neg ?_, ?_⟩
  · intro hall
    have hnone := (List.all_eq_true.mp hall) _ hc'
    rw [heq, hd] at hnone
    cases hnone
  · have := hlate d hd
    omega

theorem dueInTime_step {s s' : IpcServer} {e : Event} (hheld : ∀ c ∈ s.connections, c.Held) (hdue : s.DueInTime)
    (hok : Unhurried json s e) (hstep : s.step json fold e = some s') : s'.DueInTime := by
  by_cases he : e = .sweep
  · subst he
    exact dueInTime_sweep hheld hstep
  have hsweep := step_expirySweep hstep he
  obtain ⟨changed, hchanged, hconnections⟩ := step_connections hstep
  -- A connection from before the event: the timer runs on, or anew before its deadline.
  have hbefore : ∀ c' ∈ changed, c'.unserved = true →
      ∃ d due, c'.deadline = some d ∧ s'.expirySweep = some due ∧ due ≤ d + expirySweepIntervalMs := by
    intro c' hc' hu
    obtain ⟨c, hc, hchange⟩ := exists_of_forall₂ hchanged hc'
    obtain ⟨hu', hdeadline⟩ := hchange.unserved (hheld c hc) hu
    obtain ⟨d, due, hd, hdue', hle⟩ := hdue c hc hu'
    rw [hdeadline, hsweep]
    by_cases harms : s.arms json e = true
    · rw [if_pos harms]
      exact ⟨d, _, hd, rfl, Nat.add_le_add_right (hok harms c hc hu' d hd) _⟩
    · rw [if_neg harms]
      exact ⟨d, due, hd, hdue', hle⟩
  rcases hconnections with heq | ⟨heq, -, hfresh⟩
  · rw [DueInTime, heq]
    exact hbefore
  · intro c hc hu
    rw [heq] at hc
    rcases List.mem_append.mp hc with hc | hc
    · exact hbefore c hc hu
    · rw [List.mem_singleton.mp hc]
      exact ⟨_, _, rfl, hfresh, by omega⟩

/-- **The sweep is due in time**, in every run that does not put it off. -/
theorem dueInTime (hs : Reaches (step json fold) (Unhurried json) init s) : s.DueInTime := by
  induction hs with
  | start => exact fun _ hc => nomatch hc
  | next e hreach hok hstep ih => exact dueInTime_step (keeps_held.holds hreach) ih hok hstep

/-! ## Both -/

/-- The accept slots of a server: no more than the limit hold one, and a connection that has asked nothing
gives it back by the first sweep after its deadline, which is due in time. -/
structure SlotsFreed (json : JsonBytes) (fold : CaseFolding) (s : IpcServer) : Prop where
  limit : s.connections.countP (·.unserved) ≤ maximumAcceptedSockets
  due : s.DueInTime
  swept : ∀ s', s.step json fold .sweep = some s' → ∀ c ∈ s'.connections, c.unserved = true →
    ∀ d ∈ c.deadline, s.now < d

/-- **Framing does not depend on the reads, and slots are freed**, in every run that does not put the
sweep off. -/
theorem framing_and_slots (hs : Reaches (step json fold) (Unhurried json) init s) :
    (∀ c ∈ s.connections, ∀ frames, Sends json fold c.received frames [] → c.inCommand = none →
      c.emitted = (frames.map (requestFromBytes json fold)).take (c.watchedAt.getD frames.length)) ∧
    SlotsFreed json fold s := by
  refine ⟨fun c hc frames hsends hcommand => emitted_eq hs hc hsends hcommand, ?_, dueInTime hs, ?_⟩
  · refine le_trans (List.countP_mono_left fun c _ hu => ?_) (acceptedSockets_le hs)
    exact ((Connection.unserved_iff c).mp hu).1
  · intro s' hstep c' hc' hu d hd
    simp only [IpcServer.step, Option.ite_none_right_eq_some] at hstep
    obtain ⟨-, hstep⟩ := hstep
    obtain rfl := Option.some.inj hstep
    obtain ⟨c, hc, rfl⟩ := List.mem_map.mp hc'
    obtain ⟨heq, hlate⟩ := (keeps_held.holds hs c hc).swept hu
    rw [heq] at hd
    exact hlate d hd

instance (s : IpcServer) (e : Event) : Decidable (Unhurried json s e) :=
  inferInstanceAs (Decidable (_ → ∀ c ∈ s.connections, c.unserved = true → ∀ d ∈ c.deadline, s.now ≤ d))

/-- The frame of a request for the status. -/
def statusFrame : Bytes := "\x7b\"command\":\"status\"\x7d".toUTF8.toList

/-- A client asks for the status in two reads, and is answered. -/
def statusInTwoReads : List Event :=
  [.newConnection true, .readyRead 0 (statusFrame.take 15), .pass 10, .readyRead 0 (statusFrame.drop 15 ++ [newline]),
    .nextFrame 0, .writeResponse 0 false, .nextFrame 0]

/-- What became of the connection: answered and gone. -/
def statusServed : Connection :=
  { (Connection.fresh 0).free with
    received := statusFrame ++ [newline]
    emitted := [requestFromBytes .ascii .ascii statusFrame] }

theorem runs_statusInTwoReads : Reaches.runs (step .ascii .ascii) (Unhurried .ascii) init statusInTwoReads =
    some ⟨10, some 500, [statusServed]⟩ := by
  decide +kernel

/-- A status asked for in two reads is emitted once. -/
theorem framing_and_slots_status : statusServed.emitted = [requestFromBytes .ascii .ascii statusFrame] ∧
    SlotsFreed .ascii .ascii ⟨10, some 500, [statusServed]⟩ := by
  have hsends : Sends .ascii .ascii statusServed.received [statusFrame] [] := by
    refine ⟨fun frame hframe => ?_, rfl, by decide +kernel⟩
    rw [List.mem_singleton.mp hframe]
    exact ⟨by decide +kernel, ⟨.status, ⟨none, none, none⟩, [], [], false⟩, by decide +kernel⟩
  have h := framing_and_slots (Reaches.of_runs .start runs_statusInTwoReads)
  exact ⟨h.1 statusServed List.mem_cons_self [statusFrame] hsends rfl, h.2⟩

/-! ## Putting the sweep off -/

/-- A timer that is due fires before time passes. -/
def OnTime (s : IpcServer) (e : Event) : Prop :=
  match e with
  | .pass ms => ∀ due ∈ s.expirySweep, s.now + ms ≤ due
  | _ => True

theorem modify_concat {α : Type*} (l : List α) (a : α) (f : α → α) : (l ++ [a]).modify l.length f = l ++ [f a] := by
  induction l with
  | nil => rfl
  | cons b l ih => rw [List.cons_append, List.length_cons, List.modify_succ_cons, ih, List.cons_append]

/-- A client connects and says nothing; every 400 ms another connects and leaves. -/
theorem reaches_held (json : JsonBytes) (fold : CaseFolding) (n : ℕ) :
    ∃ s, Reaches (step json fold) OnTime init s ∧ s.now = 400 * n ∧
      ∃ gone, s.connections = Connection.fresh 0 :: gone ∧ ∀ c ∈ gone, c.accepted = false := by
  induction n with
  | zero =>
    refine ⟨_, .next (.newConnection true) .start trivial rfl, rfl, [], rfl, fun _ hc => nomatch hc⟩
  | succ n ih =>
    obtain ⟨s, hs, hnow, gone, hconnections, hgone⟩ := ih
    have hcount : s.acceptedSockets = 1 := by
      rw [acceptedSockets, hconnections, List.countP_cons, List.countP_eq_zero.mpr (by simpa using hgone)]
      rfl
    have hconnect : s.step json fold (.newConnection true) =
        some ({ s with connections := s.connections ++ [Connection.fresh s.now] }).startSweep := by
      simp only [step, hcount]
      rfl
    have hleave : ({ s with connections := s.connections ++ [Connection.fresh s.now] }).startSweep.step json fold
        (.disconnected s.connections.length) = some ({ s with
          connections := s.connections ++ [(Connection.fresh s.now).disconnected] }).startSweep := by
      have hget : (s.connections ++ [Connection.fresh s.now])[s.connections.length]? = some (Connection.fresh s.now) :=
        List.getElem?_concat_length
      rw [step, changeIf, change, startSweep, hget, modify_concat]
      exact if_pos rfl
    refine ⟨_, .next (.pass 400) (.next (.disconnected s.connections.length) (.next (.newConnection true) hs trivial
      hconnect) trivial hleave) ?_ rfl, ?_, gone ++ [(Connection.fresh s.now).disconnected], ?_, ?_⟩
    · rintro due ⟨⟩
      show s.now + 400 ≤ s.now + 500
      omega
    · show s.now + 400 = _
      omega
    · show s.connections ++ _ = _
      rw [hconnections, List.cons_append]
    · intro c hc
      rcases List.mem_append.mp hc with hc | hc
      · exact hgone c hc
      · rw [List.mem_singleton.mp hc]
        rfl

/-- **No time after its deadline frees a slot**: a client that says nothing holds its own as long as
others come and go, though no timer is late. -/
theorem slot_held_forever :
    ¬ ∃ bound, ∀ s, Reaches (step .ascii .ascii) OnTime init s → ∀ c ∈ s.connections, c.unserved = true →
      ∀ d ∈ c.deadline, s.now ≤ d + bound := by
  rintro ⟨bound, h⟩
  obtain ⟨s, hs, hnow, gone, hconnections, -⟩ := reaches_held .ascii .ascii (bound + 6)
  have hle := h s hs (Connection.fresh 0) (by rw [hconnections]; exact List.mem_cons_self) rfl _ rfl
  rw [hnow, show (0 : ℕ) + incompleteRequestTimeoutMs = 2000 from rfl] at hle
  omega

end IpcServer

end Speecher
