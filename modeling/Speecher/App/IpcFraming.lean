import Speecher.App.IpcServer

/-!
# Framing does not depend on the reads

However a client's bytes are cut into reads, the connection emits the requests they hold: what is left of
a stream after a read is `Pending`, whole frames or, after a request read without its newline, the rest of
its line. `Framed` is what this makes of a connection in every run, and `emitted_eq` what it emits once it
has sent whole request frames.
-/

namespace Speecher

variable (json : JsonBytes) (fold : CaseFolding)

/-- A frame that holds a request, without its newline. -/
structure RequestFrame (frame : Bytes) : Prop where
  newline_notMem : newline ∉ frame
  request : ∃ request, requestFromBytes json fold frame = .ok request

/-- The frames with their newlines, one after the other. -/
def joined (frames : List Bytes) : Bytes := frames.flatMap (· ++ [newline])

@[simp] theorem joined_nil : joined [] = [] := rfl

@[simp] theorem joined_cons (frame : Bytes) (frames : List Bytes) :
    joined (frame :: frames) = frame ++ newline :: joined frames := by
  simp [joined]

/-! ## Objects -/

theorem isObject_iff (bytes : Bytes) :
    isObject json bytes = true ↔ ∃ fields, json.fromJson (json.decode bytes) = some (.object fields) := by
  rw [isObject, jsonObject]
  split
  · rename_i fields heq
    exact ⟨fun _ => ⟨fields, heq⟩, fun _ => rfl⟩
  · rename_i hne
    refine ⟨fun h => absurd h Bool.false_ne_true, ?_⟩
    rintro ⟨fields, h⟩
    exact absurd h (hne fields)

variable {json fold}

theorem not_blank_of_object {bytes : Bytes} (h : isObject json bytes = true) : isBlankFrame bytes = false := by
  obtain ⟨fields, hfields⟩ := (isObject_iff json bytes).mp h
  refine Bool.eq_false_iff.mpr fun hblank => ?_
  rw [json.blank bytes hblank] at hfields
  cases hfields

theorem RequestFrame.isObject {frame : Bytes} (h : RequestFrame json fold frame) : isObject json frame = true := by
  obtain ⟨request, hrequest⟩ := h.request
  rw [requestFromBytes, ipcRequestFromFrame] at hrequest
  rw [Speecher.isObject]
  cases hobject : jsonObject json.toJsonText (json.decode frame) with
  | none => rw [hobject] at hrequest; cases hrequest
  | some object => rfl

/-- The object a frame starts with is the frame's, and the rest of it is blank. -/
theorem request_of_prefix {start rest : Bytes} (hstart : isObject json start = true)
    (hframe : RequestFrame json fold (start ++ rest)) :
    requestFromBytes json fold start = requestFromBytes json fold (start ++ rest) ∧ isBlankFrame rest = true := by
  obtain ⟨fields, hfields⟩ := (isObject_iff json start).mp hstart
  obtain ⟨whole, hwhole⟩ := (isObject_iff json _).mp hframe.isObject
  obtain ⟨heq, hblank⟩ := json.object_ends start rest fields _ hfields hwhole
  rw [requestFromBytes, requestFromBytes, ipcRequestFromFrame, ipcRequestFromFrame, jsonObject, jsonObject, hfields,
    hwhole, heq]
  exact ⟨rfl, hblank⟩

/-! ## Cutting a stream -/

/-- A text without a newline that starts a line is the start of that line. -/
theorem prefix_of_line {start rest line later : Bytes} (hstart : newline ∉ start)
    (h : start ++ rest = line ++ newline :: later) :
    ∃ more, line = start ++ more ∧ rest = more ++ newline :: later := by
  rcases List.append_eq_append_iff.mp h with ⟨more, hline, hrest⟩ | ⟨more, hstart', hlater⟩
  · exact ⟨more, hline, hrest⟩
  · cases more with
    | nil => exact ⟨[], by simpa using hstart'.symm, by simpa using hlater.symm⟩
    | cons b more =>
      rw [List.cons_append, List.cons.injEq] at hlater
      refine absurd ?_ hstart
      rw [hstart', hlater.1]
      simp

theorem line_eq {line line' later later' : Bytes} (hline : newline ∉ line) (hline' : newline ∉ line')
    (h : line ++ newline :: later = line' ++ newline :: later') : line = line' ∧ later = later' := by
  obtain ⟨more, rfl, hrest⟩ := prefix_of_line hline h
  cases more with
  | nil => exact ⟨by simp, by simpa using hrest⟩
  | cons b more =>
    rw [List.cons_append, List.cons.injEq] at hrest
    exact absurd (by rw [hrest.1]; simp) hline'

/-- The bytes still to come of a client that has `todo` left to ask: whole frames, after the blank rest
of a line whose request was read without its newline. -/
inductive Pending : List Bytes → Bytes → Prop
  | whole (todo : List Bytes) : Pending todo (joined todo)
  | late (todo : List Bytes) {white : Bytes} : isBlankFrame white = true → newline ∉ white →
      Pending todo (white ++ newline :: joined todo)

variable (json fold) in
/-- What cutting a buffer yields: the requests of the frames, and what is left. -/
structure Cut (todo : List Bytes) (frames : List Bytes) (buffer rest : Bytes) : Prop where
  exists_todo : ∃ later, todo.map (requestFromBytes json fold) =
      (frames.filter (!isBlankFrame ·)).map (requestFromBytes json fold) ++ later.map (requestFromBytes json fold) ∧
    (∀ frame ∈ later, RequestFrame json fold frame) ∧ Pending later (buffer ++ rest)
  newline_notMem : newline ∉ buffer

theorem cut_nil {todo : List Bytes} {frame rest : Bytes} (htodo : ∀ frame ∈ todo, RequestFrame json fold frame)
    (hframe : newline ∉ frame) (h : Pending todo (frame ++ rest)) :
    Cut json fold todo (Connection.completeFrames json frame []).1
      (Connection.completeFrames json frame []).2 rest := by
  rw [Connection.completeFrames]
  split
  · rename_i hobject
    have hblank := not_blank_of_object hobject
    refine ⟨?_, List.not_mem_nil⟩
    generalize hstream : frame ++ rest = stream at h
    cases h with
    | whole =>
      cases todo with
      | nil =>
        rw [joined_nil, List.append_eq_nil_iff] at hstream
        rw [hstream.1] at hblank
        cases hblank
      | cons whole later =>
        rw [joined_cons] at hstream
        obtain ⟨more, rfl, rfl⟩ := prefix_of_line hframe hstream
        have hwhole := htodo _ List.mem_cons_self
        obtain ⟨hrequest, hmore⟩ := request_of_prefix hobject hwhole
        refine ⟨later, ?_, fun f hf => htodo f (List.mem_cons_of_mem _ hf), .late later hmore fun hmem =>
          hwhole.newline_notMem (List.mem_append_right _ hmem)⟩
        simp [hblank, hrequest]
    | late hwhite =>
      obtain ⟨more, rfl, -⟩ := prefix_of_line hframe hstream
      rw [isBlankFrame, List.all_append, Bool.and_eq_true] at hwhite
      exact absurd hwhite.1 (Bool.eq_false_iff.mp hblank)
  · exact ⟨⟨todo, rfl, htodo, h⟩, hframe⟩

/-- **A read takes the requests of the stream in order.** -/
theorem cut_completeFrames {todo : List Bytes} (buffer frame rest : Bytes)
    (htodo : ∀ frame ∈ todo, RequestFrame json fold frame) (hframe : newline ∉ frame)
    (h : Pending todo (frame ++ buffer ++ rest)) :
    Cut json fold todo (Connection.completeFrames json frame buffer).1
      (Connection.completeFrames json frame buffer).2 rest := by
  induction buffer generalizing todo frame with
  | nil => exact cut_nil htodo hframe (by simpa using h)
  | cons b buffer ih =>
    rw [Connection.completeFrames]
    by_cases hb : b = newline
    · subst hb
      rw [if_pos rfl]
      -- The newline ends the first frame that is left, or the line of a request read before.
      rw [List.append_assoc, List.cons_append] at h
      generalize hstream : frame ++ newline :: (buffer ++ rest) = stream at h
      cases h with
      | whole =>
        cases todo with
        | nil => exact absurd hstream (by simp)
        | cons whole todo =>
          rw [joined_cons] at hstream
          have hwhole := htodo _ List.mem_cons_self
          obtain ⟨rfl, hlater⟩ := line_eq hframe hwhole.newline_notMem hstream
          obtain ⟨⟨later, hmap, hlater', hpending⟩, hnot⟩ := ih []
            (fun f hf => htodo f (List.mem_cons_of_mem _ hf)) List.not_mem_nil
            (by rw [List.nil_append, hlater]; exact .whole todo)
          refine ⟨⟨later, ?_, hlater', hpending⟩, hnot⟩
          simp [not_blank_of_object hwhole.isObject, hmap]
      | late hwhite hnot =>
        obtain ⟨rfl, hlater⟩ := line_eq hframe hnot hstream
        obtain ⟨⟨later, hmap, hlater', hpending⟩, hnot'⟩ := ih [] htodo List.not_mem_nil
          (by rw [List.nil_append, hlater]; exact .whole todo)
        refine ⟨⟨later, ?_, hlater', hpending⟩, hnot'⟩
        simp [hwhite, hmap]
    · rw [if_neg hb]
      exact ih _ htodo (by simp [hframe, Ne.symm hb]) (by simpa using h)

theorem length_completeFrames (json : JsonBytes) (frame buffer : Bytes) :
    (Connection.completeFrames json frame buffer).2.length ≤ frame.length + buffer.length := by
  induction buffer generalizing frame with
  | nil =>
    rw [Connection.completeFrames]
    split
    · exact Nat.zero_le _
    · exact Nat.le_add_right _ _
  | cons b buffer ih =>
    rw [Connection.completeFrames]
    split
    · have := ih []
      simp only [List.length_nil, List.length_cons] at this ⊢
      omega
    · have := ih (frame ++ [b])
      simp only [List.length_append, List.length_cons, List.length_nil] at this ⊢
      omega

/-! ## A connection's stream -/

variable (json fold) in
/-- A client sends request frames whose total is within the limit: so far `received`, and `rest` later. -/
structure Sends (received : Bytes) (frames : List Bytes) (rest : Bytes) : Prop where
  requests : ∀ frame ∈ frames, RequestFrame json fold frame
  stream : received ++ rest = joined frames
  limit : (joined frames).length ≤ maximumRequestBytes

theorem Sends.before {received bytes rest : Bytes} {frames : List Bytes}
    (h : Sends json fold (received ++ bytes) frames rest) : Sends json fold received frames (bytes ++ rest) :=
  { h with stream := by rw [← List.append_assoc]; exact h.stream }

namespace Connection

variable (json fold) in
/-- The requests a connection has taken from its stream, emitted or about to be. -/
def taken (c : Connection) : List (Except IpcResponse IpcRequest) :=
  c.emitted ++ (c.inCommand.getD []).map (requestFromBytes json fold)

variable (json fold) in
/-- A connection's buffer is the start of what its client has left to say. -/
structure Framed (c : Connection) : Prop where
  watcher : c.statusWatcher = c.watchedAt.isSome
  stream : c.watchedAt = none → ∀ frames rest, Sends json fold c.received frames rest →
    ∃ buffer todo, (c.connected = true → buffer = c.requestBuffer) ∧ newline ∉ buffer ∧
      (∀ frame ∈ todo, RequestFrame json fold frame) ∧
      frames.map (requestFromBytes json fold) = c.taken json fold ++ todo.map (requestFromBytes json fold) ∧
      Pending todo (buffer ++ rest) ∧ (buffer ++ rest).length ≤ maximumRequestBytes
  watched : ∀ k ∈ c.watchedAt, c.emitted.length = k ∧ ∀ frames rest, Sends json fold c.received frames rest →
    c.emitted <+: frames.map (requestFromBytes json fold)

/-- A change that leaves the stream and what was taken from it. -/
structure Quiet (c c' : Connection) : Prop where
  received : c'.received = c.received
  emitted : c'.emitted = c.emitted
  statusWatcher : c'.statusWatcher = c.statusWatcher
  watchedAt : c'.watchedAt = c.watchedAt
  inCommand : c'.inCommand.getD [] = c.inCommand.getD []
  buffer : c'.connected = true → c.connected = true ∧ c'.requestBuffer = c.requestBuffer

theorem Framed.of_quiet {c c' : Connection} (h : c.Framed json fold) (hq : Quiet c c') : c'.Framed json fold where
  watcher := by rw [hq.statusWatcher, hq.watchedAt, h.watcher]
  stream := by
    intro hwatched frames rest hsends
    rw [hq.watchedAt] at hwatched
    rw [hq.received] at hsends
    obtain ⟨buffer, todo, hbuffer, hnot, htodo, htaken, hpending, hlength⟩ := h.stream hwatched frames rest hsends
    refine ⟨buffer, todo, fun hc => ?_, hnot, htodo, ?_, hpending, hlength⟩
    · rw [(hq.buffer hc).2]
      exact hbuffer (hq.buffer hc).1
    · rw [taken, hq.emitted, hq.inCommand]
      exact htaken
  watched := by
    intro k hk
    rw [hq.watchedAt] at hk
    rw [hq.emitted, hq.received]
    exact h.watched k hk

theorem quiet_free {c : Connection} (h : c.inCommand.getD [] = []) : Quiet c c.free :=
  ⟨rfl, rfl, rfl, rfl, h.symm, fun hc => nomatch hc⟩

theorem quiet_disconnected (c : Connection) : Quiet c c.disconnected := by
  unfold disconnected
  split_ifs with hcommand
  · exact ⟨rfl, rfl, rfl, rfl, rfl, fun hc => nomatch hc⟩
  · exact quiet_free (by rw [Option.not_isSome_iff_eq_none.mp hcommand]; rfl)

theorem Quiet.rfl {c : Connection} : Quiet c c := ⟨Eq.refl _, Eq.refl _, Eq.refl _, Eq.refl _, Eq.refl _, fun h => ⟨h, Eq.refl _⟩⟩

theorem Quiet.trans {c c' c'' : Connection} (h : Quiet c c') (h' : Quiet c' c'') : Quiet c c'' where
  received := h'.received.trans h.received
  emitted := h'.emitted.trans h.emitted
  statusWatcher := h'.statusWatcher.trans h.statusWatcher
  watchedAt := h'.watchedAt.trans h.watchedAt
  inCommand := h'.inCommand.trans h.inCommand
  buffer hc := ⟨(h.buffer (h'.buffer hc).1).1, (h'.buffer hc).2.trans (h.buffer (h'.buffer hc).1).2⟩

theorem quiet_unsent (c : Connection) (unsent : Bool) : Quiet c { c with unsent } :=
  ⟨rfl, rfl, rfl, rfl, rfl, fun hc => ⟨hc, rfl⟩⟩

theorem quiet_disconnectFromServer (c : Connection) : Quiet c c.disconnectFromServer := by
  unfold disconnectFromServer
  split_ifs
  · exact .rfl
  · exact ⟨rfl, rfl, rfl, rfl, rfl, fun hc => nomatch hc⟩
  · exact quiet_disconnected c

theorem quiet_writeResponse (c : Connection) (unsent : Bool) : Quiet c (c.writeResponse unsent) := by
  unfold writeResponse
  split_ifs
  · exact .rfl
  · exact (quiet_unsent c _).trans (quiet_disconnectFromServer _)

theorem quiet_bytesWritten (c : Connection) : Quiet c c.bytesWritten := by
  unfold bytesWritten
  split_ifs
  · exact quiet_unsent c false
  · exact (quiet_unsent c false).trans (quiet_disconnected _)

theorem framed_fresh (now : ℕ) : (fresh now).Framed json fold where
  watcher := rfl
  stream _ frames rest hsends := by
    have hstream : rest = joined frames := hsends.stream
    refine ⟨[], frames, fun _ => rfl, List.not_mem_nil, hsends.requests, rfl, ?_, ?_⟩
    · rw [List.nil_append, hstream]
      exact .whole frames
    · rw [List.nil_append, hstream]
      exact hsends.limit
  watched k hk := nomatch hk

theorem Framed.readyRead {c : Connection} (h : c.Framed json fold) (now : ℕ) (bytes : Bytes)
    (hconnected : c.connected = true) (hcommand : c.inCommand = none) :
    (c.readyRead json now bytes).Framed json fold := by
  unfold Connection.readyRead
  by_cases hwatcher : c.statusWatcher = true
  · rw [if_pos hwatcher]
    refine ⟨h.watcher, fun hnone => ?_, fun k hk => ⟨(h.watched k hk).1, fun frames rest hsends => ?_⟩⟩
    · rw [h.watcher, show c.watchedAt = none from hnone] at hwatcher
      cases hwatcher
    · exact (h.watched k hk).2 frames _ hsends.before
  rw [if_neg hwatcher]
  have hnone : c.watchedAt = none := by
    rw [h.watcher] at hwatcher
    exact Option.not_isSome_iff_eq_none.mp hwatcher
  have htaken : c.taken json fold = c.emitted := by rw [taken, hcommand]; exact List.append_nil _
  -- What the client has still to say after the read, when it sends request frames.
  have hread : ∀ frames rest, Sends json fold (c.received ++ bytes) frames rest → c.requestTooLarge bytes = false ∧
      ∃ todo, newline ∉ (c.cut json bytes).2 ∧ (∀ frame ∈ todo, RequestFrame json fold frame) ∧
        frames.map (requestFromBytes json fold) = c.emitted ++
          (c.requests json bytes).map (requestFromBytes json fold) ++ todo.map (requestFromBytes json fold) ∧
        Pending todo ((c.cut json bytes).2 ++ rest) ∧
        ((c.cut json bytes).2 ++ rest).length ≤ maximumRequestBytes := by
    intro frames rest hsends
    obtain ⟨buffer, todo, hbuffer, -, htodo, hmap, hpending, hlength⟩ := h.stream hnone frames _ hsends.before
    obtain rfl := hbuffer hconnected
    rw [htaken] at hmap
    have hsmall : c.requestTooLarge bytes = false := by
      simp only [List.length_append] at hlength
      simp only [requestTooLarge, List.length_append, decide_eq_false_iff_not, not_lt]
      omega
    obtain ⟨⟨later, hcut, hlater, hpending'⟩, hnot⟩ := cut_completeFrames (c.requestBuffer ++ bytes) [] rest htodo List.not_mem_nil (by simpa using hpending)
    have heq : c.cut json bytes = completeFrames json [] (c.requestBuffer ++ bytes) := by
      rw [cut, hsmall]
      rfl
    refine ⟨hsmall, later, by rw [heq]; exact hnot, hlater, ?_, by rw [heq]; exact hpending', ?_⟩
    · rw [hmap, hcut, requests, heq, List.append_assoc]
    · have hcutLength := length_completeFrames json [] (c.requestBuffer ++ bytes)
      rw [heq]
      simp only [List.length_append, List.length_nil] at hcutLength hlength ⊢
      omega
  dsimp only
  by_cases hlarge : c.requestTooLarge bytes = true
  · rw [if_pos hlarge]
    refine Framed.of_quiet (c := { c with
      received := c.received ++ bytes
      requestBuffer := (c.cut json bytes).2
      deadline := c.nextDeadline json now bytes }) ⟨h.watcher, fun _ frames rest hsends => ?_, fun k hk => ?_⟩
      (quiet_disconnectFromServer _)
    · rw [(hread frames rest hsends).1] at hlarge
      cases hlarge
    · rw [hnone] at hk
      cases hk
  · rw [if_neg hlarge]
    refine ⟨h.watcher, fun _ frames rest hsends => ?_, fun k hk => ?_⟩
    · obtain ⟨-, todo, hnot, htodo, hmap, hpending, hlength⟩ := hread frames rest hsends
      refine ⟨(c.cut json bytes).2, todo, fun _ => rfl, hnot, htodo, ?_, hpending, hlength⟩
      rw [hmap, taken]
      dsimp only
      split
      · rename_i hempty
        rw [List.isEmpty_iff.mp hempty]
        rfl
      · rfl
    · rw [hnone] at hk
      cases hk

theorem Framed.nextFrame {c : Connection} (h : c.Framed json fold) : (c.nextFrame json fold).Framed json fold := by
  unfold Connection.nextFrame
  split
  · exact h
  · rename_i hcommand
    split_ifs
    · exact h.of_quiet (quiet_free (by rw [hcommand]; rfl))
    · exact h.of_quiet ⟨rfl, rfl, rfl, rfl, by rw [hcommand]; rfl, fun hc => ⟨hc, rfl⟩⟩
  · rename_i frame frames hcommand
    split_ifs with hwatcher
    · refine ⟨h.watcher, fun hnone => ?_, h.watched⟩
      rw [h.watcher, show c.watchedAt = none from hnone] at hwatcher
      cases hwatcher
    · have hnone : c.watchedAt = none := by
        rw [h.watcher] at hwatcher
        exact Option.not_isSome_iff_eq_none.mp hwatcher
      refine ⟨h.watcher, fun _ all rest hsends => ?_, fun k hk => ?_⟩
      · obtain ⟨buffer, todo, hbuffer, hnot, htodo, htaken, hpending⟩ := h.stream hnone all rest hsends
        refine ⟨buffer, todo, hbuffer, hnot, htodo, ?_, hpending⟩
        rw [htaken, taken, taken, hcommand]
        simp
      · rw [show c.watchedAt = none from hnone] at hk
        cases hk

theorem Framed.addStatusWatcher {c : Connection} (h : c.Framed json fold) (unsent : Bool) :
    (c.addStatusWatcher unsent).Framed json fold := by
  unfold Connection.addStatusWatcher
  split_ifs
  · exact h
  · refine ⟨by cases c.watchedAt <;> rfl, fun hnone => ?_, fun k hk => ?_⟩
    · dsimp only at hnone
      cases hwatched : c.watchedAt <;> rw [hwatched] at hnone <;> cases hnone
    · dsimp only at hk ⊢
      cases hwatched : c.watchedAt with
      | some k' =>
        rw [hwatched] at hk
        exact h.watched k (by rw [hwatched]; exact hk)
      | none =>
        rw [hwatched] at hk
        refine ⟨Option.some.inj hk, fun frames rest hsends => ?_⟩
        obtain ⟨buffer, todo, -, -, -, htaken, -⟩ := h.stream hwatched frames rest hsends
        rw [htaken, taken, List.append_assoc]
        exact List.prefix_append _ _

end Connection

theorem keeps_framed : IpcServer.Keeps json fold (Connection.Framed json fold) where
  fresh := Connection.framed_fresh
  readyRead now bytes h hconnected hcommand := h.readyRead now bytes hconnected hcommand
  nextFrame h := h.nextFrame
  writeResponse unsent h _ := h.of_quiet (Connection.quiet_writeResponse _ unsent)
  addStatusWatcher unsent h _ := h.addStatusWatcher unsent
  bytesWritten h := h.of_quiet (Connection.quiet_bytesWritten _)
  disconnected h := h.of_quiet (Connection.quiet_disconnected _)
  disconnectFromServer h := h.of_quiet (Connection.quiet_disconnectFromServer _)

/-- **A connection whose client sent request frames emits their requests**, in order, however they were
cut into reads; a watcher those up to the one it became one by. -/
theorem emitted_eq {ok : IpcServer → IpcServer.Event → Prop} {s : IpcServer}
    (hs : Reaches (IpcServer.step json fold) ok .init s) {c : Connection} (hc : c ∈ s.connections)
    {frames : List Bytes} (hsends : Sends json fold c.received frames []) (hcommand : c.inCommand = none) :
    c.emitted = (frames.map (requestFromBytes json fold)).take (c.watchedAt.getD frames.length) := by
  have h := keeps_framed.holds hs c hc
  cases hwatched : c.watchedAt with
  | some k =>
    obtain ⟨hlength, hstart⟩ := h.watched k hwatched
    obtain ⟨later, hlater⟩ := hstart frames [] hsends
    rw [← hlater, ← hlength]
    simp
  | none =>
    obtain ⟨buffer, todo, -, hnot, -, htaken, hpending, -⟩ := h.stream hwatched frames [] hsends
    rw [List.append_nil] at hpending
    have htodo : todo = [] := by
      generalize hbuffer : buffer = stream at hpending
      cases hpending with
      | whole =>
        cases todo with
        | nil => rfl
        | cons frame todo => exact absurd (by rw [hbuffer, joined_cons]; simp) hnot
      | late => exact absurd (by rw [hbuffer]; simp) hnot
    rw [htodo, List.map_nil, List.append_nil, Connection.taken, hcommand] at htaken
    rw [Option.getD_none, List.take_of_length_le (by rw [List.length_map]), htaken]
    exact (List.append_nil _).symm

end Speecher
