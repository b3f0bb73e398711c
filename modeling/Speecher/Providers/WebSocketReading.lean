import Speecher.Providers.WebSocketTransport

/-!
# Frames are written and read as the protocol has them

`writeFrame` sends the masked frame of its opcode and payload, which a server reads back and could not have read from
fewer bytes (`writeFrame_reads`). `Step` is what the protocol lets a server send next: a control frame at any time, a
fragment of the message under way or the first of another, until a close frame. `readFrames` delivers what the longest
such sequence of its input completes and answers its pings, and fails unless it was closed (`readFrames_reads`).
-/

namespace Speecher

namespace Android

namespace WebSocket

/-! ## Writing -/

/-- `writeFrame` is the protocol's masked frame. -/
theorem writeFrame_eq (mask : List UInt8) {opcode : ℕ} (hopcode : opcode < 16) (bytes : List UInt8) :
    writeFrame mask opcode bytes = (Frame.mk true opcode bytes).maskedBytes mask := by
  have hflags : ∀ opcode < 16, UInt8.ofNat (128 ||| opcode) = UInt8.ofNat (128 + opcode) := by decide
  have hfield : ∀ n < 128, UInt8.ofNat (128 ||| n) = UInt8.ofNat (128 + n) := by decide
  have hlength : (if bytes.length < 126 then [UInt8.ofNat (128 ||| bytes.length)]
      else if bytes.length ≤ 65535 then
        [UInt8.ofNat (128 ||| 126), UInt8.ofNat (bytes.length >>> 8), UInt8.ofNat bytes.length]
      else UInt8.ofNat (128 ||| 127) :: bigEndian 8 bytes.length) = lengthField 128 bytes.length := by
    rw [lengthField]
    by_cases hsmall : bytes.length < 126
    · rw [if_pos hsmall, if_pos hsmall, hfield _ (by omega)]
    · rw [if_neg hsmall, if_neg hsmall, hfield 126 (by omega), hfield 127 (by omega)]
      by_cases hmiddle : bytes.length ≤ 65535
      · rw [if_pos hmiddle, if_pos (by omega), Nat.shiftRight_eq_div_pow]
        rfl
      · rw [if_neg hmiddle, if_neg (by omega)]
  rw [writeFrame, hlength, hflags opcode hopcode]
  rfl

/-! ## The protocol -/

/-- What a server's frames tell. -/
inductive Event
  | text (text : List Char)
  | binary (bytes : List UInt8)
  | answer (bytes : List UInt8)
  | closed (payload : List UInt8) (code : ℕ) (reason : List Char)

/-- Where a connection is between two frames: a message of a type is under way, as far as its fragments go. -/
inductive Phase
  | idle
  | within (type : ℕ) (fragments : List UInt8)
  | closed
  deriving DecidableEq

/-- A whole message: text has to be text. -/
inductive Message : ℕ → List UInt8 → Event → Prop
  | text {bytes : List UInt8} {text : List Char} (h : utf8Text bytes = some text) : Message 1 bytes (.text text)
  | binary (bytes : List UInt8) : Message 2 bytes (.binary bytes)

/-- What a server may send next. -/
inductive Step : Phase → Frame → Phase → List Event → Prop
  | ping {p : Phase} {payload : List UInt8} (hopen : p ≠ .closed) (hshort : payload.length ≤ 125) :
      Step p ⟨true, 9, payload⟩ p [.answer payload]
  | pong {p : Phase} {payload : List UInt8} (hopen : p ≠ .closed) (hshort : payload.length ≤ 125) :
      Step p ⟨true, 10, payload⟩ p []
  | closeEmpty {p : Phase} (hopen : p ≠ .closed) : Step p ⟨true, 8, []⟩ .closed [.closed [] 1005 []]
  | close {p : Phase} (high low : UInt8) {text : List UInt8} {reason : List Char} (hopen : p ≠ .closed)
      (hshort : text.length ≤ 123) (hcode : validCloseCode (high.toNat * 256 + low.toNat) = true)
      (hreason : utf8Text text = some reason) :
      Step p ⟨true, 8, high :: low :: text⟩ .closed
        [.closed (high :: low :: text) (high.toNat * 256 + low.toNat) reason]
  | first {type : ℕ} {payload : List UInt8} (htype : type = 1 ∨ type = 2) (hsize : payload.length ≤ maximumLength) :
      Step .idle ⟨false, type, payload⟩ (.within type payload) []
  | whole {type : ℕ} {payload : List UInt8} {message : Event} (hsize : payload.length ≤ maximumLength)
      (hmessage : Message type payload message) : Step .idle ⟨true, type, payload⟩ .idle [message]
  | more {type : ℕ} {fragments payload : List UInt8} (hsize : (fragments ++ payload).length ≤ maximumLength) :
      Step (.within type fragments) ⟨false, 0, payload⟩ (.within type (fragments ++ payload)) []
  | last {type : ℕ} {fragments payload : List UInt8} {message : Event}
      (hsize : (fragments ++ payload).length ≤ maximumLength) (hmessage : Message type (fragments ++ payload) message) :
      Step (.within type fragments) ⟨true, 0, payload⟩ .idle [message]

/-- What a server may send, frame by frame. -/
inductive Conversation : Phase → List Frame → Phase → List Event → Prop
  | nil (p : Phase) : Conversation p [] p []
  | cons {p p' p'' : Phase} {frame : Frame} {frames : List Frame} {events events' : List Event}
      (hstep : Step p frame p' events) (hrest : Conversation p' frames p'' events') :
      Conversation p (frame :: frames) p'' (events ++ events')

/-- What the loop makes of an event: a close is answered unless one was under way. -/
def Event.outputs (closing : Bool) : Event → List Output
  | .text message => [.onText message]
  | .binary message => [.onBinary message]
  | .answer payload => [.submit 10 payload]
  | .closed payload code reason => (if closing then [] else [.submit 8 payload]) ++ [.onClosed code reason]

/-- What the loop keeps of a phase. -/
def Phase.state : Phase → Option ReadState
  | .idle => some {}
  | .within type fragments => some ⟨fragments, type⟩
  | .closed => none

/-- A message under way is of text or bytes. -/
def Phase.Typed : Phase → Prop
  | .within type _ => type = 1 ∨ type = 2
  | _ => True

variable {closing : Bool} {p p' : Phase} {frame : Frame} {events : List Event}

theorem sound_control {opcode : ℕ} {payload : List UInt8} (hopcode : opcode < 16) (h : payload.length ≤ 125) :
    Sound ⟨true, opcode, payload⟩ :=
  ⟨hopcode, Nat.le_trans h (by decide), fun _ => ⟨rfl, h⟩⟩

theorem sound_data {fin : Bool} {opcode : ℕ} {payload : List UInt8} (hopcode : opcode < 8)
    (h : payload.length ≤ maximumLength) : Sound ⟨fin, opcode, payload⟩ :=
  ⟨Nat.lt_trans hopcode (by decide), h, fun hge => absurd hge (Nat.not_le.mpr hopcode)⟩

theorem Step.sound (h : Step p frame p' events) : Sound frame := by
  cases h with
  | ping hopen hshort => exact sound_control (by decide) hshort
  | pong hopen hshort => exact sound_control (by decide) hshort
  | closeEmpty hopen => exact sound_control (by decide) (Nat.zero_le _)
  | close high low hopen hshort hcode hreason =>
    refine sound_control (by decide) ?_
    rw [List.length_cons, List.length_cons]
    omega
  | first htype hsize => rcases htype with rfl | rfl <;> exact sound_data (by decide) hsize
  | whole hsize hmessage => cases hmessage <;> exact sound_data (by decide) hsize
  | more hsize =>
    rw [List.length_append] at hsize
    exact sound_data (by decide) (Nat.le_of_add_left_le hsize)
  | last hsize hmessage =>
    rw [List.length_append] at hsize
    exact sound_data (by decide) (Nat.le_of_add_left_le hsize)

theorem Step.typed (h : Step p frame p' events) (htyped : p.Typed) : p'.Typed := by
  cases h with
  | ping | pong => exact htyped
  | first htype hsize => exact htype
  | more hsize => exact htyped
  | closeEmpty | close | whole | last => trivial

theorem Step.ne_closed (h : Step p frame p' events) : p ≠ .closed := by
  cases h <;> first | assumption | nofun

theorem Phase.exists_state (h : p ≠ .closed) : ∃ s, p.state = some s := by
  cases p with
  | idle => exact ⟨_, rfl⟩
  | within type fragments => exact ⟨_, rfl⟩
  | closed => exact absurd rfl h

/-- What the loop keeps tells phases apart. -/
theorem Phase.state_inj (htyped : p.Typed) (htyped' : p'.Typed) (h : p.state = p'.state) : p = p' := by
  cases p with
  | closed => cases p' <;> first | rfl | cases h
  | idle =>
    cases p' with
    | idle => rfl
    | within type fragments =>
      obtain ⟨rfl, rfl⟩ := ReadState.mk.inj (Option.some.inj h)
      exact htyped'.elim nofun nofun
    | closed => cases h
  | within type fragments =>
    cases p' with
    | idle =>
      obtain ⟨rfl, rfl⟩ := ReadState.mk.inj (Option.some.inj h)
      exact htyped.elim nofun nofun
    | within type' fragments' =>
      obtain ⟨rfl, rfl⟩ := ReadState.mk.inj (Option.some.inj h)
      rfl
    | closed => cases h

/-- A close frame's code. -/
theorem closeCode_eq (high low : UInt8) : (high.toNat <<< 8) ||| low.toNat = high.toNat * 256 + low.toNat := by
  rw [Nat.shiftLeft_eq, Nat.mul_comm, ← Nat.two_pow_add_eq_or_of_lt (i := 8) low.toNat_lt, Nat.mul_comm]

/-- What the loop does with a message of a type, as far as it goes. -/
def delivered (fin : Bool) (type : ℕ) (message : List UInt8) : Except ReadFailure (List Output × Option ReadState) :=
  if fin then
    if type = 1 then (decodeText message).map fun text => ([.onText text], some {})
    else .ok ([.onBinary message], some {})
  else .ok ([], some ⟨message, type⟩)

theorem handleData_eq (s : ReadState) (frame : Frame) :
    handleData s frame =
      if ¬(frame.opcode = 0 ↔ s.messageType ≠ 0) then .error (.io "Invalid continuation frame")
      else if (s.message ++ frame.payload).length > maximumLength then .error (.io "WebSocket message too large")
      else delivered frame.fin (if frame.opcode ≠ 0 then frame.opcode else s.messageType) (s.message ++ frame.payload) := by
  have hiff : ((frame.opcode = 0 ∧ s.messageType = 0) ∨ (frame.opcode ≠ 0 ∧ s.messageType ≠ 0)) ↔
      ¬(frame.opcode = 0 ↔ s.messageType ≠ 0) := by omega
  rw [handleData, List.length_append]
  by_cases hwrong : (frame.opcode = 0 ∧ s.messageType = 0) ∨ (frame.opcode ≠ 0 ∧ s.messageType ≠ 0)
  · rw [if_pos hwrong, if_pos (hiff.mp hwrong)]
  · rw [if_neg hwrong, if_neg (mt hiff.mpr hwrong)]
    rfl

theorem decodeText_eq_ok {bytes : List UInt8} {text : List Char} :
    decodeText bytes = .ok text ↔ utf8Text bytes = some text := by
  rw [decodeText]
  cases utf8Text bytes with
  | none => exact iff_of_false nofun nofun
  | some text' => exact ⟨fun h => congrArg some (Except.ok.inj h), fun h => congrArg Except.ok (Option.some.inj h)⟩

/-- A whole message is delivered. -/
theorem delivered_message {type : ℕ} {bytes : List UInt8} {message : Event} (h : Message type bytes message) :
    delivered true type bytes = .ok ([message].flatMap (Event.outputs closing), some {}) := by
  cases h with
  | text htext =>
    rw [delivered, if_pos rfl, if_pos rfl, decodeText_eq_ok.mpr htext]
    rfl
  | binary => rfl

theorem handleData_first {fin : Bool} {type : ℕ} {payload : List UInt8} (htype : type = 1 ∨ type = 2)
    (hsize : payload.length ≤ maximumLength) : handleData {} ⟨fin, type, payload⟩ = delivered fin type payload := by
  have hne : type ≠ 0 := by omega
  rw [handleData_eq, if_neg (not_not.mpr (iff_of_false hne (not_not.mpr rfl)))]
  dsimp only [List.nil_append]
  rw [if_neg (Nat.not_lt.mpr hsize), if_pos hne]

theorem handleData_more {fin : Bool} {type : ℕ} {fragments payload : List UInt8} (htype : type = 1 ∨ type = 2)
    (hsize : (fragments ++ payload).length ≤ maximumLength) :
    handleData ⟨fragments, type⟩ ⟨fin, 0, payload⟩ = delivered fin type (fragments ++ payload) := by
  have hne : type ≠ 0 := by omega
  rw [handleData_eq, if_neg (not_not.mpr (iff_of_true rfl hne)), if_neg (Nat.not_lt.mpr hsize), if_neg (not_not.mpr rfl)]

/-- **What the protocol lets a server send** is what the loop takes. -/
theorem handleFrame_step (h : Step p frame p' events) (htyped : p.Typed) {s : ReadState} (hs : p.state = some s) :
    handleFrame closing s frame = .ok (events.flatMap (Event.outputs closing), p'.state) := by
  cases h with
  | ping hopen hshort => rw [hs]; rfl
  | pong hopen hshort => rw [hs]; rfl
  | closeEmpty hopen => cases closing <;> rfl
  | @close _ high low text reason hopen hshort hcode hreason =>
    have hlength : ¬(high :: low :: text).length = 1 := by
      rw [List.length_cons, List.length_cons]
      omega
    show handleClose closing (high :: low :: text) = _
    rw [handleClose, if_neg hlength]
    dsimp only
    rw [if_neg (List.cons_ne_nil high _), if_neg (List.cons_ne_nil high _)]
    rw [show (((high :: low :: text).getD 0 0).toNat <<< 8) ||| ((high :: low :: text).getD 1 0).toNat =
      high.toNat * 256 + low.toNat from closeCode_eq high low]
    rw [if_neg fun hall => hall.2 hcode, show (high :: low :: text).drop 2 = text from rfl,
      decodeText_eq_ok.mpr hreason, List.flatMap_singleton]
    rfl
  | first htype hsize =>
    obtain rfl := Option.some.inj hs
    rcases htype with rfl | rfl
    · exact handleData_first (.inl rfl) hsize
    · exact handleData_first (.inr rfl) hsize
  | whole hsize hmessage =>
    obtain rfl := Option.some.inj hs
    have hdelivered := @delivered_message closing _ _ _ hmessage
    cases hmessage with
    | text htext => exact (handleData_first (.inl rfl) hsize).trans hdelivered
    | binary => exact (handleData_first (.inr rfl) hsize).trans hdelivered
  | more hsize =>
    obtain rfl := Option.some.inj hs
    exact handleData_more htyped hsize
  | last hsize hmessage =>
    obtain rfl := Option.some.inj hs
    exact (handleData_more htyped hsize).trans (delivered_message hmessage)

/-- Only a whole message is delivered. -/
theorem exists_message {type : ℕ} {bytes : List UInt8} {result : List Output × Option ReadState}
    (htype : type = 1 ∨ type = 2) (h : delivered true type bytes = .ok result) : ∃ message, Message type bytes message := by
  rcases htype with rfl | rfl
  · rw [delivered, if_pos rfl, if_pos rfl] at h
    cases htext : decodeText bytes with
    | error failure => rw [htext] at h; cases h
    | ok text => exact ⟨_, .text (decodeText_eq_ok.mp htext)⟩
  · exact ⟨_, .binary bytes⟩

/-- A close frame the loop takes is one a server may send. -/
theorem step_of_handleClose (hopen : p ≠ .closed) {payload : List UInt8} {result : List Output × Option ReadState}
    (hshort : payload.length ≤ 125) (h : handleClose closing payload = .ok result) :
    ∃ p' events, Step p ⟨true, 8, payload⟩ p' events := by
  match payload with
  | [] => exact ⟨_, _, .closeEmpty hopen⟩
  | [_] => cases h
  | high :: low :: text =>
    have hlength : ¬(high :: low :: text).length = 1 := by
      rw [List.length_cons, List.length_cons]
      omega
    rw [handleClose, if_neg hlength] at h
    dsimp only at h
    rw [if_neg (List.cons_ne_nil high _), if_neg (List.cons_ne_nil high _)] at h
    rw [show (((high :: low :: text).getD 0 0).toNat <<< 8) ||| ((high :: low :: text).getD 1 0).toNat =
      high.toNat * 256 + low.toNat from closeCode_eq high low] at h
    by_cases hcode : validCloseCode (high.toNat * 256 + low.toNat) = true
    · rw [if_neg fun hall => hall.2 hcode, show (high :: low :: text).drop 2 = text from rfl] at h
      cases hreason : decodeText text with
      | error failure => rw [hreason] at h; cases h
      | ok reason =>
        rw [List.length_cons, List.length_cons] at hshort
        exact ⟨_, _, .close high low hopen (by omega) hcode (decodeText_eq_ok.mp hreason)⟩
    · rw [if_pos ⟨List.cons_ne_nil _ _, hcode⟩] at h
      cases h

/-- A fragment the loop takes is one a server may send. -/
theorem step_of_handleData (htyped : p.Typed) {s : ReadState} (hs : p.state = some s) {result : List Output × Option ReadState}
    (hopcode : frame.opcode = 0 ∨ frame.opcode = 1 ∨ frame.opcode = 2) (h : handleData s frame = .ok result) :
    ∃ p' events, Step p frame p' events := by
  obtain ⟨fin, opcode, payload⟩ := frame
  rw [handleData_eq] at h
  by_cases hstray : (opcode = 0 ↔ s.messageType ≠ 0)
  · rw [if_neg (not_not.mpr hstray)] at h
    dsimp only at h hopcode
    by_cases hlarge : (s.message ++ payload).length > maximumLength
    · rw [if_pos hlarge] at h
      cases h
    · rw [if_neg hlarge] at h
      have hsize := Nat.le_of_not_lt hlarge
      cases p with
      | closed => cases hs
      | idle =>
        obtain rfl := Option.some.inj hs
        have hne : opcode ≠ 0 := fun hzero => hstray.mp hzero rfl
        have htype : opcode = 1 ∨ opcode = 2 := hopcode.resolve_left hne
        rw [if_pos hne] at h
        cases fin with
        | false => exact ⟨_, _, .first htype hsize⟩
        | true =>
          obtain ⟨message, hmessage⟩ := exists_message htype h
          exact ⟨_, _, .whole hsize hmessage⟩
      | within type fragments =>
        obtain rfl := Option.some.inj hs
        have hzero : opcode = 0 := hstray.mpr (by rcases htyped with rfl | rfl <;> nofun)
        subst hzero
        rw [if_neg (not_not.mpr rfl)] at h
        cases fin with
        | false => exact ⟨_, _, .more hsize⟩
        | true =>
          obtain ⟨message, hmessage⟩ := exists_message htyped h
          exact ⟨_, _, .last hsize hmessage⟩
  · rw [if_pos hstray] at h
    cases h

/-- **Only what the protocol lets a server send** does the loop take. -/
theorem step_of_handleFrame (htyped : p.Typed) {s : ReadState} (hs : p.state = some s) (hsound : Sound frame)
    {result : List Output × Option ReadState} (h : handleFrame closing s frame = .ok result) :
    ∃ p' events, Step p frame p' events := by
  have hopen : p ≠ .closed := by
    rintro rfl
    cases hs
  have hcontrol := hsound.control
  rw [handleFrame] at h
  obtain ⟨fin, opcode, payload⟩ := frame
  dsimp only at h hcontrol
  split at h
  · obtain ⟨rfl, hshort⟩ := hcontrol (by decide)
    exact step_of_handleClose hopen hshort h
  · obtain ⟨rfl, hshort⟩ := hcontrol (by decide)
    exact ⟨_, _, .ping hopen hshort⟩
  · obtain ⟨rfl, hshort⟩ := hcontrol (by decide)
    exact ⟨_, _, .pong hopen hshort⟩
  · exact step_of_handleData htyped hs (.inl rfl) h
  · exact step_of_handleData htyped hs (.inr (.inl rfl)) h
  · exact step_of_handleData htyped hs (.inr (.inr rfl)) h
  · cases h

/-! ## The loop -/

/-- What a reader of a stream does after `p`: it makes of the longest sequence of frames that a server may send what
these tell, and fails unless they close the connection. -/
def Reads (closing : Bool) (p : Phase) (input : List UInt8) (outputs : List Output) : Prop :=
  ∃ frames rest p' events, input = frames.flatMap Frame.bytes ++ rest ∧ Conversation p frames p' events ∧
    (∀ frames' p'' events', Conversation p frames' p'' events' → (frames'.flatMap Frame.bytes).IsPrefix input →
      frames'.IsPrefix frames) ∧
    ∃ last : List Output, outputs = events.flatMap (Event.outputs closing) ++ last ∧
      if p' = .closed then last = [] else ∃ failure, last = [.onFailure failure]

/-- A frame that a server may send next is the one the loop reads. -/
theorem readFrame_of_step (h : Step p frame p' events) {input rest : List UInt8}
    (hinput : (frame.bytes ++ rest).IsPrefix input) : ∃ rest', readFrame input = .ok (frame, rest') ∧ rest.IsPrefix rest' := by
  obtain ⟨rest', rfl⟩ := hinput
  rw [List.append_assoc]
  exact ⟨_, readFrame_bytes h.sound _, List.prefix_append _ _⟩

/-- Where no frame is taken, the loop fails. -/
theorem reads_failed (hopen : p ≠ .closed) {input : List UInt8} (failure : ReadFailure)
    (h : ∀ frame p' events rest, Step p frame p' events → ¬(frame.bytes ++ rest).IsPrefix input) :
    Reads closing p input [.onFailure failure] := by
  refine ⟨[], input, p, [], rfl, .nil p, ?_, [.onFailure failure], rfl, ?_⟩
  · intro frames' p'' events' hconversation hbytes
    cases hconversation with
    | nil => exact List.nil_prefix
    | cons hstep hrest => exact absurd hbytes (h _ _ _ _ hstep)
  · rw [if_neg hopen]
    exact ⟨failure, rfl⟩

theorem Conversation.eq_nil {frames : List Frame} (h : Conversation .closed frames p' events) : frames = [] := by
  cases h with
  | nil => rfl
  | cons hstep hrest => exact absurd rfl hstep.ne_closed

/-- A closed connection says no more. -/
theorem reads_closed (input : List UInt8) : Reads closing .closed input [] := by
  refine ⟨[], input, .closed, [], rfl, .nil _, fun frames' p'' events' hconversation _ => ?_, [], rfl, ?_⟩
  · obtain rfl := hconversation.eq_nil
    exact List.nil_prefix
  · rw [if_pos rfl]

/-- A step leads to one phase. -/
theorem Step.unique {p'' : Phase} {events' : List Event} (h : Step p frame p' events) (h' : Step p frame p'' events')
    (htyped : p.Typed) : p' = p'' := by
  obtain ⟨s, hs⟩ := Phase.exists_state h.ne_closed
  have hstate := (@handleFrame_step false _ _ _ _ h htyped s hs).symm.trans (handleFrame_step h' htyped hs)
  exact Phase.state_inj (h.typed htyped) (h'.typed htyped) (Prod.mk.inj (Except.ok.inj hstate)).2

/-- A frame taken, and the rest read. -/
theorem Reads.cons (hstep : Step p frame p' events) (htyped : p.Typed) {input rest : List UInt8}
    (hread : readFrame input = .ok (frame, rest)) {outputs : List Output} (h : Reads closing p' rest outputs) :
    Reads closing p input (events.flatMap (Event.outputs closing) ++ outputs) := by
  obtain ⟨frames, rest', p'', events', hrest, hconversation, hlongest, last, houtputs, hlast⟩ := h
  refine ⟨frame :: frames, rest', p'', events ++ events', ?_, .cons hstep hconversation, ?_, last, ?_, hlast⟩
  · rw [(readFrame_eq_ok hread).2, hrest, List.flatMap_cons, List.append_assoc]
  · intro frames' p₁ events₁ hconversation' hbytes
    cases hconversation' with
    | nil => exact List.nil_prefix
    | cons hstep' hconversation' =>
      obtain ⟨rest'', hframe, hbytes⟩ := readFrame_of_step hstep' hbytes
      obtain ⟨rfl, rfl⟩ := Prod.mk.inj (Except.ok.inj (hread.symm.trans hframe))
      obtain rfl := hstep.unique hstep' htyped
      exact (List.prefix_cons_inj _).mpr (hlongest _ _ _ hconversation' hbytes)
  · rw [houtputs, List.flatMap_append, List.append_assoc]

/-- **The loop reads** as far as the protocol lets it. -/
theorem readFrames_reads (htyped : p.Typed) {s : ReadState} (hs : p.state = some s) (input : List UInt8) :
    Reads closing p input (readFrames closing s input) := by
  have hopen : p ≠ .closed := by
    rintro rfl
    cases hs
  fun_induction readFrames closing s input generalizing p with
  | case1 s input failure hread =>
    refine reads_failed hopen failure fun frame p' events rest hstep hinput => ?_
    obtain ⟨rest', hframe, -⟩ := readFrame_of_step hstep hinput
    cases hread.symm.trans hframe
  | case2 s input frame rest hread hlt failure hhandle =>
    refine reads_failed hopen failure fun frame' p' events rest' hstep hinput => ?_
    obtain ⟨rest'', hframe, -⟩ := readFrame_of_step hstep hinput
    obtain ⟨rfl, rfl⟩ := Prod.mk.inj (Except.ok.inj (hread.symm.trans hframe))
    cases hhandle.symm.trans (handleFrame_step hstep htyped hs)
  | case3 s input frame rest hread hlt outputs hhandle =>
    obtain ⟨p', events, hstep⟩ := step_of_handleFrame htyped hs (readFrame_eq_ok hread).1 hhandle
    obtain ⟨rfl, hstate⟩ := Prod.mk.inj (Except.ok.inj (hhandle.symm.trans (handleFrame_step hstep htyped hs)))
    obtain rfl : p' = .closed := by
      by_contra hne
      obtain ⟨s', hs'⟩ := Phase.exists_state hne
      cases hstate.trans hs'
    have hreads : Reads closing p input _ := Reads.cons hstep htyped hread (reads_closed rest)
    rwa [List.append_nil] at hreads
  | case4 s input frame rest hread hlt outputs s' hhandle ih =>
    obtain ⟨p', events, hstep⟩ := step_of_handleFrame htyped hs (readFrame_eq_ok hread).1 hhandle
    obtain ⟨rfl, hstate⟩ := Prod.mk.inj (Except.ok.inj (hhandle.symm.trans (handleFrame_step hstep htyped hs)))
    refine Reads.cons hstep htyped hread (ih (hstep.typed htyped) hstate.symm ?_)
    rintro rfl
    cases hstate

/-- **Frames are written and read as the protocol has them.** A frame written is read back by a server, which could
not have read it from fewer bytes; and a stream is read as far as it is a server's. -/
theorem frames_agree :
    (∀ (mask bytes : List UInt8) (opcode : ℕ), mask.length = 4 → bytes.length < 2 ^ 31 → opcode < 16 →
      readMasked (writeFrame mask opcode bytes) = some (⟨true, opcode, bytes⟩, []) ∧
        ∀ sent : List UInt8, readMasked sent = some (⟨true, opcode, bytes⟩, []) →
          (writeFrame mask opcode bytes).length ≤ sent.length) ∧
      ∀ (closing : Bool) (input : List UInt8), Reads closing .idle input (readFrames closing {} input) := by
  refine ⟨fun mask bytes opcode hmask hbytes hopcode => ?_, fun closing input => ?_⟩
  · rw [writeFrame_eq mask hopcode]
    refine ⟨?_, fun sent hsent => length_maskedBytes_le hsent hmask⟩
    have hread := @readMasked_maskedBytes ⟨true, opcode, bytes⟩ mask hopcode (by dsimp only; omega) hmask []
    rwa [List.append_nil] at hread
  · have htyped : Phase.idle.Typed := trivial
    exact readFrames_reads htyped rfl input

/-- A ping, written and read. -/
theorem frames_agree_ping : readMasked (writeFrame [1, 2, 3, 4] 9 [5]) = some (⟨true, 9, [5]⟩, []) ∧
    Reads false .idle [137, 1, 5] (readFrames false {} [137, 1, 5]) :=
  ⟨(frames_agree.1 [1, 2, 3, 4] [5] 9 rfl (by decide) (by decide)).1, frames_agree.2 false [137, 1, 5]⟩

end WebSocket

end Android

end Speecher
