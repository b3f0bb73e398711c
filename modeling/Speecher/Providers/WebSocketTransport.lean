import Mathlib.Algebra.Ring.Int.Defs
import Mathlib.Algebra.Ring.Nat
import Mathlib.Data.Int.Notation
import Speecher.Foundations.PercentEncoding
import Speecher.Foundations.WebSocketFrame

/-!
# The frames of Android's WebSocket

`SocketWebSocketTransport` sends its frames with `writeFrame` and reads the service's with `readFrames`: a loop over
the input that reads a frame (`readFrame`), checks it and delivers what it completes (`handleFrame`). Of the
transport's other states the loop knows whether a close was under way (`closing`); it is not cancelled while it reads.
-/

namespace Speecher

namespace Android

namespace WebSocket

/-- What ends the loop: an exception, `EOFException` and `CharacterCodingException` among them. -/
inductive ReadFailure
  | io (text : String)
  | endOfFile
  | characterCoding
  deriving DecidableEq

/-- What the loop tells the listener and hands the writer. -/
inductive Output
  | onText (text : List Char)
  | onBinary (bytes : List UInt8)
  | submit (opcode : ℕ) (bytes : List UInt8)
  | onClosed (code : ℕ) (reason : List Char)
  | onFailure (failure : ReadFailure)
  deriving DecidableEq

/-- 16 MiB. -/
def maximumLength : ℕ := 16 * 1024 * 1024

def validCloseCode (code : ℕ) : Bool :=
  (1000 ≤ code && code ≤ 1014 && code ∉ [1004, 1005, 1006]) || (3000 ≤ code && code ≤ 4999)

def decodeText (bytes : List UInt8) : Except ReadFailure (List Char) :=
  match utf8Text bytes with
  | some text => .ok text
  | none => .error .characterCoding

/-- `writeFrame`, with the mask it drew. -/
def writeFrame (mask : List UInt8) (opcode : ℕ) (bytes : List UInt8) : List UInt8 :=
  UInt8.ofNat (128 ||| opcode) ::
    ((if bytes.length < 126 then [UInt8.ofNat (128 ||| bytes.length)]
      else if bytes.length ≤ 65535 then
        [UInt8.ofNat (128 ||| 126), UInt8.ofNat (bytes.length >>> 8), UInt8.ofNat bytes.length]
      else UInt8.ofNat (128 ||| 127) :: bigEndian 8 bytes.length) ++
    mask ++ bytes.mapIdx fun index byte => byte ^^^ mask.getD (index % 4) 0)

/-- `DataInputStream.readFully`. -/
def readFully (n : ℕ) (input : List UInt8) : Except ReadFailure (List UInt8 × List UInt8) :=
  if input.length < n then .error .endOfFile else .ok (input.take n, input.drop n)

/-- `DataInputStream.readLong` of eight bytes. -/
def signedLong (bytes : List UInt8) : ℤ :=
  if ofBigEndian bytes < 2 ^ 63 then ofBigEndian bytes else ofBigEndian bytes - 2 ^ 64

/-- The length a frame's second byte announces, as far as the bytes behind it say. -/
def readFrameLength (marker : ℕ) (input : List UInt8) : Except ReadFailure (ℤ × List UInt8) :=
  if marker = 126 then (readFully 2 input).map fun (bytes, input) => ((ofBigEndian bytes : ℤ), input)
  else if marker = 127 then (readFully 8 input).map fun (bytes, input) => (signedLong bytes, input)
  else .ok (marker, input)

/-- The first half of the loop's body: one frame of the input. -/
def readFrame : List UInt8 → Except ReadFailure (Frame × List UInt8)
  | first :: second :: input =>
    if first &&& 112 ≠ 0 ∨ second &&& 128 ≠ 0 then .error (.io "Invalid server frame flags")
    else
      let marker := (second &&& 127).toNat
      (readFrameLength marker input).bind fun (length, input) =>
        if length < 0 ∨ length > maximumLength ∨ (marker = 126 ∧ length < 126) ∨ (marker = 127 ∧ length < 65536) then
          .error (.io "Invalid frame length")
        else if (first &&& 15).toNat ≥ 8 ∧ (first &&& 128 = 0 ∨ length > 125) then .error (.io "Invalid control frame")
        else
          (readFully length.toNat input).map fun (bytes, input) =>
            (⟨first &&& 128 ≠ 0, (first &&& 15).toNat, bytes⟩, input)
  | _ => .error .endOfFile

/-- What the loop keeps between frames; nothing once the connection was closed. -/
structure ReadState where
  message : List UInt8 := []
  messageType : ℕ := 0
  deriving DecidableEq

/-- A close frame: its code and its reason. -/
def handleClose (closing : Bool) (bytes : List UInt8) : Except ReadFailure (List Output × Option ReadState) :=
  if bytes.length = 1 then .error (.io "Invalid close payload")
  else
    let code := if bytes = [] then 1005 else ((bytes.getD 0 0).toNat <<< 8) ||| (bytes.getD 1 0).toNat
    if bytes ≠ [] ∧ ¬validCloseCode code then .error (.io "Invalid close code")
    else
      (if bytes = [] then .ok [] else decodeText (bytes.drop 2)).map fun reason =>
        ((if closing then [] else [.submit 8 bytes]) ++ [.onClosed code reason], none)

/-- A frame of a message. -/
def handleData (s : ReadState) (frame : Frame) : Except ReadFailure (List Output × Option ReadState) :=
  if (frame.opcode = 0 ∧ s.messageType = 0) ∨ (frame.opcode ≠ 0 ∧ s.messageType ≠ 0) then
    .error (.io "Invalid continuation frame")
  else
    let messageType := if frame.opcode ≠ 0 then frame.opcode else s.messageType
    if s.message.length + frame.payload.length > maximumLength then .error (.io "WebSocket message too large")
    else
      let message := s.message ++ frame.payload
      if frame.fin then
        if messageType = 1 then (decodeText message).map fun text => ([.onText text], some {})
        else .ok ([.onBinary message], some {})
      else .ok ([], some ⟨message, messageType⟩)

/-- The second half of the loop's body. -/
def handleFrame (closing : Bool) (s : ReadState) (frame : Frame) : Except ReadFailure (List Output × Option ReadState) :=
  match frame.opcode with
  | 8 => handleClose closing frame.payload
  | 9 => .ok ([.submit 10 frame.payload], some s)
  | 10 => .ok ([], some s)
  | 0 | 1 | 2 => handleData s frame
  | _ => .error (.io "Invalid frame opcode")

/-! ## One frame -/

/-- The frames the loop takes from its input: those a server may send, of the lengths it allows. -/
structure Sound (frame : Frame) : Prop where
  opcode : frame.opcode < 16
  length : frame.payload.length ≤ maximumLength
  control : 8 ≤ frame.opcode → frame.fin = true ∧ frame.payload.length ≤ 125

/-- A frame's length is as the protocol says, read as a signed number. -/
theorem readFrameLength_eq {marker : ℕ} (hmarker : marker < 128) (input : List UInt8) :
    readFrameLength marker input =
      match readLength marker input with
      | none => .error .endOfFile
      | some (n, rest) => .ok (if n < 2 ^ 63 then (n : ℤ) else n - 2 ^ 64, rest) := by
  rw [readFrameLength, readLength]
  by_cases hmiddle : marker = 126
  · subst hmiddle
    rw [if_pos rfl, if_neg (by decide), readFully]
    dsimp only
    rw [if_pos rfl]
    by_cases hshort : input.length < 2
    · rw [if_pos hshort, if_pos hshort]
      rfl
    · have hlt := ofBigEndian_lt (input.take 2)
      rw [List.length_take_of_le (Nat.le_of_not_lt hshort)] at hlt
      rw [if_neg hshort, if_neg hshort]
      dsimp only
      rw [if_pos (by omega)]
      rfl
  · rw [if_neg hmiddle]
    by_cases hlong : marker = 127
    · subst hlong
      rw [if_pos rfl, if_neg (by decide), readFully]
      dsimp only
      rw [show (if (127 : ℕ) = 126 then 2 else 8) = 8 from rfl]
      by_cases hshort : input.length < 8
      · rw [if_pos hshort, if_pos hshort]
        rfl
      · rw [if_neg hshort, if_neg hshort]
        rfl
    · rw [if_neg hlong, if_pos (by omega)]
      dsimp only
      rw [if_pos (by omega)]

/-- **A sound frame** is read from its bytes. -/
theorem readFrame_bytes {frame : Frame} (h : Sound frame) (rest : List UInt8) :
    readFrame (frame.bytes ++ rest) = .ok (frame, rest) := by
  have hlimit : maximumLength = 16777216 := rfl
  have hshort := h.length
  obtain ⟨hreserved, hfin, hcode⟩ := Frame.flags_spec h.opcode
  obtain ⟨second, tail, hfield, hbit, hlength, hmiddle, hlong⟩ :=
    lengthField_spec (.inl rfl) (show frame.payload.length < 256 ^ 8 by omega) (frame.payload ++ rest)
  have hbytes : frame.bytes ++ rest = frame.flags :: second :: (tail ++ (frame.payload ++ rest)) := by
    rw [Frame.bytes, hfield]
    simp
  have hunmasked : ¬second &&& 128 ≠ 0 := fun hmasked => absurd (hbit.mp hmasked) (by decide)
  have hcontrol : ¬((frame.flags &&& 15).toNat ≥ 8 ∧
      (frame.flags &&& 128 = 0 ∨ ((frame.payload.length : ℕ) : ℤ) > 125)) := by
    rintro ⟨hge, hbad⟩
    rw [hcode] at hge
    obtain ⟨hwhole, hsize⟩ := h.control hge
    rw [hwhole, decide_eq_true_eq] at hfin
    exact hbad.elim hfin (by omega)
  rw [hbytes, readFrame, if_neg (not_or.mpr ⟨not_not.mpr hreserved, hunmasked⟩)]
  dsimp only
  rw [readFrameLength_eq (marker_lt second), hlength]
  dsimp only [Except.bind]
  rw [if_pos (show frame.payload.length < 2 ^ 63 by omega), if_neg (by omega), if_neg hcontrol, Int.toNat_natCast, readFully,
    if_neg (by rw [List.length_append]; omega), List.take_left' rfl, List.drop_left' rfl, hfin, hcode]
  rfl

/-- **Only from its bytes** is a frame read, and only a sound one. -/
theorem readFrame_eq_ok {input rest : List UInt8} {frame : Frame} (h : readFrame input = .ok (frame, rest)) :
    Sound frame ∧ input = frame.bytes ++ rest := by
  match input with
  | [] | [_] => cases h
  | first :: second :: input =>
    rw [readFrame] at h
    by_cases hflags : first &&& 112 ≠ 0 ∨ second &&& 128 ≠ 0
    · rw [if_pos hflags] at h
      cases h
    · rw [if_neg hflags] at h
      rw [not_or, not_not, not_not] at hflags
      obtain ⟨hreserved, hunmasked⟩ := hflags
      dsimp only at h
      rw [readFrameLength_eq (marker_lt second)] at h
      cases hlength : readLength (second &&& 127).toNat input with
      | none => rw [hlength] at h; cases h
      | some read =>
        obtain ⟨n, rest'⟩ := read
        have hlt := readLength_lt hlength
        rw [hlength] at h
        dsimp only [Except.bind] at h
        generalize hsigned : (if n < 2 ^ 63 then (n : ℤ) else n - 2 ^ 64) = length at h
        by_cases hbad : length < 0 ∨ length > maximumLength ∨ ((second &&& 127).toNat = 126 ∧ length < 126) ∨
            ((second &&& 127).toNat = 127 ∧ length < 65536)
        · rw [if_pos hbad] at h
          cases h
        · rw [if_neg hbad] at h
          obtain rfl : length = n := by
            split_ifs at hsigned <;> omega
          by_cases hcontrol : (first &&& 15).toNat ≥ 8 ∧ (first &&& 128 = 0 ∨ (n : ℤ) > 125)
          · rw [if_pos hcontrol] at h
            cases h
          · rw [if_neg hcontrol, Int.toNat_natCast, readFully] at h
            by_cases hshort : rest'.length < n
            · rw [if_pos hshort] at h
              cases h
            · rw [if_neg hshort] at h
              have hpayload : (rest'.take n).length = n := List.length_take_of_le (Nat.le_of_not_lt hshort)
              obtain ⟨rfl, rfl⟩ := Prod.mk.inj (Except.ok.inj h)
              have hinput := eq_lengthField (marker_lt second) hlength (by omega) (by omega)
              rw [marker_eq hunmasked] at hinput
              refine ⟨⟨?_, ?_, fun hge => ⟨?_, ?_⟩⟩, ?_⟩
              · rw [UInt8.toNat_and]
                exact Nat.lt_succ_of_le Nat.and_le_right
              · rw [hpayload]
                omega
              · exact decide_eq_true fun hfin => hcontrol ⟨hge, .inl hfin⟩
              · rw [hpayload]
                by_contra hlong
                exact hcontrol ⟨hge, .inr (by omega)⟩
              · rw [Frame.bytes, flags_eq hreserved, hpayload, hinput]
                simp only [List.cons_append, List.append_assoc, List.take_append_drop]

theorem readFrame_length {input rest : List UInt8} {frame : Frame} (h : readFrame input = .ok (frame, rest)) :
    rest.length < input.length := by
  obtain ⟨-, rfl⟩ := readFrame_eq_ok h
  rw [Frame.bytes, List.cons_append, List.cons_append, List.length_cons, List.length_append]
  omega

/-- The loop over the frames of the input. -/
def readFrames (closing : Bool) (s : ReadState) (input : List UInt8) : List Output :=
  match h : readFrame input with
  | .error failure => [.onFailure failure]
  | .ok (frame, rest) =>
    have := readFrame_length h
    match handleFrame closing s frame with
    | .error failure => [.onFailure failure]
    | .ok (outputs, none) => outputs
    | .ok (outputs, some s') => outputs ++ readFrames closing s' rest
termination_by input.length

end WebSocket

end Android

end Speecher
