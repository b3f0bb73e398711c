import Mathlib.Algebra.Ring.Nat
import Speecher.Foundations.BigEndian

/-!
# The frames of the WebSocket protocol

A frame is a byte of flags and an opcode, the length of its payload in the shortest of three forms, a masking key if
a client sends it, and the payload (`Frame.bytes`, `Frame.maskedBytes`). `readMasked` is a server's reader of one
frame, whatever form its length has; it reads a masked frame back (`readMasked_maskedBytes`), and no frame that it
reads so is shorter (`length_maskedBytes_le`).
-/

namespace Speecher

structure Frame where
  fin : Bool
  opcode : ℕ
  payload : List UInt8
  deriving DecidableEq

/-- The length of a payload; `mask` is set in its first byte. -/
def lengthField (mask n : ℕ) : List UInt8 :=
  if n < 126 then [UInt8.ofNat (mask + n)]
  else if n < 65536 then UInt8.ofNat (mask + 126) :: bigEndian 2 n
  else UInt8.ofNat (mask + 127) :: bigEndian 8 n

def Frame.flags (frame : Frame) : UInt8 := UInt8.ofNat ((if frame.fin then 128 else 0) + frame.opcode)

/-- A frame as a server sends it. -/
def Frame.bytes (frame : Frame) : List UInt8 := frame.flags :: lengthField 0 frame.payload.length ++ frame.payload

/-- A payload and a key of four bytes, one over the other. -/
def masked (key payload : List UInt8) : List UInt8 :=
  payload.mapIdx fun index byte => byte ^^^ key.getD (index % 4) 0

/-- A frame as a client sends it. -/
def Frame.maskedBytes (frame : Frame) (key : List UInt8) : List UInt8 :=
  frame.flags :: lengthField 128 frame.payload.length ++ key ++ masked key frame.payload

/-- How long a payload is said to be, by the last seven bits of a byte and the bytes behind it. -/
def readLength (marker : ℕ) (input : List UInt8) : Option (ℕ × List UInt8) :=
  if marker < 126 then some (marker, input)
  else
    let width := if marker = 126 then 2 else 8
    if input.length < width then none else some (ofBigEndian (input.take width), input.drop width)

/-- A server's reader of one masked frame. -/
def readMasked : List UInt8 → Option (Frame × List UInt8)
  | flags :: second :: input =>
    if flags &&& 112 ≠ 0 ∨ second &&& 128 = 0 then none
    else
      (readLength (second &&& 127).toNat input).bind fun (length, input) =>
        if input.length < 4 + length then none
        else
          some (⟨flags &&& 128 ≠ 0, (flags &&& 15).toNat, masked (input.take 4) ((input.drop 4).take length)⟩,
            input.drop (4 + length))
  | _ => none

/-! ## What is written is read -/

theorem Frame.flags_spec {frame : Frame} (h : frame.opcode < 16) :
    frame.flags &&& 112 = 0 ∧ decide (frame.flags &&& 128 ≠ 0) = frame.fin ∧
      (frame.flags &&& 15).toNat = frame.opcode := by
  have hall : ∀ fin : Bool, ∀ opcode < 16, UInt8.ofNat ((if fin then 128 else 0) + opcode) &&& 112 = 0 ∧
      decide (UInt8.ofNat ((if fin then 128 else 0) + opcode) &&& 128 ≠ 0) = fin ∧
      (UInt8.ofNat ((if fin then 128 else 0) + opcode) &&& 15).toNat = opcode := by decide
  exact hall frame.fin frame.opcode h

/-- A byte without reserved bits is a frame's flags. -/
theorem flags_eq {first : UInt8} (h : first &&& 112 = 0) (payload : List UInt8) :
    (Frame.mk (first &&& 128 ≠ 0) (first &&& 15).toNat payload).flags = first := by
  have hall : ∀ n < 256, UInt8.ofNat n &&& 112 = 0 →
      UInt8.ofNat ((if decide (UInt8.ofNat n &&& 128 ≠ 0) = true then 128 else 0) + (UInt8.ofNat n &&& 15).toNat) =
        UInt8.ofNat n := by decide +kernel
  have hfirst := hall first.toNat first.toNat_lt
  rw [UInt8.ofNat_toNat] at hfirst
  exact hfirst h

/-- A byte with its first bit clear is its other seven. -/
theorem marker_eq {second : UInt8} (h : second &&& 128 = 0) : UInt8.ofNat (second &&& 127).toNat = second := by
  have hall : ∀ n < 256, UInt8.ofNat n &&& 128 = 0 → UInt8.ofNat (UInt8.ofNat n &&& 127).toNat = UInt8.ofNat n := by
    decide +kernel
  have hsecond := hall second.toNat second.toNat_lt
  rw [UInt8.ofNat_toNat] at hsecond
  exact hsecond h

theorem marker_lt (second : UInt8) : (second &&& 127).toNat < 128 := by
  rw [UInt8.toNat_and]
  exact Nat.lt_succ_of_le Nat.and_le_right

theorem readLength_lt {marker n : ℕ} {input rest : List UInt8} (h : readLength marker input = some (n, rest)) :
    n < 256 ^ 8 := by
  rw [readLength] at h
  by_cases hsmall : marker < 126
  · rw [if_pos hsmall, Option.some.injEq, Prod.mk.injEq] at h
    omega
  · rw [if_neg hsmall] at h
    dsimp only at h
    generalize hwidth : (if marker = 126 then 2 else 8) = width at h
    by_cases hshort : input.length < width
    · rw [if_pos hshort] at h
      cases h
    · rw [if_neg hshort, Option.some.injEq, Prod.mk.injEq] at h
      obtain ⟨rfl, -⟩ := h
      have hlt := ofBigEndian_lt (input.take width)
      rw [List.length_take_of_le (Nat.le_of_not_lt hshort)] at hlt
      split_ifs at hwidth <;> subst hwidth <;> omega

/-- The length is read from its field. -/
theorem lengthField_spec {mask : ℕ} (hmask : mask = 0 ∨ mask = 128) {n : ℕ} (hn : n < 256 ^ 8) (rest : List UInt8) :
    ∃ second tail, lengthField mask n = second :: tail ∧ (second &&& 128 ≠ 0 ↔ mask = 128) ∧
      readLength (second &&& 127).toNat (tail ++ rest) = some (n, rest) ∧
      ((second &&& 127).toNat = 126 → 126 ≤ n) ∧ ((second &&& 127).toNat = 127 → 65536 ≤ n) := by
  have hmarker : ∀ mask ∈ [0, 128], ∀ marker < 128, (UInt8.ofNat (mask + marker) &&& 128 ≠ 0 ↔ mask = 128) ∧
      (UInt8.ofNat (mask + marker) &&& 127).toNat = marker := by decide
  have hmem : mask ∈ [0, 128] := by simpa using hmask
  rw [lengthField]
  by_cases hsmall : n < 126
  · obtain ⟨hbit, hvalue⟩ := hmarker mask hmem n (by omega)
    rw [if_pos hsmall]
    refine ⟨_, [], rfl, hbit, ?_, by omega, by omega⟩
    rw [hvalue, readLength, if_pos hsmall, List.nil_append]
  · rw [if_neg hsmall]
    by_cases hmiddle : n < 65536
    · obtain ⟨hbit, hvalue⟩ := hmarker mask hmem 126 (by omega)
      rw [if_pos hmiddle]
      refine ⟨_, _, rfl, hbit, ?_, by omega, by omega⟩
      rw [hvalue, readLength, if_neg (by decide)]
      dsimp only
      have henough : ¬(bigEndian 2 n ++ rest).length < 2 := by
        rw [List.length_append, length_bigEndian]
        omega
      rw [if_pos rfl, if_neg henough, List.take_left' (length_bigEndian 2 n), List.drop_left' (length_bigEndian 2 n),
        ofBigEndian_bigEndian (by omega)]
    · obtain ⟨hbit, hvalue⟩ := hmarker mask hmem 127 (by omega)
      rw [if_neg hmiddle]
      refine ⟨_, _, rfl, hbit, ?_, by omega, by omega⟩
      rw [hvalue, readLength, if_neg (by decide)]
      dsimp only
      have henough : ¬(bigEndian 8 n ++ rest).length < 8 := by
        rw [List.length_append, length_bigEndian]
        omega
      rw [show (if (127 : ℕ) = 126 then 2 else 8) = 8 from rfl, if_neg henough, List.take_left' (length_bigEndian 8 n),
        List.drop_left' (length_bigEndian 8 n), ofBigEndian_bigEndian hn]

@[simp] theorem length_masked (key payload : List UInt8) : (masked key payload).length = payload.length :=
  List.length_mapIdx

/-- The key undoes itself. -/
theorem masked_masked (key payload : List UInt8) : masked key (masked key payload) = payload := by
  rw [masked, masked, List.mapIdx_mapIdx]
  refine (List.mapIdx_eq_iff.mpr fun i => ?_)
  cases payload[i]? with
  | none => rfl
  | some b => simp [UInt8.xor_assoc]

/-- **A masked frame is read back.** -/
theorem readMasked_maskedBytes {frame : Frame} {key : List UInt8} (hopcode : frame.opcode < 16)
    (hpayload : frame.payload.length < 256 ^ 8) (hkey : key.length = 4) (rest : List UInt8) :
    readMasked (frame.maskedBytes key ++ rest) = some (frame, rest) := by
  obtain ⟨hreserved, hfin, hcode⟩ := Frame.flags_spec hopcode
  obtain ⟨second, tail, hfield, hbit, hlength, -, -⟩ :=
    lengthField_spec (.inr rfl) hpayload (key ++ masked key frame.payload ++ rest)
  have hbytes : frame.maskedBytes key ++ rest =
      frame.flags :: second :: (tail ++ (key ++ masked key frame.payload ++ rest)) := by
    rw [Frame.maskedBytes, hfield]
    simp
  have htake : ((key ++ masked key frame.payload ++ rest).drop 4).take frame.payload.length = masked key frame.payload := by
    rw [List.append_assoc, List.drop_left' hkey, List.take_left' (length_masked _ _)]
  have hdrop : (key ++ masked key frame.payload ++ rest).drop (4 + frame.payload.length) = rest :=
    List.drop_left' (by rw [List.length_append, hkey, length_masked])
  have hpresent : ¬(key ++ masked key frame.payload ++ rest).length < 4 + frame.payload.length := by
    rw [List.length_append, List.length_append, length_masked, hkey]
    omega
  have hhead : ¬(frame.flags &&& 112 ≠ 0 ∨ second &&& 128 = 0) := fun h => h.elim (absurd hreserved) (hbit.mpr rfl)
  rw [hbytes, readMasked, if_neg hhead, hlength, Option.bind_some]
  dsimp only
  rw [if_neg hpresent, htake, hdrop, List.append_assoc, List.take_left' hkey, masked_masked]
  rw [hfin, hcode]

/-- No length has a shorter form. -/
theorem length_lengthField_le (mask : ℕ) {marker n : ℕ} {input rest : List UInt8}
    (h : readLength marker input = some (n, rest)) : (lengthField mask n).length + rest.length ≤ 1 + input.length := by
  rw [readLength] at h
  by_cases hsmall : marker < 126
  · rw [if_pos hsmall, Option.some.injEq, Prod.mk.injEq] at h
    obtain ⟨rfl, rfl⟩ := h
    have hlength : (lengthField mask marker).length = 1 := by
      rw [lengthField, if_pos hsmall, List.length_singleton]
    omega
  · rw [if_neg hsmall] at h
    dsimp only at h
    generalize hwidth : (if marker = 126 then 2 else 8) = width at h
    by_cases hshort : input.length < width
    · rw [if_pos hshort] at h
      cases h
    · rw [if_neg hshort, Option.some.injEq, Prod.mk.injEq] at h
      obtain ⟨rfl, rfl⟩ := h
      have hlt := ofBigEndian_lt (input.take width)
      rw [List.length_take_of_le (Nat.le_of_not_lt hshort)] at hlt
      have hdrop := List.length_drop (l := input) (i := width)
      rw [lengthField]
      split_ifs at hwidth ⊢ <;> subst hwidth <;> simp only [List.length_cons, List.length_nil, length_bigEndian] <;> omega

/-- A length in its shortest form was written so. -/
theorem eq_lengthField {marker n : ℕ} {input rest : List UInt8} (hmarker : marker < 128)
    (h : readLength marker input = some (n, rest)) (hmiddle : marker = 126 → 126 ≤ n) (hlong : marker = 127 → 65536 ≤ n) :
    UInt8.ofNat marker :: input = lengthField 0 n ++ rest := by
  rw [readLength] at h
  by_cases hsmall : marker < 126
  · rw [if_pos hsmall, Option.some.injEq, Prod.mk.injEq] at h
    obtain ⟨rfl, rfl⟩ := h
    rw [lengthField, if_pos hsmall, Nat.zero_add, List.singleton_append]
  · rw [if_neg hsmall] at h
    dsimp only at h
    generalize hwidth : (if marker = 126 then 2 else 8) = width at h
    by_cases hshort : input.length < width
    · rw [if_pos hshort] at h
      cases h
    · rw [if_neg hshort, Option.some.injEq, Prod.mk.injEq] at h
      obtain ⟨rfl, rfl⟩ := h
      have hlength : (input.take width).length = width := List.length_take_of_le (Nat.le_of_not_lt hshort)
      have hlt := ofBigEndian_lt (input.take width)
      have hback := bigEndian_ofBigEndian (input.take width)
      rw [hlength] at hlt hback
      by_cases hshape : marker = 126
      · rw [if_pos hshape] at hwidth
        subst hwidth hshape
        have hle := hmiddle rfl
        rw [lengthField, if_neg (by omega), if_pos (by omega), hback, List.cons_append, List.take_append_drop]
      · rw [if_neg hshape] at hwidth
        obtain rfl : marker = 127 := by omega
        subst hwidth
        have hle := hlong rfl
        rw [lengthField, if_neg (by omega), if_neg (by omega), hback, List.cons_append, List.take_append_drop]

/-- **No shorter bytes** are read as a frame than the masked frame itself. -/
theorem length_maskedBytes_le {bytes rest : List UInt8} {frame : Frame} (h : readMasked bytes = some (frame, rest))
    {key : List UInt8} (hkey : key.length = 4) : (frame.maskedBytes key).length + rest.length ≤ bytes.length := by
  match bytes with
  | [] | [_] => cases h
  | flags :: second :: input =>
    rw [readMasked] at h
    by_cases hhead : flags &&& 112 ≠ 0 ∨ second &&& 128 = 0
    · rw [if_pos hhead] at h
      cases h
    · rw [if_neg hhead] at h
      obtain ⟨⟨n, input'⟩, hlength, h⟩ := Option.bind_eq_some_iff.mp h
      dsimp only at h
      by_cases hshort : input'.length < 4 + n
      · rw [if_pos hshort] at h
        cases h
      · rw [if_neg hshort, Option.some.injEq, Prod.mk.injEq] at h
        obtain ⟨rfl, rfl⟩ := h
        have hpayload : ((input'.drop 4).take n).length = n := by
          rw [List.length_take_of_le]
          rw [List.length_drop]
          omega
        have hle := length_lengthField_le 128 hlength
        simp only [Frame.maskedBytes, List.length_append, List.length_cons, hkey, length_masked, hpayload, List.length_drop]
        omega

end Speecher
