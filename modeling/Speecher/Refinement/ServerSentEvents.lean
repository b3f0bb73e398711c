import Mathlib.Data.List.DropRight
import Mathlib.Tactic.Common
import Speecher.Foundations.IndexOf

/-!
# Frames of a stream of server-sent events

`takeSseFrame` takes the first whole event off the bytes received so far: what stands before the first empty line,
whichever of the two line ends it has. A frame taken leaves fewer bytes (`length_takeSseFrame`), so that a reader that
takes one frame after the other comes to an end, and bytes still to come change nothing of it
(`takeSseFrame_append`), so that it does not matter in which chunks they come.
-/

namespace Speecher

/-- White space of `QByteArray::trimmed`. -/
def isByteSpace (b : UInt8) : Bool := b = 32 || (9 ≤ b && b ≤ 13)

/-- `QByteArray::trimmed`. -/
def trimmedBytes (bytes : List UInt8) : List UInt8 := (bytes.dropWhile isByteSpace).rdropWhile isByteSpace

structure SseFrame where
  name : List UInt8 := []
  data : List UInt8 := []
  deriving DecidableEq

/-- `event:` -/
def eventField : List UInt8 := [101, 118, 101, 110, 116, 58]

/-- `data:` -/
def dataField : List UInt8 := [100, 97, 116, 97, 58]

/-- What a line of a frame says of its event. -/
def SseFrame.line (frame : SseFrame) (line : List UInt8) : SseFrame :=
  if eventField <+: line then { frame with name := trimmedBytes (line.drop 6) }
  else if dataField <+: line then { frame with data := frame.data ++ trimmedBytes (line.drop 5) }
  else frame

/-- The event of a frame's bytes. -/
def SseFrame.ofBytes (bytes : List UInt8) : SseFrame := (bytes.splitOn 10).foldl SseFrame.line {}

/-- Where the first frame ends, and how many bytes part it from the next. -/
def sseBoundary (buffer : List UInt8) : Option (ℕ × ℕ) :=
  match indexOf [10, 10] buffer, indexOf [13, 10, 13, 10] buffer with
  | some boundary, some crlfBoundary => if crlfBoundary < boundary then some (crlfBoundary, 4) else some (boundary, 2)
  | none, some crlfBoundary => some (crlfBoundary, 4)
  | some boundary, none => some (boundary, 2)
  | none, none => none

/-- The first whole event of a buffer, and what is left of the buffer. -/
def takeSseFrame (buffer : List UInt8) : Option (SseFrame × List UInt8) :=
  (sseBoundary buffer).map fun (boundary, separator) =>
    (.ofBytes (buffer.take boundary), buffer.drop (boundary + separator))

/-- A boundary lies within the buffer. -/
theorem sseBoundary_le {buffer : List UInt8} {boundary separator : ℕ}
    (h : sseBoundary buffer = some (boundary, separator)) : 0 < separator ∧ boundary + separator ≤ buffer.length := by
  rw [sseBoundary] at h
  split at h
  · rename_i b c hb hc
    have hb' := indexOf_add_length_le hb
    have hc' := indexOf_add_length_le hc
    split_ifs at h <;> cases h
    · exact ⟨by decide, hc'⟩
    · exact ⟨by decide, hb'⟩
  · rename_i c _ hc
    have hc' := indexOf_add_length_le hc
    cases h
    exact ⟨by decide, hc'⟩
  · rename_i b hb _
    have hb' := indexOf_add_length_le hb
    cases h
    exact ⟨by decide, hb'⟩
  · cases h

/-- **A frame taken** leaves fewer bytes. -/
theorem length_takeSseFrame {buffer rest : List UInt8} {frame : SseFrame}
    (h : takeSseFrame buffer = some (frame, rest)) : rest.length < buffer.length := by
  obtain ⟨⟨boundary, separator⟩, hb, heq⟩ := Option.map_eq_some_iff.mp h
  obtain ⟨hpos, hle⟩ := sseBoundary_le hb
  cases heq
  rw [List.length_drop]
  omega

/-- Bytes still to come do not move the boundary: an empty line of either kind that reaches into them would start
behind it. -/
theorem sseBoundary_append {buffer rest : List UInt8} {boundary separator : ℕ}
    (h : sseBoundary buffer = some (boundary, separator)) :
    sseBoundary (buffer ++ rest) = some (boundary, separator) := by
  rw [sseBoundary] at h ⊢
  cases hlf : indexOf [10, 10] buffer with
  | some b =>
    cases hcrlf : indexOf [13, 10, 13, 10] buffer with
    | some c => rw [indexOf_append hlf, indexOf_append hcrlf, ← h, hlf, hcrlf]
    | none =>
      rw [hlf, hcrlf] at h
      rw [indexOf_append hlf]
      cases hcrlf' : indexOf [13, 10, 13, 10] (buffer ++ rest) with
      | none => exact h
      | some c =>
        have hlt := length_lt_of_indexOf_append hcrlf hcrlf'
        have hle := indexOf_add_length_le hlf
        simp only [List.length_cons, List.length_nil] at hlt hle
        -- A CRLF pair that starts before and ends in the rest would have its second carriage return at the line feed.
        have hnot : ¬ c < b := by
          intro hcb
          obtain rfl : b = c + 1 := by omega
          have h13 := getElem?_of_prefix_drop (indexOf_spec hcrlf').1 (k := 2) (by decide)
          have h10 := getElem?_of_prefix_drop (indexOf_spec (indexOf_append hlf rest)).1 (k := 1) (by decide)
          rw [Nat.add_assoc, h13] at h10
          exact absurd h10 (by decide)
        exact (if_neg hnot).trans h
  | none =>
    cases hcrlf : indexOf [13, 10, 13, 10] buffer with
    | none =>
      rw [hlf, hcrlf] at h
      cases h
    | some c =>
      rw [hlf, hcrlf] at h
      rw [indexOf_append hcrlf]
      cases hlf' : indexOf [10, 10] (buffer ++ rest) with
      | none => exact h
      | some b =>
        have hlt := length_lt_of_indexOf_append hlf hlf'
        have hle := indexOf_add_length_le hcrlf
        simp only [List.length_cons, List.length_nil] at hlt hle
        exact (if_pos (by omega)).trans h

/-- **A frame taken** is the same whatever bytes are still to come. -/
theorem takeSseFrame_append {buffer rest : List UInt8} {frame : SseFrame} {left : List UInt8}
    (h : takeSseFrame buffer = some (frame, left)) : takeSseFrame (buffer ++ rest) = some (frame, left ++ rest) := by
  obtain ⟨⟨boundary, separator⟩, hb, heq⟩ := Option.map_eq_some_iff.mp h
  obtain ⟨-, hle⟩ := sseBoundary_le hb
  cases heq
  rw [takeSseFrame, sseBoundary_append hb, Option.map_some]
  dsimp only
  rw [List.take_append_of_le_length (by omega), List.drop_append_of_le_length hle]

end Speecher
