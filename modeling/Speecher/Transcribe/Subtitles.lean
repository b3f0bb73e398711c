import Mathlib.Algebra.Ring.Nat
import Speecher.Bindings.Words
import Speecher.Foundations.Blocks

/-!
# Subtitles

A transcript's timed segments become the cues of a subtitle file: each segment's text, its white space simplified, is
cut at sentence ends, clauses and words until it fits, the pieces are joined back while they fit, and the segment's
time is shared out by length. The file is SubRip or WebVTT.
-/

namespace Speecher

structure TranscriptSegment where
  startMs : ℤ := 0
  endMs : ℤ := 0
  text : Text
  deriving DecidableEq

/-- What Export writes: the transcript as text, or its timings as subtitles. -/
inductive TranscriptFormat
  | text | srt | webVtt
  deriving DecidableEq

namespace Subtitles

/-- The size of a text in UTF-16 code units. -/
def size (text : Text) : ℕ := (text.map fun c => if c.toNat < 0x10000 then 1 else 2).sum

/-- `QString::simplified`: runs of white space become single spaces, and the ends have none. -/
def simplified (text : Text) : Text := [' '].intercalate ((text.splitOnP isSpace).filter (· ≠ []))

def maxCueChars : ℕ := 84

/-- Shorter than this, a cue flashes past before it can be read. -/
def minCueMs : ℤ := 500

/-! ## Cues -/

/-- A text cut after each of the marks that a space follows. -/
def cutAfter (marks : Text) : Text → List Text
  | [] => [[]]
  | [c] => [[c]]
  | c :: next :: rest =>
    if c ∈ marks ∧ isSpace next then [c] :: cutAfter marks (next :: rest)
    else (cutAfter marks (next :: rest)).modifyHead (c :: ·)

def splitAfter (text marks : Text) : List Text := ((cutAfter marks text).map trimmed).filter (· ≠ [])

/-- The places a too-long piece may break, most preferred first. -/
inductive Break
  | sentence | clause | word | none
  deriving DecidableEq

namespace Break

def next : Break → Break
  | sentence => clause
  | clause => word
  | word | none => none

/-- How many places are left. -/
def left : Break → ℕ
  | sentence => 3
  | clause => 2
  | word => 1
  | none => 0

end Break

def splitAt (text : Text) : Break → List Text
  | .sentence => splitAfter text ['.', '?', '!', '…']
  | .clause => splitAfter text [',', ';', ':']
  | .word => text.splitOn ' '
  | .none => [text]

/-- A text's pieces at the first break that brings each within the limit. -/
def appendPieces (text : Text) (place : Break) : List Text :=
  if _h : size text ≤ maxCueChars ∨ place = .none then [text]
  else (splitAt text place).flatMap fun part => appendPieces part place.next
termination_by place.left
decreasing_by cases place <;> simp_all [Break.next, Break.left]

/-- A piece joins the last cue while it fits. -/
def joinPiece (cues : List Text) (piece : Text) : List Text :=
  match cues.getLast? with
  | some last =>
    if size last + 1 + size piece ≤ maxCueChars then cues.dropLast ++ [last ++ ' ' :: piece] else cues ++ [piece]
  | none => cues ++ [piece]

def cueTexts (text : Text) : List Text := (appendPieces text .sentence).foldl joinPiece []

/-- The cues of a segment's texts, `before` code units of `total` being taken. -/
def cuesOf (startMs duration : ℤ) (total : ℕ) : ℕ → List Text → List TranscriptSegment
  | _, [] => []
  | before, piece :: texts =>
    let start := startMs + duration * before / total
    let stop := startMs + duration * (before + size piece : ℕ) / total
    { startMs := start, endMs := max stop (start + minCueMs), text := piece } ::
      cuesOf startMs duration total (before + size piece) texts

def segmentCues (segment : TranscriptSegment) : List TranscriptSegment :=
  let text := simplified segment.text
  if text = [] then []
  else
    let texts := cueTexts text
    cuesOf segment.startMs (max 0 (segment.endMs - segment.startMs)) (texts.map size).sum 0 texts

def cues (segments : List TranscriptSegment) : List TranscriptSegment := segments.flatMap segmentCues

/-! ## Files -/

/-- `QString::arg` of a number, filled up with zeros. -/
def argNumber (value : ℤ) (width : ℕ) : Text :=
  if 0 ≤ value then paddedDigits width value.natAbs else '-' :: paddedDigits (width - 1) value.natAbs

def timestamp (ms : ℤ) (decimalMark : Char) : Text :=
  argNumber (ms.tdiv 3600000) 2 ++ ':' :: argNumber ((ms.tdiv 60000).tmod 60) 2 ++
    ':' :: argNumber ((ms.tdiv 1000).tmod 60) 2 ++ decimalMark :: argNumber (ms.tmod 1000) 3

/-- `QString::replace` of a character. -/
def replaced (text : Text) (old : Char) (new : Text) : Text := text.flatMap fun c => if c = old then new else [c]

def escapedForWebVtt (text : Text) : Text :=
  replaced (replaced (replaced text '&' "&amp;".toList) '<' "&lt;".toList) '>' "&gt;".toList

def arrow : Text := "-->".toList

def timing (cue : TranscriptSegment) (decimalMark : Char) : Text :=
  timestamp cue.startMs decimalMark ++ ' ' :: arrow ++ ' ' :: timestamp cue.endMs decimalMark

def subtitleFile (segments : List TranscriptSegment) (format : TranscriptFormat) : Text :=
  let blocks :=
    if format = .webVtt then
      "WEBVTT".toList :: (cues segments).map fun cue => timing cue '.' ++ '\n' :: escapedForWebVtt cue.text
    else (cues segments).mapIdx fun index cue =>
      argNumber (index + 1) 0 ++ '\n' :: timing cue ',' ++ '\n' :: cue.text
  ['\n', '\n'].intercalate blocks

end Subtitles

end Speecher
