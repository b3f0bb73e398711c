import Mathlib.Data.Int.Notation
import Speecher.Foundations.ArgText
import Speecher.Foundations.Blocks
import Speecher.Foundations.History
import Speecher.Foundations.Runs
import Speecher.Foundations.Utf16Reading
import Speecher.Foundations.Utf8Decoding

/-!
# The transcript file of a recording

A recording writes its lines to a file of its own. `create` opens the file only where none is, and moves on to the next
name otherwise; `append` writes a line at the end and, when the disk did not take it whole, cuts the file back to where
the line began. A write can stop after any byte, a flush can fail, and so can the cut: then the file is closed.

The disk holds a file under each name, and the system's answers are parameters: what is on disk at each try of `create`
and whether it refuses to open a free name, and for each line how many bytes were taken, and whether the flush and the
cut came off. Other programs change other files at any time. The log of a recording says how each append ended, and how
each cut.

* `lineText_break` and `line_break`: a line has one line break, at its end.
* `create_opened`: what `create` opens was not there before.
* **`transcript_holds_whole_lines`**: in every run the file is the lines whose append succeeded, but for part of one
  more after a cut that failed.
-/

namespace Speecher.RecordingTranscript

/-! ## The lines -/

/-- A `QString`, in UTF-16 code units. -/
abbrev QString := List ℕ

/-- `QChar::isSpace`. -/
def isSpace (unit : ℕ) : Bool :=
  unit = 0x20 || (0x09 ≤ unit && unit ≤ 0x0d) || unit = 0x85 || unit = 0xa0 || unit = 0x1680 ||
    (0x2000 ≤ unit && unit ≤ 0x200a) || unit = 0x2028 || unit = 0x2029 || unit = 0x202f || unit = 0x205f ||
    unit = 0x3000

/-- `QString::simplified`: the words between white space, single spaces between them. -/
def simplified (text : QString) : QString := [0x20].intercalate ((text.splitOnP isSpace).filter (!·.isEmpty))

/-- `QString::toUtf8`: half a pair becomes a question mark. -/
def toUtf8 (text : QString) : List UInt8 := utf8 (utf16Text '?' text)

/-- `QString::arg` of a number, two wide and filled with zeros. -/
def clockPart (n : ℤ) : List Char := if n < 0 then '-' :: paddedDigits 1 n.natAbs else paddedDigits 2 n.natAbs

def recordingClock (elapsedMs : ℤ) : List Char :=
  let seconds := elapsedMs.tdiv 1000
  clockPart (seconds.tdiv 3600) ++ [':'] ++ clockPart ((seconds.tdiv 60).tmod 60) ++ [':'] ++
    clockPart (seconds.tmod 60)

def recordingMicrophoneSpeaker : QString := utf16Units ['m', 'e']

def recordingSystemAudioSpeaker : QString := utf16Units ['t', 'h', 'e', 'm']

/-- `[%1] %2: %3` and a line break. -/
def lineText (elapsedMs : ℤ) (speaker text : QString) : QString :=
  utf16Units ('[' :: recordingClock elapsedMs ++ [']', ' ']) ++ speaker ++ utf16Units [':', ' '] ++ simplified text ++
    [0x0a]

/-- A line as the file holds it. -/
def line (elapsedMs : ℤ) (speaker text : QString) : List UInt8 := toUtf8 (lineText elapsedMs speaker text)

/-- A line break of any kind: LF, VT, FF, CR, NEL, and the line and paragraph separators. -/
def isLineBreak (unit : ℕ) : Bool := (0x0a ≤ unit && unit ≤ 0x0d) || unit = 0x85 || unit = 0x2028 || unit = 0x2029

/-- Every line break is white space. -/
theorem isSpace_of_isLineBreak {unit : ℕ} (h : isLineBreak unit = true) : isSpace unit = true ∧ unit ≠ 0x20 := by
  simp only [isLineBreak, isSpace, Bool.or_eq_true, Bool.and_eq_true, decide_eq_true_eq] at h ⊢
  omega

theorem simplified_break {text : QString} {unit : ℕ} (h : unit ∈ simplified text) : isLineBreak unit = false := by
  by_contra hbreak
  obtain ⟨hspace, hne⟩ := isSpace_of_isLineBreak (Bool.not_eq_false _ ▸ hbreak)
  rcases mem_of_mem_intercalate h with hsep | ⟨word, hword, hmem⟩
  · exact hne (List.mem_singleton.mp hsep)
  · have hfalse := eq_false_of_mem_splitOnP (List.mem_filter.mp hword).1 unit hmem
    exact Bool.noConfusion (hspace.symm.trans hfalse)

/-- What a clock is written with. -/
theorem mem_recordingClock {elapsedMs : ℤ} {c : Char} (h : c ∈ recordingClock elapsedMs) :
    c = ':' ∨ c = '-' ∨ c.isDigit = true := by
  have hpart : ∀ n, c ∈ clockPart n → c = ':' ∨ c = '-' ∨ c.isDigit = true := by
    intro n hn
    rw [clockPart] at hn
    split_ifs at hn
    · rcases List.mem_cons.mp hn with rfl | hn
      · exact .inr (.inl rfl)
      · exact .inr (.inr (isDigit_of_mem_paddedDigits hn))
    · exact .inr (.inr (isDigit_of_mem_paddedDigits hn))
  simp only [recordingClock, List.mem_append, List.mem_singleton] at h
  rcases h with (((h | h) | h) | h) | h
  · exact hpart _ h
  · exact .inl h
  · exact hpart _ h
  · exact .inl h
  · exact hpart _ h

theorem ascii_break {text : List Char} (h : ∀ c ∈ text, 0x20 ≤ c.toNat ∧ c.toNat < 0x80) :
    ∀ unit ∈ utf16Units text, isLineBreak unit = false := by
  intro unit hunit
  obtain ⟨c, hc, hmem⟩ := List.mem_flatMap.mp hunit
  obtain ⟨hprinted, hascii⟩ := h c hc
  rw [charUnits, if_pos (by omega), List.mem_singleton] at hmem
  simp only [isLineBreak, Bool.or_eq_false_iff, Bool.and_eq_false_iff, decide_eq_false_iff_not]
  omega

/-- The beginning of a line is printed. -/
theorem opening_break (elapsedMs : ℤ) :
    ∀ unit ∈ utf16Units ('[' :: recordingClock elapsedMs ++ [']', ' ']), isLineBreak unit = false := by
  refine ascii_break fun c hc => ?_
  simp only [List.cons_append, List.mem_cons, List.mem_append, List.not_mem_nil, or_false] at hc
  rcases hc with rfl | hc | rfl | rfl
  · decide
  · rcases mem_recordingClock hc with rfl | rfl | hdigit
    · decide
    · decide
    · have hbounds : 48 ≤ c.toNat ∧ c.toNat ≤ 57 := by
        simpa [Char.isDigit, UInt32.le_iff_toNat_le] using hdigit
      omega
  · decide
  · decide

/-- **A line has one line break, at its end**, whatever its text. -/
theorem lineText_break (elapsedMs : ℤ) {speaker : QString} (hspeaker : ∀ unit ∈ speaker, isLineBreak unit = false)
    (text : QString) :
    ∃ front, lineText elapsedMs speaker text = front ++ [0x0a] ∧ ∀ unit ∈ front, isLineBreak unit = false := by
  refine ⟨_, rfl, fun unit hunit => ?_⟩
  rw [List.mem_append, List.mem_append, List.mem_append] at hunit
  rcases hunit with ((hunit | hunit) | hunit) | hunit
  · exact opening_break elapsedMs unit hunit
  · exact hspeaker unit hunit
  · refine ascii_break (fun c hc => ?_) unit hunit
    rcases List.mem_cons.mp hc with rfl | hc
    · decide
    · rw [List.mem_singleton.mp hc]
      decide
  · exact simplified_break hunit

theorem eq_of_ofNat_newline {n : ℕ} (h : Char.ofNat n = '\n') : n = 0x0a := by
  by_cases hvalid : n.isValidChar
  · rw [Char.ofNat, dif_pos hvalid] at h
    exact congrArg Char.toNat h
  · rw [Char.ofNat, dif_neg hvalid] at h
    exact absurd h (by decide)

/-- A pair is no line break. -/
theorem pairChar_ne_newline (high low : ℕ) : pairChar high low ≠ '\n' := by
  intro h
  have hcode := eq_of_ofNat_newline h
  omega

/-- The bytes of a line have one line feed, at their end. -/
theorem line_break (elapsedMs : ℤ) {speaker : QString} (hspeaker : ∀ unit ∈ speaker, isLineBreak unit = false)
    (text : QString) : ∃ front, line elapsedMs speaker text = front ++ [10] ∧ 10 ∉ front := by
  obtain ⟨front, hline, hbreak⟩ := lineText_break elapsedMs hspeaker text
  have hsplit : line elapsedMs speaker text = utf8 (utf16Text '?' front) ++ utf8 ['\n'] := by
    rw [line, hline, toUtf8, utf16Text_append (by decide), utf8_append]
    rfl
  refine ⟨utf8 (utf16Text '?' front), hsplit, newline_mem_utf8 fun hmem => ?_⟩
  rcases mem_utf16Text hmem with h | ⟨unit, hunit, h⟩ | ⟨high, low, -, -, h⟩
  · exact absurd h (by decide)
  · have hfalse := hbreak unit hunit
    rw [eq_of_ofNat_newline h.symm] at hfalse
    exact absurd hfalse (by decide)
  · exact pairChar_ne_newline high low h.symm

/-! ## The file -/

abbrev Path := List Char

/-- What is under each name. -/
abbrev Disk := Path → Option (List UInt8)

/-- A `QFile`: its name and, while it is open, where its next byte goes. -/
structure QFile where
  fileName : Path := []
  pos : Option ℕ := none

structure World where
  disk : Disk
  file : QFile := {}

def World.content (w : World) : List UInt8 := (w.disk w.file.fileName).getD []

/-- The disk with other bytes in the open file, and where its next byte goes. -/
def World.put (content : List UInt8) (pos : Option ℕ) (w : World) : World where
  disk := Function.update w.disk w.file.fileName (some content)
  file := { w.file with pos := pos }

/-- A file with bytes written at a position, over what is there. -/
def writtenAt (content : List UInt8) (pos : ℕ) (bytes : List UInt8) : List UInt8 :=
  content.take pos ++ List.replicate (pos - content.length) 0 ++ bytes ++ content.drop (pos + bytes.length)

/-- A file cut or filled to a size. -/
def resized (content : List UInt8) (size : ℕ) : List UInt8 :=
  content.take size ++ List.replicate (size - content.length) 0

def recordingFileError (path : Path) (reason : List Char) : List Char :=
  "Could not write ".toList ++ path ++ ": ".toList ++ reason

/-! ### Creating it -/

/-- `QFileInfo::fileName`. -/
def fileName (path : Path) : Path := (path.reverse.takeWhile (· ≠ '/')).reverse

/-- `QFileInfo::dir`. -/
def folder (path : Path) : Path :=
  match (path.reverse.dropWhile (· ≠ '/')).tail.reverse with
  | [] => if '/' ∈ path then ['/'] else ['.']
  | folder => folder

/-- `QDir::filePath` of a name in it. -/
def filePath (folder name : Path) : Path :=
  if name = [] then folder else if folder.getLast? = some '/' then folder ++ name else folder ++ '/' :: name

/-- `QFileInfo::suffix`, with its dot where there is one. -/
def suffix (path : Path) : Path :=
  match (fileName path).reverse.takeWhile (· ≠ '.') with
  | [] => []
  | letters => if '.' ∈ fileName path then '.' :: letters.reverse else []

/-- `QFileInfo::completeBaseName`. -/
def completeBaseName (path : Path) : Path :=
  if '.' ∈ fileName path then ((fileName path).reverse.dropWhile (· ≠ '.')).tail.reverse else fileName path

/-- The name of a try. The texts are put into `%1-%2%3` one after the other. -/
def copyName (path : Path) (copy : ℕ) : Path :=
  if copy = 1 then fileName path
  else arg [suffix path] (arg [Nat.toDigits 10 copy] (arg [completeBaseName path] "%1-%2%3".toList))

/-- What a try meets: the disk as the file is opened, why the system would not open a free name, and the disk as the
name is looked up after that. -/
structure Try where
  disk : Disk
  refusal : Option (List Char) := none
  after : Disk
  errorString : List Char := []

structure Created where
  error : Option (List Char)
  world : World

/-- The tries from a copy on, while the system answers. -/
def tryNames (path : Path) : ℕ → List Try → Option Created
  | _, [] => none
  | copy, t :: tries =>
    if t.disk (filePath (folder path) (copyName path copy)) = none ∧ t.refusal = none then
      some ⟨none, Function.update t.disk (filePath (folder path) (copyName path copy)) (some []),
        ⟨filePath (folder path) (copyName path copy), some 0⟩⟩
    else if t.after (filePath (folder path) (copyName path copy)) = none then
      some ⟨some (recordingFileError (filePath (folder path) (copyName path copy)) (t.refusal.getD t.errorString)),
        t.after, ⟨filePath (folder path) (copyName path copy), none⟩⟩
    else tryNames path (copy + 1) tries

/-- `create`, with the absolute path of the folder, and whether that could be made. -/
def create (path absolutePath : Path) (folderMade : Bool) (tries : List Try) (w : World) : Option Created :=
  if folderMade then tryNames path 1 tries
  else some ⟨some (recordingFileError absolutePath "the folder could not be created".toList), w⟩

/-! ### Appending to it -/

/-- What the system answers to an append: how many bytes of the line it takes, and whether the flush and the cut come
off. -/
structure Answers where
  took : ℕ
  flushed : Bool := true
  truncated : Bool := true
  errorString : List Char := []

structure Appended where
  error : Option (List Char)
  /-- What came of the cut, where one was needed. -/
  truncated : Option Bool
  world : World

/-- `QFile::write` of a line at the file's position. -/
def write (bytes : List UInt8) (endPos : ℕ) (a : Answers) (w : World) : World :=
  w.put (writtenAt w.content endPos (bytes.take a.took)) (some (endPos + (bytes.take a.took).length))

def close (w : World) : World := { w with file := { w.file with pos := none } }

def append (elapsedMs : ℤ) (speaker text : QString) (a : Answers) (w : World) : Appended :=
  match w.file.pos with
  | none =>
    ⟨some (recordingFileError w.file.fileName "part of an earlier line could not be removed".toList), none, w⟩
  | some endPos =>
    let written := write (line elapsedMs speaker text) endPos a w
    if ((line elapsedMs speaker text).take a.took).length = (line elapsedMs speaker text).length ∧ a.flushed then
      ⟨none, none, written⟩
    -- A file that cannot be cut takes no more lines.
    else if a.truncated then
      ⟨some (recordingFileError w.file.fileName a.errorString), some true,
        written.put (resized written.content endPos) (some endPos)⟩
    else
      ⟨some (recordingFileError w.file.fileName a.errorString), some false, close written⟩

/-! ### Writing lines of the session -/

/-- What a session keeps of its lines: those the file did not take, and why the first did not. -/
structure Session where
  off : Bool := false
  unwrittenLines : ℕ := 0
  writeError : List Char := []

/-- `RecordingSession::writeLine`: the append that it makes, if any, and what the session keeps of it. -/
def writeLine (elapsedMs : ℤ) (speaker text : QString) (a : Answers) (s : Session) (w : World) :
    Session × Option Appended :=
  if s.off || (simplified text).isEmpty then (s, none)
  else
    match (append elapsedMs speaker text a w).error with
    | none => (s, some (append elapsedMs speaker text a w))
    | some error =>
      ({ s with unwrittenLines := s.unwrittenLines + 1,
                writeError := if s.unwrittenLines = 0 then error else s.writeError },
        some (append elapsedMs speaker text a w))

/-! ## Runs -/

/-- What the log of a recording says. -/
inductive Act
  /-- A cut that was needed came off, or did not. -/
  | truncated (ok : Bool)
  /-- An append of a line ended. -/
  | answered (line : List UInt8) (ok : Bool)
  deriving DecidableEq

structure Recording where
  world : World
  session : Session := {}
  log : List Act := []

inductive Event
  | append (elapsedMs : ℤ) (speaker text : QString) (a : Answers)
  | writeLine (elapsedMs : ℤ) (speaker text : QString) (a : Answers)
  | close
  /-- Other programs change what is not the recording's. -/
  | others (disk : Disk)

/-- What the log gains from an append. -/
def told (line : List UInt8) (out : Appended) : List Act :=
  out.truncated.toList.map .truncated ++ [.answered line out.error.isNone]

def step (r : Recording) : Event → Option Recording
  | .append elapsedMs speaker text a =>
    let out := append elapsedMs speaker text a r.world
    some { r with world := out.world, log := r.log ++ told (line elapsedMs speaker text) out }
  | .writeLine elapsedMs speaker text a =>
    match writeLine elapsedMs speaker text a r.session r.world with
    | (session, none) => some { r with session := session }
    | (session, some out) =>
      some { world := out.world, session := session, log := r.log ++ told (line elapsedMs speaker text) out }
  | .close => some { r with world := close r.world }
  | .others disk =>
    if disk r.world.file.fileName = r.world.disk r.world.file.fileName then
      some { r with world := { r.world with disk := disk } }
    else none

/-- The lines whose append succeeded. -/
def linesTaken (log : List Act) : List (List UInt8) :=
  log.filterMap fun
    | .answered line true => some line
    | _ => none

/-! ## What an append does -/

variable {w : World} {content : List UInt8}

theorem writtenAt_end (content bytes : List UInt8) :
    writtenAt content content.length bytes = content ++ bytes := by
  rw [writtenAt, List.take_length, Nat.sub_self, List.replicate_zero, List.append_nil,
    List.drop_of_length_le (Nat.le_add_right ..), List.append_nil]

theorem resized_append (content part : List UInt8) : resized (content ++ part) content.length = content := by
  rw [resized, List.take_left', List.length_append, Nat.sub_eq_zero_of_le (Nat.le_add_right ..), List.replicate_zero,
    List.append_nil]
  rfl

@[simp] theorem disk_put (content : List UInt8) (pos : Option ℕ) (w : World) :
    (w.put content pos).disk w.file.fileName = some content := Function.update_self ..

@[simp] theorem content_put (content : List UInt8) (pos : Option ℕ) (w : World) :
    (w.put content pos).content = content := congrArg (·.getD []) (disk_put content pos w)

@[simp] theorem put_put (content content' : List UInt8) (pos pos' : Option ℕ) (w : World) :
    (w.put content pos).put content' pos' = w.put content' pos' := by
  rw [World.put, World.put, World.put, Function.update_idem]

/-- What the file holds in the middle of an append: its lines and a beginning of this one. -/
theorem write_atEnd (w : World) (bytes : List UInt8) (a : Answers) :
    write bytes w.content.length a w =
      w.put (w.content ++ bytes.take a.took) (some (w.content.length + (bytes.take a.took).length)) := by
  rw [write, writtenAt_end]

theorem append_open {endPos : ℕ} (hpos : w.file.pos = some endPos) (elapsedMs : ℤ) (speaker text : QString)
    (a : Answers) :
    append elapsedMs speaker text a w =
      if ((line elapsedMs speaker text).take a.took).length = (line elapsedMs speaker text).length ∧ a.flushed then
        ⟨none, none, write (line elapsedMs speaker text) endPos a w⟩
      else if a.truncated then
        ⟨some (recordingFileError w.file.fileName a.errorString), some true,
          (write (line elapsedMs speaker text) endPos a w).put
            (resized (write (line elapsedMs speaker text) endPos a w).content endPos) (some endPos)⟩
      else
        ⟨some (recordingFileError w.file.fileName a.errorString), some false,
          close (write (line elapsedMs speaker text) endPos a w)⟩ := by
  rw [append, hpos]

/-- **An append at the end of a file** puts its line there, leaves the file as it was, or leaves it closed with a
beginning of the line. -/
theorem append_cases (hpos : w.file.pos = some w.content.length) (elapsedMs : ℤ) (speaker text : QString)
    (a : Answers) :
    (append elapsedMs speaker text a w = ⟨none, none, w.put (w.content ++ line elapsedMs speaker text)
      (some (w.content ++ line elapsedMs speaker text).length)⟩) ∨
    (∃ e, append elapsedMs speaker text a w = ⟨some e, some true, w.put w.content (some w.content.length)⟩) ∨
    ∃ e part, part <+: line elapsedMs speaker text ∧
      append elapsedMs speaker text a w = ⟨some e, some false, w.put (w.content ++ part) none⟩ := by
  have hwrite := write_atEnd w (line elapsedMs speaker text) a
  by_cases htook : ((line elapsedMs speaker text).take a.took).length = (line elapsedMs speaker text).length ∧
      a.flushed = true
  · have hwhole : (line elapsedMs speaker text).take a.took = line elapsedMs speaker text :=
      (List.take_prefix ..).eq_of_length htook.1
    refine .inl ?_
    rw [append_open hpos, if_pos htook, hwrite, hwhole, List.length_append]
  · by_cases hcut : a.truncated = true
    · refine .inr (.inl ⟨recordingFileError w.file.fileName a.errorString, ?_⟩)
      rw [append_open hpos, if_neg htook, if_pos hcut, hwrite, content_put, put_put, resized_append]
    · refine .inr (.inr ⟨recordingFileError w.file.fileName a.errorString, _,
        List.take_prefix a.took (line elapsedMs speaker text), ?_⟩)
      rw [append_open hpos, if_neg htook, if_neg hcut, hwrite]
      rfl

/-- A closed file takes nothing. -/
theorem append_closed (hpos : w.file.pos = none) (elapsedMs : ℤ) (speaker text : QString) (a : Answers) :
    ∃ e, append elapsedMs speaker text a w = ⟨some e, none, w⟩ := by
  rw [append, hpos]
  exact ⟨_, rfl⟩

/-! ## What a run keeps -/

@[simp] theorem linesTaken_append (log acts : List Act) :
    linesTaken (log ++ acts) = linesTaken log ++ linesTaken acts := List.filterMap_append

/-- No line was taken after a cut that failed. -/
def NoneAfter (before : List Act) (act : Act) : Prop := (∃ line, act = .answered line true) → .truncated false ∉ before

/-- The file under a name is the recording's lines, and part of one more only after a cut that failed. -/
structure Whole (name : Path) (r : Recording) : Prop where
  named : r.world.file.fileName = name
  held : ∃ part, r.world.disk name = some ((linesTaken r.log).flatten ++ part) ∧
    (part ≠ [] → ∃ line, [.truncated false, .answered line false] <:+: r.log ∧ part <+: line)
  /-- An open file is written at its end, and was cut wherever it had to be. -/
  position : ∀ pos, r.world.file.pos = some pos →
    .truncated false ∉ r.log ∧ r.world.disk name = some (linesTaken r.log).flatten ∧
      pos = (linesTaken r.log).flatten.length
  order : Each NoneAfter r.log

variable {name : Path} {r : Recording}

theorem Whole.atEnd (h : Whole name r) {pos : ℕ} (hpos : r.world.file.pos = some pos) :
    r.world.content = (linesTaken r.log).flatten ∧ r.world.file.pos = some r.world.content.length := by
  obtain ⟨-, hdisk, hend⟩ := h.position pos hpos
  have hcontent : r.world.content = (linesTaken r.log).flatten := by
    rw [World.content, h.named, hdisk, Option.getD_some]
  exact ⟨hcontent, by rw [hpos, hend, hcontent]⟩

theorem flatten_taken (log : List Act) (bytes : List UInt8) :
    (linesTaken (log ++ [.answered bytes true])).flatten = (linesTaken log).flatten ++ bytes := by
  rw [linesTaken_append, List.flatten_append]
  exact congrArg (_ ++ ·) (List.append_nil bytes)

/-- A line was taken whole. -/
theorem Whole.taken (h : Whole name r) (hnone : .truncated false ∉ r.log) (bytes : List UInt8) (session : Session) :
    Whole name ⟨r.world.put ((linesTaken r.log).flatten ++ bytes) (some ((linesTaken r.log).flatten ++ bytes).length),
      session, r.log ++ [.answered bytes true]⟩ := by
  have hheld : (r.world.put ((linesTaken r.log).flatten ++ bytes)
      (some ((linesTaken r.log).flatten ++ bytes).length)).disk name =
        some (linesTaken (r.log ++ [.answered bytes true])).flatten := by
    rw [← h.named, disk_put, flatten_taken]
  refine ⟨h.named, ⟨[], by rw [List.append_nil]; exact hheld, fun hne => absurd rfl hne⟩, fun pos hpos => ?_,
    h.order.snoc fun _ => hnone⟩
  refine ⟨by simp [hnone], hheld, ?_⟩
  rw [flatten_taken]
  exact (Option.some.inj hpos).symm

theorem linesTaken_failed (log : List Act) {acts : List Act} (hacts : ∀ line, .answered line true ∉ acts) :
    linesTaken (log ++ acts) = linesTaken log := by
  have hnil : linesTaken acts = [] := by
    refine List.filterMap_eq_nil_iff.mpr fun act hact => ?_
    match act, hact with
    | .truncated ok, _ => rfl
    | .answered line false, _ => rfl
    | .answered line true, hact => exact absurd hact (hacts line)
  rw [linesTaken_append, hnil, List.append_nil]

theorem order_failed (h : Each NoneAfter r.log) {acts : List Act} (hacts : ∀ line, .answered line true ∉ acts) :
    Each NoneAfter (r.log ++ acts) :=
  h.append fun before a after heq => by
    rintro ⟨line, rfl⟩
    exact absurd (heq ▸ List.mem_append_right before List.mem_cons_self) (hacts line)

/-- A line was not taken, and the file is as it was. -/
theorem Whole.refused (h : Whole name r) (acts : List Act) (hacts : ∀ line, .answered line true ∉ acts)
    (hcut : .truncated false ∉ acts) {w : World} (hfile : w.file = r.world.file)
    (hdisk : w.disk name = r.world.disk name) (session : Session) : Whole name ⟨w, session, r.log ++ acts⟩ := by
  refine ⟨hfile ▸ h.named, ?_, fun pos hpos => ?_, order_failed h.order hacts⟩
  · obtain ⟨part, hpart, hpartial⟩ := h.held
    refine ⟨part, by rw [linesTaken_failed r.log hacts]; exact hdisk.trans hpart, fun hne => ?_⟩
    obtain ⟨other, hwithin, hother⟩ := hpartial hne
    exact ⟨other, hwithin.trans (List.prefix_append ..).isInfix, hother⟩
  · obtain ⟨hnone, hheld, hend⟩ := h.position pos (hfile ▸ hpos)
    rw [linesTaken_failed r.log hacts]
    exact ⟨by simp [hnone, hcut], hdisk.trans hheld, hend⟩

/-- A line was not taken, and what went in could not be cut off. -/
theorem Whole.stuck (h : Whole name r) {bytes part : List UInt8} (hpart : part <+: bytes) (session : Session) :
    Whole name ⟨r.world.put ((linesTaken r.log).flatten ++ part) none, session,
      r.log ++ [.truncated false, .answered bytes false]⟩ := by
  have hacts : ∀ line, Act.answered line true ∉ ([.truncated false, .answered bytes false] : List Act) := by simp
  refine ⟨h.named, ⟨part, ?_, fun _ => ⟨bytes, (List.suffix_append ..).isInfix, hpart⟩⟩, fun pos hpos => ?_,
    order_failed h.order hacts⟩
  · rw [linesTaken_failed r.log hacts, ← h.named, disk_put]
  · exact absurd hpos (Option.some_ne_none pos).symm

/-- **An append keeps it.** -/
theorem Whole.append (h : Whole name r) (elapsedMs : ℤ) (speaker text : QString) (a : Answers) (session : Session) :
    Whole name ⟨(append elapsedMs speaker text a r.world).world, session,
      r.log ++ told (line elapsedMs speaker text) (append elapsedMs speaker text a r.world)⟩ := by
  rcases hpos : r.world.file.pos with _ | pos
  · obtain ⟨e, hout⟩ := append_closed hpos elapsedMs speaker text a
    rw [hout]
    exact h.refused _ (by simp [told]) (by simp [told]) rfl rfl session
  · obtain ⟨hcontent, hend⟩ := h.atEnd hpos
    obtain ⟨hnone, hdisk, -⟩ := h.position pos hpos
    rcases append_cases hend elapsedMs speaker text a with hout | ⟨e, hout⟩ | ⟨e, part, hpart, hout⟩ <;>
      rw [hout, hcontent]
    · exact h.taken hnone _ session
    · refine h.refused _ (by simp [told]) (by simp [told]) ?_ ?_ session
      · rw [← hcontent, World.put, ← hend]
      · rw [hdisk, ← h.named, disk_put]
    · exact h.stuck hpart session

/-- A session's line is an append, or none. -/
theorem writeLine_cases (elapsedMs : ℤ) (speaker text : QString) (a : Answers) (s : Session) (w : World) :
    writeLine elapsedMs speaker text a s w = (s, none) ∨
      ∃ session, writeLine elapsedMs speaker text a s w = (session, some (append elapsedMs speaker text a w)) := by
  rw [writeLine]
  split_ifs
  · exact .inl rfl
  · cases (append elapsedMs speaker text a w).error with
    | none => exact .inr ⟨_, rfl⟩
    | some error => exact .inr ⟨_, rfl⟩
  · cases (append elapsedMs speaker text a w).error with
    | none => exact .inr ⟨_, rfl⟩
    | some error => exact .inr ⟨_, rfl⟩

/-- **Every event keeps it.** -/
theorem Whole.step {r' : Recording} {e : Event} (h : Whole name r) (hstep : step r e = some r') : Whole name r' := by
  cases e with
  | append elapsedMs speaker text a =>
    cases Option.some.inj hstep
    exact h.append elapsedMs speaker text a r.session
  | writeLine elapsedMs speaker text a =>
    rw [RecordingTranscript.step] at hstep
    rcases writeLine_cases elapsedMs speaker text a r.session r.world with hnone | ⟨session, hsome⟩
    · rw [hnone] at hstep
      cases Option.some.inj hstep
      exact h
    · rw [hsome] at hstep
      cases Option.some.inj hstep
      exact h.append elapsedMs speaker text a session
  | close =>
    cases Option.some.inj hstep
    exact ⟨h.named, h.held, fun pos hpos => absurd hpos (Option.some_ne_none pos).symm, h.order⟩
  | others disk =>
    rw [RecordingTranscript.step] at hstep
    split_ifs at hstep with hsame
    cases Option.some.inj hstep
    have hkept := h.refused [] (by simp) (by simp) (w := { r.world with disk := disk }) rfl
      (by rwa [h.named] at hsame) r.session
    rwa [List.append_nil] at hkept

/-! ## The file is the recording's own -/

/-- **What is opened was not there before**, and the other files stay as they are. -/
theorem tryNames_opened {path : Path} {out : Created} : ∀ {tries : List Try} {copy : ℕ},
    tryNames path copy tries = some out → out.error = none →
      ∃ t ∈ tries, t.disk out.world.file.fileName = none ∧ out.world.file.pos = some 0 ∧
        out.world.disk = Function.update t.disk out.world.file.fileName (some [])
  | [], _, h, _ => by cases h
  | t :: tries, copy, h, herror => by
    rw [tryNames] at h
    split_ifs at h with hopened hgone
    · cases Option.some.inj h
      exact ⟨t, List.mem_cons_self, hopened.1, rfl, rfl⟩
    · cases Option.some.inj h
      cases herror
    · obtain ⟨found, hfound, hrest⟩ := tryNames_opened h herror
      exact ⟨found, List.mem_cons_of_mem t hfound, hrest⟩

theorem create_opened {path absolutePath : Path} {folderMade : Bool} {tries : List Try} {w : World} {out : Created}
    (h : create path absolutePath folderMade tries w = some out) (herror : out.error = none) :
    ∃ t ∈ tries, t.disk out.world.file.fileName = none ∧ out.world.file.pos = some 0 ∧
      out.world.disk = Function.update t.disk out.world.file.fileName (some []) := by
  rw [create] at h
  split_ifs at h
  · exact tryNames_opened h herror
  · cases Option.some.inj h
    cases herror

/-- A file just created holds no line yet. -/
theorem whole_created {w : World} (hdisk : w.disk w.file.fileName = some []) (hpos : w.file.pos = some 0)
    (session : Session) : Whole w.file.fileName ⟨w, session, []⟩ where
  named := rfl
  held := ⟨[], hdisk, fun hne => absurd rfl hne⟩
  position _ h := ⟨List.not_mem_nil, hdisk, Option.some.inj (h.symm.trans hpos)⟩
  order := Each.nil

/-- The log tells of lines only. -/
def Lines (log : List Act) : Prop :=
  ∀ bytes ok, .answered bytes ok ∈ log → ∃ elapsedMs speaker text, bytes = line elapsedMs speaker text

theorem Lines.told {log : List Act} (h : Lines log) (elapsedMs : ℤ) (speaker text : QString) (out : Appended) :
    Lines (log ++ told (line elapsedMs speaker text) out) := by
  intro bytes ok hmem
  rcases List.mem_append.mp hmem with hmem | hmem
  · exact h bytes ok hmem
  · refine ⟨elapsedMs, speaker, text, ?_⟩
    rcases List.mem_append.mp hmem with hcut | hmem
    · obtain ⟨cut, -, hne⟩ := List.mem_map.mp hcut
      cases hne
    · exact (Act.answered.inj (List.mem_singleton.mp hmem)).1

theorem Lines.step {r' : Recording} {e : Event} (h : Lines r.log) (hstep : step r e = some r') : Lines r'.log := by
  cases e with
  | append elapsedMs speaker text a =>
    cases Option.some.inj hstep
    exact h.told elapsedMs speaker text _
  | writeLine elapsedMs speaker text a =>
    rw [RecordingTranscript.step] at hstep
    rcases writeLine_cases elapsedMs speaker text a r.session r.world with hnone | ⟨session, hsome⟩
    · rw [hnone] at hstep
      cases Option.some.inj hstep
      exact h
    · rw [hsome] at hstep
      cases Option.some.inj hstep
      exact h.told elapsedMs speaker text _
  | close =>
    cases Option.some.inj hstep
    exact h
  | others disk =>
    rw [RecordingTranscript.step] at hstep
    split_ifs at hstep
    cases Option.some.inj hstep
    exact h

theorem mem_of_linesTaken {log : List Act} {bytes : List UInt8} (h : bytes ∈ linesTaken log) :
    .answered bytes true ∈ log := by
  obtain ⟨act, hact, heq⟩ := List.mem_filterMap.mp h
  match act, hact, heq with
  | .answered line true, hact, heq => exact Option.some.inj heq ▸ hact

/-- Neither speaker's name has a line break. -/
theorem speaker_break :
    ∀ unit ∈ recordingMicrophoneSpeaker ++ recordingSystemAudioSpeaker, isLineBreak unit = false := by
  rw [recordingMicrophoneSpeaker, recordingSystemAudioSpeaker, ← utf16Units_append]
  refine ascii_break fun c hc => ?_
  simp only [List.cons_append, List.nil_append, List.mem_cons, List.not_mem_nil, or_false] at hc
  rcases hc with rfl | rfl | rfl | rfl | rfl | rfl <;> decide

/-- **A recording's file holds whole lines only.** The file that `create` opens was not there before. After any run of
appends, whatever the system answers and whatever others do to other files, it is the lines whose append succeeded, one
after the other, but for a beginning of a line whose cut failed, and no append succeeds after that. While an append is
under way, a beginning of its line follows them. Each of those lines has one line break, at its end, where its speaker
has none, and neither of the speakers of a recording has one. -/
theorem transcript_holds_whole_lines {path absolutePath : Path} {folderMade : Bool} {tries : List Try} {w : World}
    {out : Created} {session : Session} {r : Recording}
    (hcreate : create path absolutePath folderMade tries w = some out) (hopened : out.error = none)
    (hrun : Reaches step (fun _ _ => True) ⟨out.world, session, []⟩ r) :
    (∃ t ∈ tries, t.disk out.world.file.fileName = none ∧
      out.world.disk = Function.update t.disk out.world.file.fileName (some [])) ∧
    (∃ part, r.world.disk out.world.file.fileName = some ((linesTaken r.log).flatten ++ part) ∧
      (part ≠ [] → ∃ line, [.truncated false, .answered line false] <:+: r.log ∧ part <+: line)) ∧
    (∀ before line after, r.log = before ++ .answered line true :: after → .truncated false ∉ before) ∧
    (∀ bytes pos a, r.world.file.pos = some pos → (write bytes pos a r.world).disk out.world.file.fileName =
      some ((linesTaken r.log).flatten ++ bytes.take a.took)) ∧
    (∀ bytes ∈ linesTaken r.log, ∃ elapsedMs speaker text, bytes = toUtf8 (lineText elapsedMs speaker text) ∧
      ((∀ unit ∈ speaker, isLineBreak unit = false) →
        (∃ front, lineText elapsedMs speaker text = front ++ [0x0a] ∧ ∀ unit ∈ front, isLineBreak unit = false) ∧
        ∃ front, bytes = front ++ [10] ∧ 10 ∉ front)) ∧
    ∀ unit ∈ recordingMicrophoneSpeaker ++ recordingSystemAudioSpeaker, isLineBreak unit = false := by
  obtain ⟨t, ht, hfree, hpos, hdisk⟩ := create_opened hcreate hopened
  have hempty : out.world.disk out.world.file.fileName = some [] := by
    rw [hdisk, Function.update_self]
  have hwhole : Whole out.world.file.fileName r :=
    hrun.invariant (whole_created hempty hpos session) fun s e s' _ hs hstep => hs.step hstep
  have hlines : Lines r.log :=
    hrun.invariant (P := fun s => Lines s.log) (fun _ _ hmem => absurd hmem List.not_mem_nil)
      fun s e s' _ hs hstep => hs.step hstep
  refine ⟨⟨t, ht, hfree, hdisk⟩, hwhole.held, fun before line after heq => ?_, fun bytes pos a hopen => ?_,
    fun bytes hbytes => ?_, speaker_break⟩
  · exact hwhole.order before (.answered line true) after heq ⟨line, rfl⟩
  · obtain ⟨hcontent, hend⟩ := hwhole.atEnd hopen
    rw [Option.some.inj (hopen.symm.trans hend), write_atEnd, ← hwhole.named, disk_put, hcontent]
  · obtain ⟨elapsedMs, speaker, text, hline⟩ := hlines bytes true (mem_of_linesTaken hbytes)
    rw [hline]
    exact ⟨elapsedMs, speaker, text, rfl, fun hspeaker =>
      ⟨lineText_break elapsedMs hspeaker text, line_break elapsedMs hspeaker text⟩⟩

/-- A recording whose first line is taken in part and cannot be cut off. -/
theorem torn_transcript_holds_whole_lines :
    ∃ out r, create ['a'] [] true [{ disk := fun _ => none, after := fun _ => none }] { disk := fun _ => none } =
        some out ∧
      Reaches step (fun _ _ => True) ⟨out.world, {}, []⟩ r ∧ .truncated false ∈ r.log ∧
      ∃ part, r.world.disk out.world.file.fileName = some ((linesTaken r.log).flatten ++ part) ∧
        (part ≠ [] → ∃ line, [.truncated false, .answered line false] <:+: r.log ∧ part <+: line) := by
  refine ⟨_, _, rfl, .next (.append 0 recordingMicrophoneSpeaker [0x68, 0x69] { took := 3, truncated := false })
    .start trivial rfl, by decide, (transcript_holds_whole_lines
      (rfl : create ['a'] [] true [{ disk := fun _ => none, after := fun _ => none }] { disk := fun _ => none } =
        some _) rfl (.next (.append 0 recordingMicrophoneSpeaker [0x68, 0x69] { took := 3, truncated := false })
        .start trivial rfl)).2.1⟩

end Speecher.RecordingTranscript
