import Mathlib.Algebra.Ring.Nat
import Speecher.Bindings.Words

/-!
# A selection edit as its review shows it

`selectionEditReview` compares a selection with its revision word by word. `diff` cuts off the head and the tail that
both have, fills a table of what the stretches between share, walks it, and gathers equal steps into runs; a long
review is then folded around its changes (`fold`).

Where a text's words end is the platform's to say (`WordBoundaries`), and so is which characters are letters or
numbers and which are of a script that is written without spaces.
-/

namespace Speecher

namespace SelectionEdit

/-- `QTextBoundaryFinder` cutting a text into words. -/
structure WordBoundaries where
  pieces : Text → List Text
  flatten_pieces : ∀ text, (pieces text).flatten = text

inductive Kind
  | kept
  | removed
  | added
  | omitted
  deriving DecidableEq

/-- One stretch of a selection edit as the review shows it. -/
structure EditRun where
  kind : Kind
  text : Text
  trailing : Text := []
  deriving DecidableEq

def kFoldAboveWords : ℕ := 40
def kFoldContextWords : ℕ := 6
def kFoldMinimumWords : ℕ := 3
def kMaxDiffCells : ℕ := 4000000

/-! ## Words -/

/-- The words so far and the spaces before the first, with one more piece of the text. -/
def addPiece (read : List Text × Text) (piece : Text) : List Text × Text :=
  if trimmed piece ≠ [] then (read.1 ++ [read.2 ++ piece], [])
  else if read.1 = [] then (read.1, read.2 ++ piece)
  else (read.1.dropLast ++ [read.1.getLastD [] ++ piece], read.2)

/-- The text cut into words, each with the spaces after it, and spaces before the first word with that word. -/
def words (B : WordBoundaries) (text : Text) : List Text :=
  let read := (B.pieces text).foldl addPiece ([], [])
  if read.2 ≠ [] then read.1 ++ [read.2] else read.1

def comparable (words : List Text) : List Text := words.map trimmed

/-- Words proper, not punctuation. -/
def countWords (u : Unicode) (words : List Text) : ℕ := words.countP fun word => word.any u.isLetterOrNumber

/-! ## The comparison -/

/-- How many of their first words two lists share. -/
def sharedHead : List Text → List Text → ℕ
  | x :: xs, y :: ys => if x = y then sharedHead xs ys + 1 else 0
  | _, _ => 0

/-- `quint16` of a count. -/
def quint16 (n : ℕ) : ℕ := n % 2 ^ 16

/-- The table of `shared(i, j)`. -/
abbrev Table := ℕ → ℕ → ℕ

/-- One row of the table, from the cell before `j` to the first. -/
def fillRow (beforeKeys afterKeys : List Text) (i : ℕ) : ℕ → Table → Table
  | 0, shared => shared
  | j + 1, shared => fillRow beforeKeys afterKeys i j
    (Function.update shared i (Function.update (shared i) j
      (if beforeKeys[i]? = afterKeys[j]? then quint16 (shared (i + 1) (j + 1) + 1)
      else max (shared (i + 1) j) (shared i (j + 1)))))

/-- The table's rows, from the one before `i` to the first. -/
def fillTable (beforeKeys afterKeys : List Text) : ℕ → Table → Table
  | 0, shared => shared
  | i + 1, shared => fillTable beforeKeys afterKeys i (fillRow beforeKeys afterKeys i afterKeys.length shared)

/-- The walk through the table from a cell, over the words from there on. -/
def walk (shared : Table) : ℕ → ℕ → List Text → List Text → List (Kind × Text)
  | _, _, [], [] => []
  | i, j, word :: before, [] => (.removed, word) :: walk shared (i + 1) j before []
  | i, j, [], word :: after => (.added, word) :: walk shared i (j + 1) [] after
  | i, j, x :: before, y :: after =>
    if trimmed x = trimmed y then (.kept, y) :: walk shared (i + 1) (j + 1) before after
    else if shared (i + 1) j ≥ shared i (j + 1) then (.removed, x) :: walk shared (i + 1) j before (y :: after)
    else (.added, y) :: walk shared i (j + 1) (x :: before) after
termination_by _ _ before after => before.length + after.length

/-- How many of the first words two lists share, and how many of the last ones behind those. -/
def sharedEnds (beforeKeys afterKeys : List Text) : ℕ × ℕ :=
  let head := sharedHead beforeKeys afterKeys
  (head, sharedHead (beforeKeys.drop head).reverse (afterKeys.drop head).reverse)

/-- The stretch of a list between its ends. -/
def stretch (ends : ℕ × ℕ) (words : List Text) : List Text :=
  (words.drop ends.1).take (words.length - ends.1 - ends.2)

/-- The comparison's table for the stretches between the ends. -/
def diffTable (before after : List Text) : Table :=
  fillTable (comparable before) (comparable after) before.length fun _ _ => 0

/-- The words the review shows, one by one; nothing when the stretch between is too long to compare. -/
def diffSteps (before after : List Text) : Option (List (Kind × Text)) :=
  let ends := sharedEnds (comparable before) (comparable after)
  let between := stretch ends before
  let revised := stretch ends after
  if (between.length + 1) * (revised.length + 1) > kMaxDiffCells then none
  else
    some ((after.take ends.1).map (.kept, ·) ++ walk (diffTable between revised) 0 0 between revised ++
      (after.drop (after.length - ends.2)).map (.kept, ·))

/-- A word added to the runs. -/
def add (runs : List EditRun) (step : Kind × Text) : List EditRun :=
  match runs.getLast? with
  | some last =>
    if last.kind = step.1 then runs.dropLast ++ [{ last with text := last.text ++ step.2 }]
    else runs ++ [⟨step.1, step.2, []⟩]
  | none => [⟨step.1, step.2, []⟩]

/-- The longest run of words both share, Removed before Added where a stretch changed. -/
def diff (before after : List Text) : Option (List EditRun) := (diffSteps before after).map (·.foldl add [])

/-! ## The review -/

/-- What the platform knows of a character. -/
structure Scripts extends Unicode where
  writtenWithoutSpaces : Char → Bool

variable (B : WordBoundaries) (u : Scripts)

def writtenWithSpaces (c : Char) : Bool := !u.writtenWithoutSpaces c && u.isLetterOrNumber c

/-- A run's own part in setting the marks apart, before the run behind it. -/
def separateMark (run : EditRun) (next : Option EditRun) : EditRun :=
  let text := run.text.rdropWhile isSpace
  let trailing := run.text.drop text.length
  let replaced := next.any (·.kind = .added)
  { run with
    text
    trailing := if run.kind = .removed && replaced && trailing.isEmpty && text.getLast?.any (writtenWithSpaces u)
      then [' '] else trailing }

/-- A kept run gets a space where the next one is removed and would touch it. -/
def spacedBefore (run : EditRun) (next : Option EditRun) : EditRun :=
  if next.any (fun next => next.kind = .removed && next.text.head?.any (writtenWithSpaces u)) &&
      run.text.getLast?.any (fun c => !isSpace c) then
    { run with text := run.text ++ [' '] }
  else run

/-- A changed run's closing spaces leave its mark, and a removed word gets a space from a word it would touch. -/
def separateMarks : List EditRun → List EditRun
  | [] => []
  | run :: runs =>
    spacedBefore u (if run.kind = .kept then run else separateMark u run runs.head?) runs.head? :: separateMarks runs

def changeCount (runs : List EditRun) : ℕ :=
  runs.zipIdx.countP fun (run, index) => run.kind ≠ .kept &&
    (index = 0 || (runs[index - 1]?).any (·.kind = .kept))

def keptWords (runs : List EditRun) : ℕ :=
  ((runs.filter (·.kind = .kept)).map fun run => countWords u.toUnicode (words B run.text)).sum

/-- What a folded review shows of a run, the `index`th of `size`. -/
def foldRun (size : ℕ) (run : EditRun) (index : ℕ) : List EditRun :=
  let runWords := words B run.text
  let head := if index = 0 then 0 else kFoldContextWords
  let tail := if index = size - 1 then 0 else kFoldContextWords
  if run.kind ≠ .kept || runWords.length < head + tail + kFoldMinimumWords then [run]
  else
    (if head > 0 then [⟨.kept, (runWords.take head).flatten, []⟩] else []) ++ [⟨.omitted, "…".toList, [' ']⟩] ++
      (if tail > 0 then [⟨.kept, (runWords.drop (runWords.length - tail)).flatten, []⟩] else [])

def fold (runs : List EditRun) : List EditRun :=
  if (runs.map fun run => countWords u.toUnicode (words B run.text)).sum ≤ kFoldAboveWords then []
  else
    let folded := runs.zipIdx.flatMap fun (run, index) => foldRun B runs.length run index
    if folded = runs then [] else folded

def changesSummary (changes : ℕ) : Text :=
  if changes = 1 then "1 change".toList else (toString changes).toList ++ " changes".toList

/-- A selection edit waiting for Replace or Keep original. -/
structure SelectionEditReview where
  runs : List EditRun
  folded : List EditRun
  summary : Text

def selectionEditReview (original revised : Text) : SelectionEditReview :=
  let before := words B original
  let after := words B revised
  let whole := [⟨.kept, revised, []⟩]
  let longerWords := max (countWords u.toUnicode before) (countWords u.toUnicode after)
  match diff before after with
  | none => ⟨whole, [], "Rewritten".toList⟩
  | some runs =>
    if changeCount runs = 0 then
      ⟨whole, [], if original = revised then "No changes".toList else "Spacing changes only".toList⟩
    -- `kRewriteKeptShare` is one half.
    else if 2 * keptWords B u runs < longerWords then ⟨whole, [], "Rewritten".toList⟩
    else
      let marked := separateMarks u runs
      ⟨marked, fold B u marked, changesSummary (changeCount runs)⟩

end SelectionEdit

end Speecher
