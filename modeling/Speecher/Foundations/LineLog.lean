import Mathlib.Data.List.Basic
import Mathlib.Tactic.Common

/-!
# Logs of lines

A file of one record a line, which grows at its end and is read line by line, the lines that do not read skipped. A
`LineReader` is a way to split a file into its lines of which two things are known: what comes after a line break is
read apart from what comes before, and a line break at the end adds no line. Where the last line was cut off,
`appended` puts the new one on a line of its own.

* **`records_appended`**: what is appended comes after the records that were there, whatever the file holds.
-/

namespace Speecher

structure LineReader (α β : Type) where
  newline : α
  lines : List α → List β
  lines_nil : lines [] = []
  /-- What comes after a line break is read apart. -/
  lines_after : ∀ front more, lines (front ++ newline :: more) = lines (front ++ [newline]) ++ lines more
  /-- A line break at the end adds no line. -/
  lines_ended : ∀ front, lines (front ++ [newline]) = lines front

namespace LineReader

variable {α β γ : Type} (r : LineReader α β) [DecidableEq α]

/-- The line break that a last line lacks. -/
def mending (newline : α) (file : List α) : List α :=
  if file ≠ [] ∧ file.getLast? ≠ some newline then [newline] else []

/-- A file with a line after what it holds. -/
def appended (newline : α) (file line : List α) : List α := file ++ (mending newline file ++ line)

theorem lines_appended (file line : List α) :
    r.lines (appended r.newline file line) = r.lines file ++ r.lines line := by
  rw [appended, mending]
  split_ifs with hcut
  · rw [List.singleton_append, r.lines_after, r.lines_ended]
  · rw [List.nil_append]
    rcases file.eq_nil_or_concat' with rfl | ⟨front, last, rfl⟩
    · rw [r.lines_nil, List.nil_append, List.nil_append]
    · have hlast : last = r.newline := by
        by_contra hne
        refine hcut ⟨List.concat_ne_nil last front, fun h => hne ?_⟩
        rw [List.getLast?_concat] at h
        exact Option.some.inj h
      rw [hlast, List.append_assoc, List.singleton_append, r.lines_after]

/-- **A record appended comes after the ones that were there**, and none of them is lost. -/
theorem records_appended (decode : β → Option γ) (file line : List α) :
    (r.lines (appended r.newline file line)).filterMap decode =
      (r.lines file).filterMap decode ++ (r.lines line).filterMap decode := by
  rw [lines_appended, List.filterMap_append]

end LineReader

end Speecher
