import Mathlib.Algebra.Ring.Nat
import Mathlib.Data.List.Basic
import Mathlib.Tactic.Common

/-!
# Blocks of lines, and numbers in digits

A text in blocks of lines, with a blank line between one block and the next: `blocksText` writes it and `readBlocks`
reads it back (`readBlocks_blocksText`), as long as no line is blank. `paddedDigits` writes a number in a number of
digits and `readDigits` reads it back (`readDigits_paddedDigits`).
-/

namespace Speecher

section Intercalate

variable {α : Type*}

theorem intercalate_append {separator : List α} : ∀ {lines lines' : List (List α)}, lines ≠ [] → lines' ≠ [] →
    separator.intercalate (lines ++ lines') =
      separator.intercalate lines ++ separator ++ separator.intercalate lines'
  | [], _, h, _ => absurd rfl h
  | [line], lines', _, h' => by
    rw [List.singleton_append, List.intercalate_cons_of_ne_nil h', List.intercalate_singleton]
  | line :: next :: lines, lines', _, h' => by
    have ih : separator.intercalate (next :: lines ++ lines') = _ :=
      intercalate_append (List.cons_ne_nil next lines) h'
    rw [List.cons_append, List.cons_append, List.intercalate_cons_cons, ← List.cons_append, ih,
      List.intercalate_cons_cons]
    simp only [List.append_assoc]

theorem flatMap_intercalate {β : Type*} (f : α → List β) (separator : List α) (lines : List (List α)) :
    (separator.intercalate lines).flatMap f = (separator.flatMap f).intercalate (lines.map (·.flatMap f)) := by
  induction lines with
  | nil => rfl
  | cons line lines ih =>
    cases lines with
    | nil => simp
    | cons next lines =>
      rw [List.intercalate_cons_cons, List.flatMap_append, List.flatMap_append, ih]
      exact List.intercalate_cons_cons.symm

theorem intercalate_ne_nil {separator line : List α} (h : line ≠ []) (lines : List (List α)) :
    separator.intercalate (line :: lines) ≠ [] := by
  cases lines with
  | nil => rwa [List.intercalate_singleton]
  | cons next lines => simp [List.intercalate_cons_cons, h]

theorem mem_of_mem_intercalate {separator : List α} {x : α} : ∀ {lines : List (List α)},
    x ∈ separator.intercalate lines → x ∈ separator ∨ ∃ line ∈ lines, x ∈ line
  | [], h => absurd h List.not_mem_nil
  | [line], h => .inr ⟨line, List.mem_singleton_self line, by simpa using h⟩
  | line :: next :: lines, h => by
    rw [List.intercalate_cons_cons, List.mem_append, List.mem_append] at h
    rcases h with (h | h) | h
    · exact .inr ⟨line, List.mem_cons_self, h⟩
    · exact .inl h
    · refine (mem_of_mem_intercalate h).imp id fun ⟨found, hfound, hx⟩ => ?_
      exact ⟨found, List.mem_cons_of_mem line hfound, hx⟩

/-- Nothing that a list is split at is left in its pieces. -/
theorem eq_false_of_mem_splitOnP {p : α → Bool} {l piece : List α} (h : piece ∈ l.splitOnP p) :
    ∀ a ∈ piece, p a = false := by
  induction l generalizing piece with
  | nil =>
    rw [List.splitOnP_nil, List.mem_singleton] at h
    simp [h]
  | cons x l ih =>
    rw [List.splitOnP_cons_eq_if_modifyHead] at h
    split_ifs at h with hx
    · rcases List.mem_cons.mp h with rfl | h
      · simp
      · exact ih h
    · obtain ⟨first, rest, hsplit⟩ := List.exists_cons_of_ne_nil (List.splitOnP_ne_nil p l)
      rw [hsplit, List.modifyHead_cons] at h
      rcases List.mem_cons.mp h with rfl | h
      · intro a ha
        rcases List.mem_cons.mp ha with rfl | ha
        · simpa using hx
        · exact ih (hsplit ▸ List.mem_cons_self) a ha
      · exact ih (hsplit ▸ List.mem_cons_of_mem _ h)

/-- Lines that were read from the front of a list are its first pieces. -/
theorem splitOn_lines [BEq α] [LawfulBEq α] {separator : α} {lines : List (List α)}
    (h : ∀ line ∈ lines, separator ∉ line) (rest : List α) :
    (lines.flatMap (· ++ [separator]) ++ rest).splitOn separator = lines ++ rest.splitOn separator := by
  induction lines with
  | nil => rfl
  | cons line lines ih =>
    rw [List.flatMap_cons, List.append_assoc, List.append_assoc, List.singleton_append,
      List.splitOn_append_cons_self_of_not_mem (h line List.mem_cons_self),
      ih fun other hother => h other (List.mem_cons_of_mem line hother), List.cons_append]

theorem infix_intercalate {separator line : List α} : ∀ {lines : List (List α)}, line ∈ lines →
    line <:+: separator.intercalate lines
  | [only], h => by
    have hline : separator.intercalate [only] = line := by
      rw [List.mem_singleton.mp h, List.intercalate_singleton]
    exact hline ▸ List.infix_rfl
  | first :: next :: lines, h => by
    rw [List.intercalate_cons_cons, List.append_assoc]
    rcases List.mem_cons.mp h with rfl | h
    · exact (List.prefix_append ..).isInfix
    · exact (infix_intercalate h).trans ((List.suffix_append ..).trans (List.suffix_append ..)).isInfix

end Intercalate

section Blocks

variable {α : Type*} (newline : α)

/-- The text of blocks of lines. -/
def blocksText (blocks : List (List (List α))) : List α :=
  [newline, newline].intercalate (blocks.map [newline].intercalate)

/-- The blocks of lines of a text. -/
def readBlocks [DecidableEq α] (text : List α) : List (List (List α)) :=
  ((text.splitOn newline).splitOn []).filter (· ≠ [])

/-- A block whose lines can be told apart, and from the blank ones around it. -/
structure IsBlock (block : List (List α)) : Prop where
  ne_nil : block ≠ []
  nil_notMem : [] ∉ block
  newline_notMem : ∀ line ∈ block, newline ∉ line

variable {newline}

/-- The lines of blocks, a blank one between one block and the next. -/
theorem blocksText_eq : ∀ {blocks : List (List (List α))}, (∀ block ∈ blocks, block ≠ []) →
    blocksText newline blocks = [newline].intercalate ([[]].intercalate blocks)
  | [], _ => rfl
  | [block], _ => by simp [blocksText]
  | block :: next :: blocks, h => by
    have ih : blocksText newline (next :: blocks) = _ :=
      blocksText_eq fun b hb => h b (List.mem_cons_of_mem block hb)
    have hrest : [[]].intercalate (next :: blocks) ≠ [] :=
      intercalate_ne_nil (h next (List.mem_cons_of_mem block List.mem_cons_self)) blocks
    rw [blocksText, List.map_cons, List.map_cons, List.intercalate_cons_cons, ← List.map_cons,
      ← blocksText.eq_def newline, ih, List.intercalate_cons_cons,
      intercalate_append (by simp [h block List.mem_cons_self]) hrest,
      intercalate_append (h block List.mem_cons_self) (List.cons_ne_nil _ _), List.intercalate_singleton]
    simp only [List.append_assoc, List.append_nil, List.cons_append, List.nil_append]

/-- **Blocks are read back.** -/
theorem readBlocks_blocksText [DecidableEq α] {blocks : List (List (List α))} (h : ∀ block ∈ blocks, IsBlock newline block) :
    readBlocks newline (blocksText newline blocks) = blocks := by
  by_cases hblocks : blocks = []
  · subst hblocks
    simp [readBlocks, blocksText, List.splitOn_cons_eq_if_modifyHead]
  have hlines : ∀ line ∈ [[]].intercalate blocks, newline ∉ line := by
    intro line hline
    rcases mem_of_mem_intercalate hline with hblank | ⟨block, hblock, hmem⟩
    · rw [List.mem_singleton.mp hblank]
      exact List.not_mem_nil
    · exact (h block hblock).newline_notMem line hmem
  have hne : [[]].intercalate blocks ≠ [] := by
    obtain ⟨block, rest, rfl⟩ := List.exists_cons_of_ne_nil hblocks
    exact intercalate_ne_nil (h block List.mem_cons_self).ne_nil rest
  rw [readBlocks, blocksText_eq fun block hblock => (h block hblock).ne_nil,
    List.splitOn_intercalate newline hlines hne,
    List.splitOn_intercalate [] (fun block hblock => (h block hblock).nil_notMem) hblocks]
  exact List.filter_eq_self.mpr fun block hblock => by simpa using (h block hblock).ne_nil

end Blocks

section Digits

/-- A number in decimal, in at least as many digits. -/
def paddedDigits (width number : ℕ) : List Char := (Nat.toDigits 10 number).leftpad width '0'

/-- The number that digits spell. -/
def readDigits (text : List Char) : Option ℕ :=
  if text ≠ [] ∧ text.all Char.isDigit then some (Nat.ofDigitChars 10 text 0) else none

theorem isDigit_of_mem_paddedDigits {width number : ℕ} {c : Char} (h : c ∈ paddedDigits width number) :
    c.isDigit := by
  rw [paddedDigits, List.leftpad, List.mem_append] at h
  rcases h with h | h
  · rw [List.eq_of_mem_replicate h]
    rfl
  · exact Nat.isDigit_of_mem_toDigits (by decide) (by decide) h

@[simp] theorem paddedDigits_ne_nil (width number : ℕ) : paddedDigits width number ≠ [] := by
  simp [paddedDigits, List.leftpad]

@[simp] theorem readDigits_paddedDigits (width number : ℕ) :
    readDigits (paddedDigits width number) = some number := by
  have hdigits : (paddedDigits width number).all Char.isDigit := by
    rw [List.all_eq_true]
    exact fun _ => isDigit_of_mem_paddedDigits
  rw [readDigits, if_pos ⟨paddedDigits_ne_nil width number, hdigits⟩, paddedDigits, List.leftpad,
    Nat.ofDigitChars_append, Nat.ofDigitChars_replicate_zero, Nat.mul_zero, Nat.ofDigitChars_ten_toDigits]

/-- A number below a power of ten takes no more digits. -/
theorem length_paddedDigits {width number : ℕ} (hwidth : 0 < width) (h : number < 10 ^ width) :
    (paddedDigits width number).length = width := by
  have := (Nat.length_toDigits_le_iff (b := 10) (n := number) (by decide) hwidth).mpr h
  rw [paddedDigits, List.leftpad, List.length_append, List.length_replicate]
  omega

end Digits

end Speecher
