import Mathlib.Data.List.Basic
import Mathlib.Tactic.Common

/-!
# Texts with numbered markers

A template text has markers, `%` and one or two digits with an `L` between them at will. `arg` puts texts in the place
of the markers in one pass: the first in the place of every marker with the lowest number, the next in the place of
the next, and so on. What it puts in is not searched for markers in the same pass.

* `arg_append`: text without `%` in front of a template stays in front of it.
* `arg_templateOf`: one text takes the place of every marker `%1` of a template.
-/

namespace Speecher

/-- A character of a template, or a marker with its number as it stands in the template. -/
inductive ArgToken where
  | char (c : Char)
  | marker (number : ℕ) (written : List Char)
  deriving DecidableEq

/-- How far a marker has been read: not at all, its `%` and what stands for `L`, or its first digit too. -/
inductive MarkerStart where
  | none
  | opened (localized : List Char)
  | numbered (localized : List Char) (digit : Char)

def digitValue (c : Char) : ℕ := c.toNat - '0'.toNat

/-- The tokens of a template, a marker's start having been read. -/
def argTokens : MarkerStart → List Char → List ArgToken
  | .none, [] => []
  | .none, c :: rest => if c = '%' then argTokens (.opened []) rest else .char c :: argTokens .none rest
  | .opened localized, [] => ('%' :: localized).map .char
  | .opened localized, c :: rest =>
    if c.isDigit then argTokens (.numbered localized c) rest
    else if c = 'L' ∧ localized = [] then argTokens (.opened ['L']) rest
    else
      ('%' :: localized).map .char ++
        if c = '%' then argTokens (.opened []) rest else .char c :: argTokens .none rest
  | .numbered localized digit, [] => [.marker (digitValue digit) ('%' :: localized ++ [digit])]
  | .numbered localized digit, c :: rest =>
    if c.isDigit then
      .marker (10 * digitValue digit + digitValue c) ('%' :: localized ++ [digit, c]) :: argTokens .none rest
    else
      .marker (digitValue digit) ('%' :: localized ++ [digit]) ::
        if c = '%' then argTokens (.opened []) rest else .char c :: argTokens .none rest

/-- The numbers of a template's markers. -/
def markerNumbers (tokens : List ArgToken) : List ℕ :=
  tokens.filterMap fun
    | .char _ => none
    | .marker number _ => some number

/-- How many of the numbers stand before one. -/
def rank (numbers : List ℕ) (number : ℕ) : ℕ := ((List.range number).filter (numbers.contains ·)).length

/-- What a token becomes. -/
def ArgToken.filled (args : List (List Char)) (numbers : List ℕ) : ArgToken → List Char
  | .char c => [c]
  | .marker number written => (args[rank numbers number]?).getD written

/-- The template with texts in the place of its markers. -/
def arg (args : List (List Char)) (template : List Char) : List Char :=
  let tokens := argTokens .none template
  tokens.flatMap (·.filled args (markerNumbers tokens))

theorem argTokens_append {text : List Char} (h : '%' ∉ text) (template : List Char) :
    argTokens .none (text ++ template) = text.map .char ++ argTokens .none template := by
  induction text with
  | nil => rfl
  | cons c text ih =>
    rw [List.mem_cons, not_or] at h
    rw [List.cons_append, argTokens, if_neg (Ne.symm h.1), ih h.2, List.map_cons, List.cons_append]

theorem markerNumbers_append (text : List Char) (tokens : List ArgToken) :
    markerNumbers (text.map .char ++ tokens) = markerNumbers tokens := by
  rw [markerNumbers, List.filterMap_append, List.filterMap_map]
  exact congrArg (· ++ _) (List.filterMap_eq_nil_iff.mpr fun _ _ => rfl)

/-- **Text in front of a template stays there.** -/
theorem arg_append (args : List (List Char)) {text : List Char} (h : '%' ∉ text) (template : List Char) :
    arg args (text ++ template) = text ++ arg args template := by
  have hkept (numbers : List ℕ) : (text.map ArgToken.char).flatMap (·.filled args numbers) = text := by
    rw [List.flatMap_map]
    exact List.flatMap_singleton' text
  rw [arg, argTokens_append h, markerNumbers_append, List.flatMap_append, hkept]
  rfl

/-! ## One text -/

theorem argTokens_marker {rest : List Char} (hrest : ∀ c ∈ rest.head?, c.isDigit = false) :
    argTokens .none ('%' :: '1' :: rest) = .marker 1 ['%', '1'] :: argTokens .none rest := by
  have hone : ('1' : Char).isDigit = true := rfl
  rw [argTokens, if_pos rfl, argTokens, if_pos hone]
  cases rest with
  | nil => rfl
  | cons c rest =>
    have hc : ¬ c.isDigit = true := Bool.eq_false_iff.mp (hrest c rfl)
    conv_lhs => rw [argTokens, if_neg hc]
    rw [argTokens]
    rfl

/-- The tokens of a piece, or of a marker. -/
def pieceTokens : Option (List Char) → List ArgToken
  | some piece => piece.map .char
  | none => [.marker 1 ['%', '1']]

/-- A template written in pieces. -/
def templateOf (pieces : List (Option (List Char))) : List Char := pieces.flatMap (·.getD ['%', '1'])

theorem head_templateOf {pieces : List (Option (List Char))}
    (h : ∀ piece, some piece ∈ pieces → ∀ c ∈ piece.head?, c.isDigit = false) :
    ∀ c ∈ (templateOf pieces).head?, c.isDigit = false := by
  induction pieces with
  | nil => exact fun _ hc => by cases hc
  | cons piece pieces ih =>
    have hrest := ih fun piece hpiece => h piece (List.mem_cons_of_mem _ hpiece)
    match piece with
    | none =>
      rintro c ⟨⟩
      rfl
    | some [] => exact hrest
    | some (d :: piece) => exact h (d :: piece) List.mem_cons_self

theorem argTokens_templateOf {pieces : List (Option (List Char))}
    (h : ∀ piece, some piece ∈ pieces → '%' ∉ piece ∧ ∀ c ∈ piece.head?, c.isDigit = false) :
    argTokens .none (templateOf pieces) = pieces.flatMap pieceTokens := by
  induction pieces with
  | nil => rfl
  | cons piece pieces ih =>
    have hlater : ∀ piece, some piece ∈ pieces → '%' ∉ piece ∧ ∀ c ∈ piece.head?, c.isDigit = false :=
      fun piece hpiece => h piece (List.mem_cons_of_mem _ hpiece)
    rw [templateOf, List.flatMap_cons, List.flatMap_cons, ← ih hlater]
    cases piece with
    | none => exact argTokens_marker (head_templateOf fun piece hpiece => (hlater piece hpiece).2)
    | some piece => exact argTokens_append (h piece List.mem_cons_self).1 _

theorem markerNumbers_pieces (pieces : List (Option (List Char))) :
    ∀ number ∈ markerNumbers (pieces.flatMap pieceTokens), number = 1 := by
  induction pieces with
  | nil => exact fun _ h => by cases h
  | cons piece pieces ih =>
    intro number hnumber
    cases piece with
    | none =>
      rcases List.mem_cons.mp hnumber with rfl | hnumber
      · rfl
      · exact ih number hnumber
    | some piece =>
      rw [List.flatMap_cons, pieceTokens, markerNumbers_append] at hnumber
      exact ih number hnumber

/-- **One text takes the place of every marker of a template.** -/
theorem arg_templateOf (value : List Char) {pieces : List (Option (List Char))}
    (h : ∀ piece, some piece ∈ pieces → '%' ∉ piece ∧ ∀ c ∈ piece.head?, c.isDigit = false) :
    arg [value] (templateOf pieces) = pieces.flatMap (·.getD value) := by
  have hrank : rank (markerNumbers (pieces.flatMap pieceTokens)) 1 = 0 := by
    have hzero : 0 ∉ markerNumbers (pieces.flatMap pieceTokens) := fun hmem =>
      absurd (markerNumbers_pieces pieces 0 hmem) (by decide)
    simp [rank, hzero]
  rw [arg, argTokens_templateOf h, List.flatMap_assoc]
  refine List.flatMap_congr fun piece _ => ?_
  cases piece with
  | none =>
    rw [pieceTokens, List.flatMap_singleton, ArgToken.filled, hrank]
    rfl
  | some piece =>
    rw [pieceTokens, List.flatMap_map]
    exact List.flatMap_singleton' piece

end Speecher
