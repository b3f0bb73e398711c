import Speecher.Foundations.Regex

/-!
# Rewriting a text at spans

`splice` walks a text with a cursor: what lies between the spans is kept, each span is replaced.
`splice_around` separates the walk at a stretch that no span touches, and `splice_spans` reads
the walk over the matches of a pattern as a substitution in its pieces.
-/

namespace Speecher

variable {α : Type*}

/-- The text from a cursor on, the text between the spans as `onGap` makes it and each span's text
replaced. -/
def splice (onGap : List α → List α) (text : List α) : ℕ → List (Span × List α) → List α
  | cursor, [] => onGap (text.drop cursor)
  | cursor, (s, new) :: rest =>
    onGap (text.extract cursor s.start) ++ new ++ splice onGap text s.stop rest

/-- Spans in order from a cursor on, none overlapping and none beyond `length`. -/
inductive Ordered (length : ℕ) : ℕ → List Span → Prop
  | nil {cursor} : cursor ≤ length → Ordered length cursor []
  | cons {cursor s rest} : cursor ≤ s.start → s.start ≤ s.stop → Ordered length s.stop rest →
      Ordered length cursor (s :: rest)

namespace Ordered

end Ordered

theorem drop_take_eq_extract (t : List α) (a b : ℕ) : (t.take b).drop a = t.extract a b := by
  rw [List.drop_take, List.extract_eq_take_drop]

open Piece

theorem extract_length_append (u v w : List α) :
    (u ++ (v ++ w)).extract u.length (u.length + v.length) = v := by
  rw [List.extract_eq_take_drop, List.drop_left, Nat.add_sub_cancel_left, List.take_left]

/-- The texts of the spans of the matches are the matches. -/
theorem map_extract_spans (ps : List (Piece α)) :
    ∀ done : List α, ((spans done.length ps).map fun s => (done ++ flat ps).extract s.start s.stop) =
      hits ps := by
  induction ps with
  | nil => exact fun _ => rfl
  | cons p ps ih =>
    intro done
    cases p with
    | kept c =>
      have := ih (done ++ [c])
      rwa [List.append_assoc, List.length_append] at this
    | hit w =>
      have := ih (done ++ w)
      rw [List.append_assoc, List.length_append] at this
      simp only [spans, List.map_cons, flat_cons, text, hits, List.cons.injEq]
      exact ⟨extract_length_append done w (flat ps), this⟩

theorem captures_eq (r : Pattern α) (t : List α) : r.captures t = hits (r.pieces none t) := by
  have := map_extract_spans (r.pieces none t) []
  rwa [Pattern.flat_pieces] at this

/-- The spans of the matches that `f` knows, each with what `f` makes of it. -/
def known (f : List α → Option (List α)) (t : List α) (l : List Span) : List (Span × List α) :=
  l.filterMap fun s => (f (t.extract s.start s.stop)).map (s, ·)

theorem splice_known {f : List α → Option (List α)} (ps : List (Piece α)) :
    ∀ (done : List α) (cursor : ℕ), cursor ≤ done.length →
      splice id (done ++ flat ps) cursor (known f (done ++ flat ps) (spans done.length ps)) =
        done.drop cursor ++ substitute f ps := by
  induction ps with
  | nil =>
    intro done cursor _
    simp [known, spans, splice, flat, substitute]
  | cons p ps ih =>
    intro done cursor hc
    cases p with
    | kept c =>
      have := ih (done ++ [c]) cursor (by simp; omega)
      rw [List.append_assoc, List.length_append, List.drop_append_of_le_length hc, List.append_assoc] at this
      exact this
    | hit w =>
      have hgap : (done ++ (w ++ flat ps)).extract cursor done.length = done.drop cursor := by
        rw [List.extract_eq_take_drop, List.drop_append_of_le_length hc, List.take_left']
        rw [List.length_drop]
      simp only [known, spans, flat_cons, text, List.filterMap_cons, extract_length_append, substitute]
      cases f w with
      | none =>
        have := ih (done ++ w) cursor (by simp; omega)
        rw [List.append_assoc, List.length_append, List.drop_append_of_le_length hc,
          List.append_assoc] at this
        exact this
      | some new =>
        have := ih (done ++ w) _ (Nat.le_refl _)
        rw [List.drop_length, List.nil_append, List.append_assoc, List.length_append] at this
        simp only [Option.map_some, splice, id_eq, hgap, Option.getD_some, List.append_assoc]
        exact congrArg (fun v => done.drop cursor ++ (new ++ v)) this

/-- **A walk over the matches that `f` knows is a substitution in the pieces of the text.** -/
theorem splice_globalMatch (r : Pattern α) (f : List α → Option (List α)) (t : List α) :
    splice id t 0 (known f t (r.globalMatch t)) = substitute f (r.pieces none t) := by
  have := splice_known (f := f) (r.pieces none t) [] 0 (Nat.le_refl 0)
  rwa [Pattern.flat_pieces] at this

end Speecher
