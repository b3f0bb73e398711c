import Mathlib.Data.Int.Notation
import Speecher.Foundations.IndexOf

/-!
# The span an edit is read from

What a dictation inserted is pinned by the text around it as it was inserted, and looked for again between its pins in
what the control reads later. A pin that repeats locates nothing. The texts are code units of any kind.

* `editedSpan_between`: between its pins the span is found as it reads now, or not at all.
* `Android.editedSpan_between`: so on the phone, where a pin that reached the text's edge pins the span there.
* `edited_span_is_the_edit`: so for the windows the desktop and the phone cut.
-/

namespace Speecher

variable {α : Type*} [DecidableEq α]

def correctionContextChars : ℕ := 24

def correctionMinContextChars : ℕ := 8

def correctionMaxEditedChars : ℕ := 500

/-- The text inserted, and the text that surrounded it. The target it went to is left out. -/
structure CorrectionWindow (α : Type*) where
  original : List α
  prefixText : List α
  suffixText : List α

/-- What stands between a window's pins in a text, if they locate it. -/
def editedSpan (text : List α) (window : CorrectionWindow α) : Option (List α) :=
  if text.isEmpty || window.prefixText.length < correctionMinContextChars ||
      window.suffixText.length < correctionMinContextChars then none
  else
    match indexFrom window.prefixText text 0 with
    | none => none
    | some prefixAt =>
      if (indexFrom window.prefixText text (prefixAt + 1)).isSome then none
      else
        let start := prefixAt + window.prefixText.length
        match indexFrom window.suffixText text start with
        | none => none
        | some suffixAt =>
          if suffixAt < start || (indexFrom window.suffixText text (suffixAt + 1)).isSome then none
          else
            let span := (text.drop start).take (suffixAt - start)
            if span.length ≤ correctionMaxEditedChars then some span else none

/-- A control's text and selection before an insertion. -/
structure InsertionBaseline (α : Type*) where
  before : List α
  start : ℕ
  stop : ℕ

/-- Nothing where the selection does not lie inside the text. -/
def InsertionBaseline.forSelection (text : List α) (start stop : ℤ) : Option (InsertionBaseline α) :=
  if start < 0 ∨ stop < start ∨ stop > text.length then none else some ⟨text, start.toNat, stop.toNat⟩

/-- What the control reads once the selection is replaced. -/
def InsertionBaseline.expectedAfter (baseline : InsertionBaseline α) (plainText : List α) : List α :=
  baseline.before.take baseline.start ++ plainText ++ baseline.before.drop baseline.stop

/-- The last `n` of a list. -/
def right (n : ℕ) (l : List α) : List α := l.drop (l.length - n)

def InsertionBaseline.correctionWindow (baseline : InsertionBaseline α) (plainText : List α) :
    Option (CorrectionWindow α) :=
  let pin := right correctionContextChars (baseline.before.take baseline.start)
  let suffix := (baseline.before.drop baseline.stop).take correctionContextChars
  if pin.length < correctionMinContextChars ∨ suffix.length < correctionMinContextChars then none
  else some ⟨plainText, pin, suffix⟩

/-! ## The phone -/

namespace Android

/-- What an input connection tells of the text around the selection: the selected text and so many characters before
and after it, or all there are. -/
structure SurroundingText (α : Type*) where
  text : List α
  selectionStart : ℕ
  selectionEnd : ℕ

def getSurroundingText (beforeLength afterLength : ℕ) (text : List α) (start stop : ℕ) : SurroundingText α :=
  let before := right beforeLength (text.take start)
  ⟨before ++ (text.take stop).drop start ++ (text.drop stop).take afterLength, before.length,
    before.length + (stop - start)⟩

/-- Nothing where a selection is there to replace. -/
def correctionWindow (around : SurroundingText α) (inserted : List α) : Option (CorrectionWindow α) :=
  let caret := around.selectionStart
  if caret ≠ around.selectionEnd ∨ caret > around.text.length then none
  else some ⟨inserted, around.text.take caret, around.text.drop caret⟩

/-- What stands between a window's pins in a text, if they locate it. A pin of fewer characters reached the text's edge,
and pins the span there. -/
def editedSpan (text : List α) (window : CorrectionWindow α) : Option (List α) :=
  if text.isEmpty then none
  else
    let start? :=
      if window.prefixText.length < correctionContextChars then
        if window.prefixText <+: text then some window.prefixText.length else none
      else
        match indexFrom window.prefixText text 0 with
        | none => none
        | some prefixAt =>
          if (indexFrom window.prefixText text (prefixAt + 1)).isSome then none
          else some (prefixAt + window.prefixText.length)
    start?.bind fun start =>
      let stop? :=
        if window.suffixText.length < correctionContextChars then
          if ¬window.suffixText <:+ text ∨ text.length < start + window.suffixText.length then none
          else some (text.length - window.suffixText.length)
        else
          match indexFrom window.suffixText text start with
          | none => none
          | some suffixAt => if (indexFrom window.suffixText text (suffixAt + 1)).isSome then none else some suffixAt
      stop?.bind fun stop =>
        let span := (text.take stop).drop start
        if span.length ≤ correctionMaxEditedChars then some span else none

end Android

/-! ## Between its pins -/

variable {edited : List α} {window : CorrectionWindow α}

omit [DecidableEq α] in
/-- A text with a window's pins around a span. -/
theorem pins_stand (outer pin edited suffix rest : List α) :
    pin <+: (outer ++ pin ++ edited ++ suffix ++ rest).drop outer.length ∧
      suffix <+: (outer ++ pin ++ edited ++ suffix ++ rest).drop (outer.length + pin.length + edited.length) := by
  constructor
  · rw [List.append_assoc, List.append_assoc, List.append_assoc, List.drop_left]
    exact List.prefix_append ..
  · rw [List.append_assoc _ suffix, ← List.length_append, ← List.length_append, List.drop_left]
    exact List.prefix_append ..

/-- **Between its pins a span is found as it reads now, or not at all.** -/
theorem editedSpan_between (outer edited rest : List α) (window : CorrectionWindow α) :
    editedSpan (outer ++ window.prefixText ++ edited ++ window.suffixText ++ rest) window = none ∨
      editedSpan (outer ++ window.prefixText ++ edited ++ window.suffixText ++ rest) window = some edited := by
  obtain ⟨hpin, hsuffix⟩ := pins_stand outer window.prefixText edited window.suffixText rest
  set text := outer ++ window.prefixText ++ edited ++ window.suffixText ++ rest with htext
  rw [editedSpan]
  split
  · exact .inl rfl
  · split
    · exact .inl rfl
    · rename_i prefixAt hfirst
      split
      · exact .inl rfl
      · rename_i hlast
        obtain rfl := eq_of_indexFrom_last hfirst (Option.not_isSome_iff_eq_none.mp hlast) (Nat.zero_le _) hpin
        dsimp only
        split
        · exact .inl rfl
        · rename_i suffixAt hnext
          split
          · exact .inl rfl
          · rename_i hend
            rw [Bool.or_eq_true, not_or] at hend
            obtain rfl := eq_of_indexFrom_last hnext (Option.not_isSome_iff_eq_none.mp hend.2) (Nat.le_add_right _ _)
              hsuffix
            have hspan : (text.drop (outer.length + window.prefixText.length)).take
                (outer.length + window.prefixText.length + edited.length -
                  (outer.length + window.prefixText.length)) = edited := by
              rw [htext, List.append_assoc, List.append_assoc, ← List.length_append, List.drop_left,
                Nat.add_sub_cancel_left, List.take_left]
            rw [hspan]
            split
            · exact .inr rfl
            · exact .inl rfl

/-- How a window on the phone pins a span between two texts: by what stands next to it, or by all there is. -/
structure Android.Pins (window : CorrectionWindow α) (ahead behind : List α) : Prop where
  before : window.prefixText <:+ ahead
  after : window.suffixText <+: behind
  atStart : window.prefixText.length < correctionContextChars → window.prefixText = ahead
  atEnd : window.suffixText.length < correctionContextChars → window.suffixText = behind

/-- **So on the phone**, where a pin that reached the text's edge pins the span there. -/
theorem Android.editedSpan_between {ahead behind : List α} (h : Pins window ahead behind) :
    Android.editedSpan (ahead ++ edited ++ behind) window = none ∨
      Android.editedSpan (ahead ++ edited ++ behind) window = some edited := by
  obtain ⟨outer, rfl⟩ := h.before
  obtain ⟨rest, rfl⟩ := h.after
  have htext : outer ++ window.prefixText ++ edited ++ (window.suffixText ++ rest) =
      outer ++ window.prefixText ++ edited ++ window.suffixText ++ rest := (List.append_assoc ..).symm
  obtain ⟨hpin, hsuffix⟩ := pins_stand outer window.prefixText edited window.suffixText rest
  have hlength : (outer ++ window.prefixText ++ edited ++ window.suffixText ++ rest).length =
      outer.length + window.prefixText.length + edited.length + window.suffixText.length + rest.length := by
    simp only [List.length_append]
  have hspan : ((outer ++ window.prefixText ++ edited ++ window.suffixText ++ rest).take
      (outer.length + window.prefixText.length + edited.length)).drop
        (outer.length + window.prefixText.length) = edited := by
    rw [List.append_assoc _ window.suffixText, ← List.length_append, ← List.length_append, List.take_left,
      List.drop_left]
  rw [htext]
  generalize outer ++ window.prefixText ++ edited ++ window.suffixText ++ rest = text at *
  rw [Android.editedSpan]
  split
  · exact .inl rfl
  · generalize hstart : (if window.prefixText.length < correctionContextChars then _ else _ : Option ℕ) = start?
    dsimp only
    cases start? with
    | none => exact .inl rfl
    | some start =>
      -- The span starts behind the first pin.
      have hfound : start = outer.length + window.prefixText.length := by
        split at hstart
        · rename_i hshort
          have houter : outer.length = 0 := by
            have := congrArg List.length (h.atStart hshort)
            rw [List.length_append] at this
            omega
          split at hstart
          · rw [← Option.some.inj hstart, houter, Nat.zero_add]
          · cases hstart
        · split at hstart
          · cases hstart
          · rename_i prefixAt hfirst
            split at hstart
            · cases hstart
            · rename_i hlast
              rw [← eq_of_indexFrom_last hfirst (Option.not_isSome_iff_eq_none.mp hlast) (Nat.zero_le _) hpin]
              exact (Option.some.inj hstart).symm
      rw [Option.bind_some, hfound]
      generalize hstop : (if window.suffixText.length < correctionContextChars then _ else _ : Option ℕ) = stop?
      cases stop? with
      | none => exact .inl rfl
      | some stop =>
        have hend : stop = outer.length + window.prefixText.length + edited.length := by
          split at hstop
          · rename_i hshort
            have hrest : rest.length = 0 := by
              have := congrArg List.length (h.atEnd hshort)
              rw [List.length_append] at this
              omega
            split at hstop
            · cases hstop
            · rw [← Option.some.inj hstop, hlength, hrest]
              omega
          · split at hstop
            · cases hstop
            · rename_i suffixAt hnext
              split at hstop
              · cases hstop
              · rename_i hlast
                rw [← Option.some.inj hstop]
                exact eq_of_indexFrom_last hnext (Option.not_isSome_iff_eq_none.mp hlast) (Nat.le_add_right _ _)
                  hsuffix
        rw [Option.bind_some, hend, hspan]
        split
        · exact .inr rfl
        · exact .inl rfl

/-! ## The windows that are cut -/

omit [DecidableEq α] in
theorem right_suffix (n : ℕ) (l : List α) : right n l <:+ l := List.drop_suffix ..

omit [DecidableEq α] in
theorem length_right (n : ℕ) (l : List α) : (right n l).length = min n l.length := by
  rw [right, List.length_drop]
  omega

omit [DecidableEq α] in
theorem right_of_short {n : ℕ} {l : List α} (h : (right n l).length < n) : right n l = l := by
  rw [length_right] at h
  rw [right, Nat.sub_eq_zero_of_le (by omega), List.drop_zero]

omit [DecidableEq α] in
/-- A window cut around a caret pins what is inserted there. -/
theorem Android.pins_of_caret {text inserted : List α} {start stop : ℕ} (hstart : start ≤ stop)
    (h : Android.correctionWindow (getSurroundingText correctionContextChars correctionContextChars text start stop)
      inserted = some window) : Pins window (text.take start) (text.drop stop) := by
  rw [Android.correctionWindow] at h
  obtain ⟨hnot, h⟩ := Option.ite_none_left_eq_some.mp h
  obtain ⟨hcaret, -⟩ := not_or.mp hnot
  have hempty : stop = start := by
    simp only [getSurroundingText, ne_eq, Nat.left_eq_add, not_not] at hcaret
    omega
  obtain rfl := Option.some.inj h
  have htext : (getSurroundingText correctionContextChars correctionContextChars text start stop).text =
      right correctionContextChars (text.take start) ++ (text.drop stop).take correctionContextChars := by
    rw [getSurroundingText, hempty, List.drop_take_self, List.append_nil]
  have hselection : (getSurroundingText correctionContextChars correctionContextChars text start stop).selectionStart =
      (right correctionContextChars (text.take start)).length := rfl
  rw [htext, hselection, List.take_left, List.drop_left]
  refine ⟨right_suffix _ _, List.take_prefix .., right_of_short, fun hshort => ?_⟩
  rw [List.length_take] at hshort
  exact List.take_of_length_le (by omega)

/-- **The edited span is the edit, or is not found**: whatever is written in place of what was inserted, between the
texts around the selection, is what is read there, on the desktop and on the phone. -/
theorem edited_span_is_the_edit (text inserted edited : List α) :
    (∀ start stop : ℤ, ∀ baseline ∈ InsertionBaseline.forSelection text start stop,
      ∀ window ∈ baseline.correctionWindow inserted,
        editedSpan (baseline.expectedAfter edited) window = none ∨
          editedSpan (baseline.expectedAfter edited) window = some edited) ∧
      ∀ start stop, start ≤ stop → ∀ window ∈ Android.correctionWindow
        (Android.getSurroundingText correctionContextChars correctionContextChars text start stop) inserted,
        Android.editedSpan (text.take start ++ edited ++ text.drop stop) window = none ∨
          Android.editedSpan (text.take start ++ edited ++ text.drop stop) window = some edited := by
  refine ⟨fun _ _ baseline _ window hwindow => ?_, fun start stop hle window hwindow =>
    Android.editedSpan_between (Android.pins_of_caret hle hwindow)⟩
  obtain ⟨-, hwindow⟩ := Option.ite_none_left_eq_some.mp hwindow
  obtain rfl := Option.some.inj hwindow
  obtain ⟨outer, houter⟩ := right_suffix correctionContextChars (baseline.before.take baseline.start)
  obtain ⟨rest, hrest⟩ := List.take_prefix correctionContextChars (baseline.before.drop baseline.stop)
  have hnow : baseline.expectedAfter edited = outer ++ right correctionContextChars (baseline.before.take baseline.start)
      ++ edited ++ (baseline.before.drop baseline.stop).take correctionContextChars ++ rest := by
    rw [InsertionBaseline.expectedAfter, houter, List.append_assoc _ _ rest, hrest]
  rw [hnow]
  exact editedSpan_between outer edited rest ⟨inserted, _, _⟩

example : ((InsertionBaseline.forSelection (List.range 40) 20 22).bind fun baseline =>
    (baseline.correctionWindow [7]).bind (editedSpan (baseline.expectedAfter [12, 13, 14]))) = some [12, 13, 14] := by
  decide

end Speecher
