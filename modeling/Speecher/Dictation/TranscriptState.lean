import Speecher.Bindings.SpacedWords
import Speecher.Foundations.Blocks
import Speecher.Foundations.Runs

/-!
# The transcript of a session

`TranscriptState` holds the final pieces of a session's transcript and the partial that still shows. A speech attempt
may send its whole transcript in place of what it sent before: the text from before the attempt stays (`attemptBase`).

* `wordsOf_text`: the transcript is the words of its pieces and of the partial.
* `Begun.survives`: the text at the start of an attempt stays a whole-word prefix of the transcript, whatever comes, as
  long as no attempt starts with a partial showing.
* `committed_words_survive`: with that, when the final pieces of an attempt survive a whole transcript of it that arrives
  blank.
-/

namespace Speecher

structure TranscriptState where
  finals : List Text := []
  partialText : Text := []
  /-- The text from before the current attempt. -/
  attemptBase : Text := []
  attemptLanguage : Text := []
  heardLanguage : Text := []
  deriving DecidableEq

namespace TranscriptState

/-- The finals, and the partial when it has a word. -/
def parts (s : TranscriptState) : List Text :=
  if (trimmed s.partialText).isEmpty then s.finals else s.finals ++ [trimmed s.partialText]

def text (s : TranscriptState) : Text := simplified (joinWords s.parts)

def setPartial (s : TranscriptState) (text : Text) : TranscriptState :=
  if s.partialText = text then s else { s with partialText := text }

def commitFinal (s : TranscriptState) (finalText : Text) : TranscriptState :=
  let cleaned := simplified finalText
  if cleaned.isEmpty then { s with partialText := [] }
  else { s with finals := s.finals ++ [cleaned], heardLanguage := s.attemptLanguage, partialText := [] }

def replaceFinals (s : TranscriptState) (text : Text) : TranscriptState :=
  let cleaned := simplified text
  if cleaned.isEmpty then s else { s with finals := [cleaned], partialText := [] }

def startAttempt (s : TranscriptState) (spokenLanguage : Text) : TranscriptState :=
  { s with attemptBase := s.text, attemptLanguage := spokenLanguage }

def replaceAttemptFinals (s : TranscriptState) (attemptText : Text) : TranscriptState :=
  let s := if (trimmed attemptText).isEmpty then s else { s with heardLanguage := s.attemptLanguage }
  s.replaceFinals (if s.attemptBase.isEmpty then attemptText else s.attemptBase ++ ' ' :: attemptText)

/-! ## Its words -/

/-- The words of the final pieces. -/
def finalWords (s : TranscriptState) : List Text := s.finals.flatMap wordsOf

/-- The words of the final pieces that came since the attempt started. -/
def attemptWords (s : TranscriptState) : List Text := s.finalWords.drop (wordsOf s.attemptBase).length

/-- **The words of the transcript.** -/
theorem wordsOf_text (s : TranscriptState) : wordsOf s.text = s.finalWords ++ wordsOf s.partialText := by
  rw [text, wordsOf_simplified, wordsOf_joinWords, parts]
  split
  · rename_i hblank
    rw [wordsOf_eq_nil_iff.mpr (List.isEmpty_iff.mp hblank), List.append_nil]
    rfl
  · rw [List.flatMap_append, List.flatMap_singleton, wordsOf_trimmed]
    rfl

theorem text_eq (s : TranscriptState) : s.text = joinWords (wordsOf s.text) := by
  rw [text, wordsOf_simplified]
  rfl

@[simp] theorem finalWords_setPartial (s : TranscriptState) (text : Text) :
    (s.setPartial text).finalWords = s.finalWords := by rw [setPartial]; split <;> rfl

@[simp] theorem attemptBase_setPartial (s : TranscriptState) (text : Text) :
    (s.setPartial text).attemptBase = s.attemptBase := by rw [setPartial]; split <;> rfl

@[simp] theorem finalWords_commitFinal (s : TranscriptState) (finalText : Text) :
    (s.commitFinal finalText).finalWords = s.finalWords ++ wordsOf finalText := by
  rw [commitFinal]
  split
  · rename_i hnone
    rw [simplified_eq_nil_iff.mp (List.isEmpty_iff.mp hnone), List.append_nil]
    rfl
  · rw [finalWords, List.flatMap_append, List.flatMap_singleton, wordsOf_simplified]
    rfl

@[simp] theorem attemptBase_commitFinal (s : TranscriptState) (finalText : Text) :
    (s.commitFinal finalText).attemptBase = s.attemptBase := by rw [commitFinal]; split <;> rfl

@[simp] theorem attemptBase_replaceFinals (s : TranscriptState) (text : Text) :
    (s.replaceFinals text).attemptBase = s.attemptBase := by rw [replaceFinals]; split <;> rfl

theorem finalWords_replaceFinals (s : TranscriptState) (text : Text) :
    (s.replaceFinals text).finalWords = if wordsOf text = [] then s.finalWords else wordsOf text := by
  rw [replaceFinals]
  by_cases hnone : wordsOf text = []
  · rw [if_pos hnone, if_pos (List.isEmpty_iff.mpr (simplified_eq_nil_iff.mpr hnone))]
  · rw [if_neg hnone, if_neg (mt List.isEmpty_iff.mp (mt simplified_eq_nil_iff.mp hnone)), finalWords,
      List.flatMap_singleton, wordsOf_simplified]

@[simp] theorem attemptBase_replaceAttemptFinals (s : TranscriptState) (attemptText : Text) :
    (s.replaceAttemptFinals attemptText).attemptBase = s.attemptBase := by
  rw [replaceAttemptFinals, attemptBase_replaceFinals]
  split <;> rfl

/-- The words of the attempt's whole transcript stand after those from before it. -/
theorem finalWords_replaceAttemptFinals (s : TranscriptState) (attemptText : Text) :
    (s.replaceAttemptFinals attemptText).finalWords =
      if wordsOf s.attemptBase ++ wordsOf attemptText = [] then s.finalWords
      else wordsOf s.attemptBase ++ wordsOf attemptText := by
  have hwords : wordsOf (if s.attemptBase.isEmpty then attemptText else s.attemptBase ++ ' ' :: attemptText) =
      wordsOf s.attemptBase ++ wordsOf attemptText := by
    split
    · rename_i hnone
      rw [List.isEmpty_iff.mp hnone]
      rfl
    · exact wordsOf_append_cons _ _ (by decide)
  rw [replaceAttemptFinals]
  split
  · rw [finalWords_replaceFinals, hwords]
  · rw [finalWords_replaceFinals, hwords]
    rfl

/-! ## Runs -/

inductive Event
  | setPartial (text : Text)
  | commitFinal (finalText : Text)
  | startAttempt (spokenLanguage : Text)
  | replaceAttemptFinals (attemptText : Text)

/-- No partial shows. -/
def NoPartial (s : TranscriptState) : Prop := trimmed s.partialText = []

instance (s : TranscriptState) : Decidable s.NoPartial := inferInstanceAs (Decidable (_ = _))

/-- An operation; an attempt starts with no partial showing. -/
def step (s : TranscriptState) : Event → Option TranscriptState
  | .setPartial text => some (s.setPartial text)
  | .commitFinal finalText => some (s.commitFinal finalText)
  | .startAttempt spokenLanguage => if s.NoPartial then some (s.startAttempt spokenLanguage) else none
  | .replaceAttemptFinals attemptText => some (s.replaceAttemptFinals attemptText)

/-- The states of a transcript used so, from one on. -/
abbrev Follows (s s' : TranscriptState) : Prop := Reaches step (fun _ _ => True) s s'

theorem finalWords_eq_of_noPartial {s : TranscriptState} (h : s.NoPartial) : wordsOf s.text = s.finalWords := by
  rw [wordsOf_text, wordsOf_eq_nil_iff.mpr h, List.append_nil]

/-- Words that no operation takes back: final ones from before the attempt. -/
structure Begun (words : List Text) (s : TranscriptState) : Prop where
  finals : words <+: s.finalWords
  base : words <+: wordsOf s.attemptBase

/-- What an operation leaves of them: all. -/
theorem Begun.step {words : List Text} {s s' : TranscriptState} (h : Begun words s) {e : Event}
    (hstep : step s e = some s') : Begun words s' := by
  cases e with
  | setPartial text =>
    cases hstep
    exact ⟨by simpa using h.finals, by simpa using h.base⟩
  | commitFinal finalText =>
    cases hstep
    exact ⟨by simpa using h.finals.trans (List.prefix_append ..), by simpa using h.base⟩
  | startAttempt spokenLanguage =>
    obtain ⟨hnone, hs⟩ := Option.ite_none_right_eq_some.mp hstep
    cases hs
    exact ⟨h.finals, h.finals.trans (finalWords_eq_of_noPartial hnone ▸ List.prefix_rfl)⟩
  | replaceAttemptFinals attemptText =>
    cases hstep
    refine ⟨?_, by simpa using h.base⟩
    rw [finalWords_replaceAttemptFinals]
    split
    · exact h.finals
    · exact h.base.trans (List.prefix_append ..)

theorem Begun.follows {words : List Text} {s s' : TranscriptState} (h : Begun words s) (hrun : Follows s s') :
    Begun words s' := hrun.invariant h fun _ _ _ _ ih hstep => ih.step hstep

/-- The one text stands at the start of the other, which goes on with another word if at all. -/
def WholeWordPrefix (text whole : Text) : Prop := text = [] ∨ whole = text ∨ ∃ rest, whole = text ++ ' ' :: rest

theorem wholeWordPrefix_joinWords {words all : List Text} (h : words <+: all) :
    WholeWordPrefix (joinWords words) (joinWords all) := by
  obtain ⟨later, rfl⟩ := h
  by_cases hwords : words = []
  · exact .inl (by rw [hwords]; rfl)
  by_cases hlater : later = []
  · exact .inr (.inl (by rw [hlater, List.append_nil]))
  · refine .inr (.inr ⟨joinWords later, ?_⟩)
    rw [joinWords, intercalate_append hwords hlater, List.append_assoc, List.singleton_append]
    rfl

/-- **The text at the start of an attempt** stays a whole-word prefix of the transcript. -/
theorem Begun.survives {s s' : TranscriptState} (hnone : s.NoPartial) (spokenLanguage : Text)
    (hrun : Follows (s.startAttempt spokenLanguage) s') : WholeWordPrefix s.text s'.text := by
  have hwords := finalWords_eq_of_noPartial hnone
  have hbegun : Begun (wordsOf s.text) (s.startAttempt spokenLanguage) := ⟨hwords ▸ List.prefix_rfl, List.prefix_rfl⟩
  have hlater : wordsOf s.text <+: wordsOf s'.text := by
    rw [wordsOf_text s']
    exact (hbegun.follows hrun).finals.trans (List.prefix_append ..)
  rw [text_eq s, text_eq s']
  exact wholeWordPrefix_joinWords hlater

/-- The text from before the attempt is a transcript's, and its words stand first. -/
structure Based (s : TranscriptState) : Prop where
  ne_nil : s.attemptBase ≠ [] → wordsOf s.attemptBase ≠ []
  finals : wordsOf s.attemptBase <+: s.finalWords

theorem Based.step {s s' : TranscriptState} (h : Based s) {e : Event} (hstep : step s e = some s') : Based s' := by
  cases e with
  | setPartial text =>
    cases hstep
    exact ⟨by simpa using h.ne_nil, by simpa using h.finals⟩
  | commitFinal finalText =>
    cases hstep
    exact ⟨by simpa using h.ne_nil, by simpa using h.finals.trans (List.prefix_append ..)⟩
  | startAttempt spokenLanguage =>
    obtain ⟨hnone, hs⟩ := Option.ite_none_right_eq_some.mp hstep
    cases hs
    refine ⟨fun hne hwords => hne ?_, finalWords_eq_of_noPartial hnone ▸ List.prefix_rfl⟩
    exact (text_eq s).trans (by rw [show wordsOf s.text = [] from hwords]; rfl)
  | replaceAttemptFinals attemptText =>
    cases hstep
    refine ⟨by simpa using h.ne_nil, ?_⟩
    rw [attemptBase_replaceAttemptFinals, finalWords_replaceAttemptFinals]
    split
    · exact h.finals
    · exact List.prefix_append ..

theorem based {s : TranscriptState} (hrun : Follows {} s) : Based s :=
  hrun.invariant ⟨fun h => absurd rfl h, List.nil_prefix⟩ fun _ _ _ _ ih hstep => ih.step hstep

/-- **Committed words survive later attempts.** In every run, the text at the start of an attempt stays a whole-word
prefix of the transcript from then on; and a whole transcript of an attempt that arrives blank leaves the words of the
final pieces as they were exactly when the transcript was empty before the attempt, or the attempt has none of its
own. -/
theorem committed_words_survive {s : TranscriptState} (hrun : Follows {} s) :
    (∀ spokenLanguage s', s.NoPartial → Follows (s.startAttempt spokenLanguage) s' → WholeWordPrefix s.text s'.text) ∧
      ∀ blank, trimmed blank = [] →
        ((s.replaceAttemptFinals blank).finalWords = s.finalWords ↔ s.attemptBase = [] ∨ s.attemptWords = []) := by
  refine ⟨fun spokenLanguage s' hnone hfollows => Begun.survives hnone spokenLanguage hfollows, fun blank hblank => ?_⟩
  have hbased := based hrun
  obtain ⟨own, hown⟩ := hbased.finals
  have hattempt : s.attemptWords = own := by rw [attemptWords, ← hown, List.drop_left]
  rw [finalWords_replaceAttemptFinals, wordsOf_eq_nil_iff.mpr hblank, List.append_nil, hattempt, ← hown]
  split
  · rename_i hnone
    exact iff_of_true rfl (.inl (by_contra fun hne => hbased.ne_nil hne hnone))
  · rename_i hsome
    have hne : s.attemptBase ≠ [] := fun hnil => hsome (by rw [hnil]; rfl)
    rw [or_iff_right hne, List.self_eq_append_right]

/-- A second attempt that committed a word. -/
def secondAttempt : TranscriptState :=
  (((({} : TranscriptState).commitFinal "one".toList).startAttempt []).commitFinal "two".toList)

theorem follows_secondAttempt : Follows {} secondAttempt :=
  .next (.commitFinal "two".toList) (.next (.startAttempt []) (.next (.commitFinal "one".toList) .start trivial rfl)
    trivial rfl) trivial rfl

theorem second_attempt_survives :
    WholeWordPrefix (({} : TranscriptState).commitFinal "one".toList).text secondAttempt.text :=
  (committed_words_survive (.next (.commitFinal "one".toList) .start trivial rfl)).1 [] secondAttempt (by decide)
    (.next (.commitFinal "two".toList) .start trivial rfl)

/-- **A blank whole transcript** of the second attempt takes its word back. -/
theorem blank_takes_words_back :
    ¬ ∀ s, Follows {} s → ∀ blank, trimmed blank = [] → (s.replaceAttemptFinals blank).finalWords = s.finalWords := by
  intro h
  exact absurd (h secondAttempt follows_secondAttempt [] rfl) (by decide)

end TranscriptState

end Speecher
