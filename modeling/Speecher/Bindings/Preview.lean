import Speecher.Bindings.Accepted
import Speecher.Bindings.Android
import Speecher.Foundations.IndexOf

/-!
# The preview of a refined text

While a refined text streams in, what it has so far is shown with its placeholders replaced. What may be a placeholder
still streaming in is hidden from the last `SPEECHER` on: where no placeholder stands there, or one that the text ends
with, to which more digits could come. The desktop then replaces the placeholders no word character touches, as the
result's are; the phone replaces any.

* `shownText_spec`: what is hidden starts with the last `SPEECHER`, and a placeholder at its start is all of it.
* `Previews.shows`: a preview shows each placeholder the result has, unless the text ends with it.
* `preview_shows`: so do the desktop's preview and the phone's.
-/

namespace Speecher

open Pattern Piece

/-- `SPEECHER` -/
def speecher : Text := ['S', 'P', 'E', 'E', 'C', 'H', 'E', 'R']

/-- `SPEECHER_BINDING_[0-9]+` -/
def placeholderRegex : Pattern Char := literal (· = ·) placeholderStem ++ [.one digit, .many digit]

/-- A streamed text up to what may be a placeholder still streaming in. -/
def shownText (streamedText : Text) : Text :=
  match lastIndexOf speecher streamedText with
  | none => streamedText
  | some tail =>
    match placeholderRegex.run (streamedText.take tail).getLast? (streamedText.drop tail) with
    | none => streamedText.take tail
    | some length => if tail + length = streamedText.length then streamedText.take tail else streamedText

/-- A streamed text shown with the matches of a pattern replaced; one without a replacement stays as written. -/
def previewWith (pattern : Pattern Char) (replacements : Text → Option Text) (streamedText : Text) : Text :=
  let text := shownText streamedText
  splice id text 0 (known (fun w => some ((replacements w).getD w)) text (pattern.globalMatch text))

def restorePlaceholdersForPreview (streamedText : Text) (replacements : Text → Option Text) : Text :=
  previewWith exactPlaceholderRegex replacements streamedText

/-- The refined text streamed so far, on the phone. -/
def Android.ReplacedTranscript.preview (r : ReplacedTranscript) (streamed : Text) : Text :=
  previewWith placeholderRegex (replacementsByPlaceholder r.placeholders) streamed

/-! ## What a placeholder is -/

/-- `SPEECHER_BINDING_` and digits, whatever stands around it. -/
def IsPlaceholder (w : Text) : Prop := ∃ ds, ds ≠ [] ∧ (∀ c ∈ ds, digit c = true) ∧ w = placeholderStem ++ ds

theorem IsPlaceholder.speecher_prefix {w : Text} (h : IsPlaceholder w) (t : Text) : speecher <+: w ++ t := by
  obtain ⟨ds, -, -, rfl⟩ := h
  exact ⟨['_', 'B', 'I', 'N', 'D', 'I', 'N', 'G', '_'] ++ ds ++ t, rfl⟩

/-- Inside a placeholder stands no `S`, with which `SPEECHER` starts. -/
theorem IsPlaceholder.ne_S {w : Text} (h : IsPlaceholder w) : ∀ c ∈ w.tail, c ≠ 'S' := by
  obtain ⟨ds, -, hds, rfl⟩ := h
  have hstem : ∀ c ∈ placeholderStem.tail, decide (c ≠ 'S') = true := List.all_eq_true.mp (by decide)
  intro c hc
  rw [List.tail_append_of_ne_nil (show placeholderStem ≠ [] from List.cons_ne_nil _ _)] at hc
  rcases List.mem_append.mp hc with hc | hc
  · exact of_decide_eq_true (hstem c hc)
  · rintro rfl
    exact absurd (hds _ hc) (by decide)

theorem placeholder_matches {b : Option Char} {t : Text} {n : ℕ} :
    Matches placeholderRegex b t n ↔ ∃ w t', IsPlaceholder w ∧ t = w ++ t' ∧ n = w.length := by
  rw [placeholderRegex, matches_literal]
  constructor
  · rintro ⟨t₁, m, rfl, rfl, h⟩
    obtain ⟨c, t₂, m, rfl, rfl, hc, h₁⟩ := matches_one.mp h
    obtain ⟨ds, t', k, rfl, hds, rfl, h₂⟩ := matches_many.mp h₁
    obtain rfl := matches_nil.mp h₂
    refine ⟨placeholderStem ++ c :: ds, t', ⟨c :: ds, List.cons_ne_nil _ _, List.forall_mem_cons.mpr ⟨hc, hds⟩, rfl⟩,
      (List.append_assoc placeholderStem (c :: ds) t').symm, ?_⟩
    rw [List.length_append, List.length_cons, Nat.add_zero]
  · rintro ⟨w, t', ⟨ds, hne, hds, rfl⟩, rfl, rfl⟩
    cases ds with
    | nil => exact absurd rfl hne
    | cons c ds =>
      obtain ⟨hc, hds⟩ := List.forall_mem_cons.mp hds
      refine ⟨_, ds.length + 1, List.append_assoc .., by rw [List.length_append, List.length_cons], ?_⟩
      exact .one hc (matches_many.mpr ⟨ds, t', 0, rfl, hds, rfl, .nil _ _⟩)

theorem isPlaceholder_of_run {b : Option Char} {t : Text} {n : ℕ} (h : placeholderRegex.run b t = some n) :
    IsPlaceholder (t.take n) := by
  obtain ⟨w, t', hw, rfl, rfl⟩ := placeholder_matches.mp (matches_of_run h)
  rwa [List.take_left]

/-- A placeholder is found up to its last digit. -/
theorem run_placeholder {w t : Text} (hw : IsPlaceholder w) (ht : t.head?.any digit = false) (b : Option Char) :
    placeholderRegex.run b (w ++ t) = some w.length := by
  obtain ⟨n, hn⟩ := Option.isSome_iff_exists.mp (run_isSome (placeholder_matches.mpr ⟨w, t, hw, rfl, rfl⟩) (b := b))
  obtain ⟨w', t', hw', heq, rfl⟩ := placeholder_matches.mp (matches_of_run hn)
  have hedge := run_edge (p := digit) (.inl rfl) b _ _ hn
  rw [heq, List.drop_left] at hedge
  obtain ⟨ds, -, hds, rfl⟩ := hw
  obtain ⟨ds', -, hds', rfl⟩ := hw'
  rw [List.append_assoc, List.append_assoc] at heq
  have hrun : (ds ++ t).takeWhile digit = ds := RunAt.takeWhile_eq (b := none) ⟨rfl, hds, ht⟩
  have hrun' : (ds' ++ t').takeWhile digit = ds' := RunAt.takeWhile_eq (b := none) ⟨rfl, hds', hedge⟩
  rw [List.append_cancel_left heq, hrun'] at hrun
  rw [hn, hrun]

/-! ## What is hidden -/

/-- **What is hidden starts with the last `SPEECHER`**, and a placeholder at its start is all of it. -/
theorem shownText_spec (s : Text) : ∃ hidden, s = shownText s ++ hidden ∧
    (hidden = [] ∨ speecher <+: hidden ∧ (∀ x y, hidden = x ++ y → x ≠ [] → ¬ speecher <+: y) ∧
      ∀ n, placeholderRegex.run (shownText s).getLast? hidden = some n → n = hidden.length) := by
  rw [shownText]
  cases hlast : lastIndexOf speecher s with
  | none => exact ⟨[], (List.append_nil s).symm, .inl rfl⟩
  | some tail =>
    obtain ⟨hat, hle, hafter⟩ := lastIndexOf_spec hlast
    have hlength : (s.drop tail).length = s.length - tail := List.length_drop
    have hlater : ∀ x y, s.drop tail = x ++ y → x ≠ [] → ¬ speecher <+: y := by
      intro x y hxy hx
      have hpos := List.length_pos_of_ne_nil hx
      have hsum := congrArg List.length hxy
      rw [hlength, List.length_append] at hsum
      have := hafter (tail + x.length) (Nat.lt_add_of_pos_right hpos) (by omega)
      rwa [← List.drop_drop, hxy, List.drop_left] at this
    dsimp only
    cases hrun : placeholderRegex.run (s.take tail).getLast? (s.drop tail) with
    | none =>
      refine ⟨s.drop tail, (List.take_append_drop ..).symm, .inr ⟨hat, hlater, fun n hn => ?_⟩⟩
      exact absurd (hrun.symm.trans hn) nofun
    | some length =>
      dsimp only
      split
      · rename_i hend
        refine ⟨s.drop tail, (List.take_append_drop ..).symm, .inr ⟨hat, hlater, fun n hn => ?_⟩⟩
        have : length = n := Option.some.inj (hrun.symm.trans hn)
        omega
      · exact ⟨[], (List.append_nil s).symm, .inl rfl⟩

/-- A placeholder in a text is shown whole, unless the text ends with it. -/
theorem shownText_keeps {v w t : Text} (hw : IsPlaceholder w) (hne : t ≠ []) (ht : t.head?.any digit = false) :
    ∃ t₁, shownText (v ++ (w ++ t)) = v ++ (w ++ t₁) ∧ t₁ <+: t := by
  obtain ⟨hidden, heq, hhidden⟩ := shownText_spec (v ++ (w ++ t))
  generalize shownText (v ++ (w ++ t)) = shown at heq hhidden
  rcases hhidden with rfl | ⟨hstart, hlater, hall⟩
  · exact ⟨t, by rw [heq, List.append_nil], List.prefix_rfl⟩
  · have hwhole : hidden ≠ w ++ t := by
      rintro rfl
      have := hall _ (run_placeholder hw ht _)
      rw [List.length_append] at this
      have := List.length_pos_of_ne_nil hne
      omega
    rcases List.append_eq_append_iff.mp heq with ⟨a, hshown, hrest⟩ | ⟨a, -, hrest⟩
    · rcases List.append_eq_append_iff.mp hrest with ⟨x, ha, hx⟩ | ⟨x, ha, hx⟩
      · exact ⟨x, by rw [hshown, ha], hx ▸ List.prefix_append ..⟩
      · cases x with
        | nil => exact ⟨[], by rw [hshown, ha, List.append_nil, List.append_nil], List.nil_prefix⟩
        | cons c x =>
          -- What is hidden starts inside the placeholder.
          cases a with
          | nil => exact absurd (hx.trans (congrArg (· ++ t) ha.symm)) hwhole
          | cons d a =>
            have hc : c ∈ w.tail := by
              rw [ha]
              exact List.mem_append_right a List.mem_cons_self
            refine absurd ?_ (hw.ne_S c hc)
            obtain ⟨z, hz⟩ := hstart
            rw [hx] at hz
            exact (List.cons.inj hz).1.symm
    · cases a with
      | nil => exact absurd hrest hwhole
      | cons d a => exact absurd (hw.speecher_prefix t) (hlater _ _ hrest (List.cons_ne_nil d a))

/-! ## What is shown -/

/-- The last `SPEECHER` of a text begins a placeholder, or the text ends before one is whole. -/
def Streaming (s : Text) : Prop :=
  ∀ a b, s = a ++ b → speecher <+: b → (∀ x y, b = x ++ y → x ≠ [] → ¬ speecher <+: y) →
    b <+: placeholderStem ∨ ∃ w t, IsPlaceholder w ∧ b = w ++ t

/-- **How a text is previewed**: what is shown of it is cut into characters, shown as they are, and placeholders, shown
as the result shows them, and has each placeholder of the result that the text does not end with. Where the last
`SPEECHER` is of a placeholder, nothing is hidden but a placeholder at the end, whole or not. -/
structure Shows (replacements : Text → Option Text) (s preview : Text) (shown : List (Piece Char)) (hidden : Text) :
    Prop where
  text : s = flat shown ++ hidden
  preview : preview = substitute replacements shown
  placeholders : ∀ w ∈ hits shown, IsPlaceholder w
  restored : ∀ ps w ps', exactPlaceholderRegex.pieces none s = ps ++ .hit w :: ps' → flat ps' ≠ [] →
    ∃ qs qs', shown = qs ++ .hit w :: qs' ∧ flat qs = flat ps
  hidden : Streaming s → hidden <+: placeholderStem ∨ IsPlaceholder hidden

/-- A pattern that finds placeholders, and those no word character touches. -/
structure Previews (pattern : Pattern Char) : Prop where
  within : Within wordChar pattern
  sound : ∀ {b t n}, pattern.run b t = some n → IsPlaceholder (t.take n)
  run : ∀ {b w t}, b.any wordChar = false → IsPlaceholder w → t.head?.any wordChar = false →
    pattern.run b (w ++ t) = some w.length

theorem digit_of_head {t : Text} (h : t.head?.any wordChar = false) : t.head?.any digit = false := by
  cases t with
  | nil => rfl
  | cons c t => exact Bool.eq_false_iff.mpr fun hc => Bool.false_ne_true (h.symm.trans (wordChar_of_digit hc))

theorem previews_exact : Previews exactPlaceholderRegex where
  within := exactPlaceholder_edged.within
  sound h := by
    obtain ⟨-, ds, t', hne, hds, rfl, -, rfl⟩ := exactPlaceholder_matches.mp (matches_of_run h)
    rw [← List.append_assoc, List.take_left]
    exact ⟨ds, hne, hds, rfl⟩
  run hb hw ht := by
    obtain ⟨ds, hne, hds, rfl⟩ := hw
    exact run_exactPlaceholder ds hb hne hds ht

theorem previews_any : Previews placeholderRegex where
  within := by
    rw [placeholderRegex, Within, List.forall_mem_append]
    refine ⟨within_literal (List.all_eq_true.mp (by decide)), ?_⟩
    simp only [List.forall_mem_cons, Atom.Within, List.not_mem_nil, false_implies, implies_true, and_true]
    exact ⟨fun _ => wordChar_of_digit, fun _ => wordChar_of_digit⟩
  sound := isPlaceholder_of_run
  run _ hw ht := run_placeholder hw (digit_of_head ht) _

theorem substitute_known (f : Text → Option Text) (ps : List (Piece Char)) :
    substitute (fun w => some ((f w).getD w)) ps = substitute f ps := by
  induction ps with
  | nil => rfl
  | cons p ps ih => cases p <;> simp only [substitute, ih, Option.getD_some]

/-- **A preview shows each placeholder the result has, unless the text ends with it**, and hides no more than may still
stream in. -/
theorem Previews.shows {pattern : Pattern Char} (h : Previews pattern) (replacements : Text → Option Text) (s : Text) :
    ∃ shown hidden, Shows replacements s (previewWith pattern replacements s) shown hidden := by
  obtain ⟨hidden, heq, hhidden⟩ := shownText_spec s
  refine ⟨pattern.pieces none (shownText s), hidden, ?_, ?_, ?_, ?_, ?_⟩
  · rwa [flat_pieces]
  · rw [previewWith, splice_globalMatch, substitute_known]
  · intro w hw
    obtain ⟨qs, qs', hqs⟩ := mem_hits.mp hw
    obtain ⟨-, hrun⟩ := hit_pieces _ _ _ qs w qs' hqs
    have := h.sound hrun
    rwa [List.take_left] at this
  · intro ps w ps' hps hne
    obtain ⟨hne', hrun⟩ := hit_pieces _ _ _ ps w ps' hps
    have hw := previews_exact.sound hrun
    rw [List.take_left] at hw
    obtain ⟨-, hedges⟩ := hit_exact hps
    obtain ⟨t₁, hshown, hpre⟩ := shownText_keeps (v := flat ps) hw hne (digit_of_head hedges.ahead)
    have hahead : t₁.head?.any wordChar = false := by
      obtain ⟨t₂, ht₂⟩ := hpre
      cases t₁ with
      | nil => rfl
      | cons c t₁ =>
        have := hedges.ahead
        rwa [← ht₂] at this
    obtain ⟨qs, hflat, hqs⟩ := pieces_split h.within (flat ps) (w ++ t₁) none hedges.behind
    refine ⟨qs, pattern.pieces w.getLast? t₁, ?_, hflat⟩
    rw [eq_of_pieces hps, hshown, hqs, pieces_hit_append hne' (h.run hedges.behind hw hahead)]
  · intro hstreaming
    rcases hhidden with rfl | ⟨hstart, hlater, hall⟩
    · exact .inl List.nil_prefix
    · rcases hstreaming _ _ heq hstart hlater with hpre | ⟨w, t, hw, rfl⟩
      · exact .inl hpre
      · obtain ⟨n, hn⟩ := Option.isSome_iff_exists.mp
          (run_isSome (placeholder_matches.mpr ⟨w, t, hw, rfl, rfl⟩) (b := (shownText s).getLast?))
        have := isPlaceholder_of_run hn
        rw [hall n hn, List.take_length] at this
        exact .inr this

/-- **The preview agrees with the result**, on the desktop and on the phone. -/
theorem preview_shows (s : Text) :
    (∀ placeholders, restoredText s placeholders =
        substitute (replacementsByPlaceholder placeholders) (exactPlaceholderRegex.pieces none s) ∧
      ∃ shown hidden, Shows (replacementsByPlaceholder placeholders) s
        (restorePlaceholdersForPreview s (replacementsByPlaceholder placeholders)) shown hidden) ∧
      ∀ r : Android.ReplacedTranscript,
        ∃ shown hidden, Shows (replacementsByPlaceholder r.placeholders) s (r.preview s) shown hidden :=
  ⟨fun placeholders => ⟨restoredText_eq s placeholders, previews_exact.shows _ s⟩, fun _ => previews_any.shows _ s⟩

/-- A placeholder that a text ends with is restored and not shown. -/
theorem hidden_at_the_end :
    restorePlaceholders .basic (placeholder 0) [⟨placeholder 0, ['x']⟩] [] = ⟨true, ['x']⟩ ∧
      restorePlaceholdersForPreview (placeholder 0) (replacementsByPlaceholder [⟨placeholder 0, ['x']⟩]) = [] := by
  decide

end Speecher
