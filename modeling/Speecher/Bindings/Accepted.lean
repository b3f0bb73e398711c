import Speecher.Bindings.Android
import Speecher.Bindings.RoundTrip

/-!
# What an accepted refinement holds

Refined text is whatever a model wrote. Accepting it promises that no snippet was changed or
invented: a placeholder in it is one that refinement was given or the source's own text, and
placeholder-like text in any other form, changed, cut off, glued or reworded, is the source's own.
A given placeholder may be missing, as the user may have taken the words back; those that occur are
replaced.

The argument is the same for both ports (`exact_left`): an exact placeholder that no match produced
keeps its place in what is left of the refined text, still with no word character on either side,
so it is one of the placeholder-like runs there.
-/

namespace Speecher

open Pattern Piece

/-- What acceptance promises of a refined text and the text restored from it, given a port's scans for
placeholder-like text. -/
structure Accepted (runs indexes : Text → List Text) (placeholders : List BindingPlaceholder)
    (source refined text : Text) : Prop where
  /-- Every placeholder in the refined text was given or is the source's own text. -/
  given_or_source : ∀ w ∈ exactPlaceholderRegex.captures refined,
    (∃ p ∈ placeholders, p.placeholder = w) ∨ w ∈ runs source
  /-- No given placeholder is the source's own text. -/
  given_not_source : ∀ p ∈ placeholders, p.placeholder ∉ runs source
  /-- Placeholder-like text besides the given placeholders is the source's own. -/
  runs_source : ∀ w ∈ runs (residueText refined placeholders), w ∈ runs source
  indexes_source : ∀ i ∈ indexes (residueText refined placeholders), i ∈ indexes source
  /-- The refined text with its given placeholders replaced, and nothing else changed. -/
  restored : text = substitute (replacementsByPlaceholder placeholders)
    (exactPlaceholderRegex.pieces none refined)
  /-- The replacement of each given placeholder that occurs. -/
  replaced : ∀ p ∈ placeholders, p.placeholder ∈ exactPlaceholderRegex.captures refined →
    p.replacement <:+: text

/-- An exact placeholder in a text is `SPEECHER_BINDING_` and digits, no word character around it. -/
theorem hit_exact {b : Option Char} {t w : Text} {ps ps' : List (Piece Char)}
    (h : exactPlaceholderRegex.pieces b t = ps ++ .hit w :: ps') :
    (∃ ds, w = placeholderStem ++ ds) ∧ RunAt wordChar (behind b (flat ps)) w (flat ps') := by
  obtain ⟨-, hrun⟩ := hit_pieces _ _ _ ps w ps' h
  obtain ⟨hb, ds, t', -, hds, ht, hedge, hlen⟩ := exactPlaceholder_matches.mp (matches_of_run hrun)
  rw [← List.append_assoc] at ht
  obtain ⟨rfl, rfl⟩ := List.append_inj ht hlen
  refine ⟨⟨ds, rfl⟩, hb, List.forall_mem_append.mpr ⟨wordChar_of_mem_stem, fun c hc => ?_⟩, hedge⟩
  exact wordChar_of_digit (hds c hc)

/-- A text that starts with no word character still does after its placeholders are rewritten. -/
theorem head?_substitute (f : Text → Option Text) {b : Option Char} {t : Text} {ps ps' : List (Piece Char)}
    (h : exactPlaceholderRegex.pieces b t = ps ++ ps') (hedge : (flat ps').head?.any wordChar = false) :
    (substitute f ps').head?.any wordChar = false := by
  cases ps' with
  | nil => rfl
  | cons q qs =>
    cases q with
    | kept c => exact hedge
    | hit w =>
      obtain ⟨⟨ds, rfl⟩, hrun⟩ := hit_exact h
      have hS : wordChar 'S' = false := hedge
      exact absurd hS (by decide)

/-- A text that ends with no word character still does after its placeholders are rewritten. -/
theorem getLast?_substitute (f : Text → Option Text) {b : Option Char} {t : Text} {ps ps' : List (Piece Char)}
    (h : exactPlaceholderRegex.pieces b t = ps ++ ps') (hedge : (flat ps).getLast?.any wordChar = false) :
    (substitute f ps).getLast?.any wordChar = false := by
  rcases ps.eq_nil_or_concat' with rfl | ⟨qs, q, rfl⟩
  · rfl
  · rw [flat_append] at hedge
    rw [substitute_append]
    cases q with
    | kept c =>
      rw [show flat [Piece.kept c] = [c] from rfl, List.getLast?_append_of_ne_nil _ (List.cons_ne_nil _ _)] at hedge
      rw [show substitute f [Piece.kept c] = [c] from rfl,
        List.getLast?_append_of_ne_nil _ (List.cons_ne_nil _ _)]
      exact hedge
    | hit w =>
      rw [List.append_assoc] at h
      obtain ⟨⟨ds, rfl⟩, hrun⟩ := hit_exact h
      have hne : placeholderStem ++ ds ≠ [] := List.append_ne_nil_of_left_ne_nil (List.cons_ne_nil _ _) _
      rw [show flat [Piece.hit (placeholderStem ++ ds)] = placeholderStem ++ ds from List.append_nil _,
        List.getLast?_append_of_ne_nil _ hne, List.getLast?_eq_some_getLast hne, Option.any_some,
        hrun.all _ (List.getLast_mem hne)] at hedge
      cases hedge

/-- **An exact placeholder that is not rewritten is left as a run of its own.** -/
theorem exact_left {f : Text → Option Text} {refined w : Text}
    (hw : w ∈ exactPlaceholderRegex.captures refined) (hf : f w = none) :
    w ∈ exactRunRegex.captures (substitute f (exactPlaceholderRegex.pieces none refined)) := by
  rw [captures_eq] at hw
  obtain ⟨ps, ps', hps⟩ := mem_hits.mp hw
  obtain ⟨⟨ds, rfl⟩, hrun⟩ := hit_exact hps
  have hbehind : (flat ps).getLast?.any wordChar = false := by
    have := hrun.behind
    rwa [behind, Option.or_none] at this
  have hps' : exactPlaceholderRegex.pieces none refined =
      (ps ++ [.hit (placeholderStem ++ ds)]) ++ ps' := by
    rw [hps, List.append_assoc]
    rfl
  rw [hps, substitute_append, substitute, hf, Option.getD_none]
  refine mem_exactRuns ⟨getLast?_substitute f hps hbehind, hrun.all, ?_⟩ ⟨[], '_' :: ds, rfl⟩
  exact head?_substitute f hps' hrun.ahead

/-- The placeholders of processing a transcript: each names its own replacement. -/
def Numbers (placeholders : List BindingPlaceholder) : Prop :=
  ∃ found : List BindingMatch,
    placeholders = found.mapIdx fun index m => ⟨placeholder index, m.rule.replacement⟩

theorem Numbers.lookup {placeholders : List BindingPlaceholder} (h : Numbers placeholders)
    {p : BindingPlaceholder} (hp : p ∈ placeholders) :
    replacementsByPlaceholder placeholders p.placeholder = some p.replacement := by
  obtain ⟨found, rfl⟩ := h
  obtain ⟨i, hi, rfl⟩ := List.mem_mapIdx.mp hp
  exact replacementsByPlaceholder_mapIdx (List.getElem?_eq_getElem hi)

theorem mem_of_lookup {placeholders : List BindingPlaceholder} {w r : Text}
    (h : replacementsByPlaceholder placeholders w = some r) : ∃ p ∈ placeholders, p.placeholder = w := by
  obtain ⟨p, hp, -⟩ := Option.map_eq_some_iff.mp h
  exact ⟨p, List.mem_reverse.mp (List.mem_of_find?_eq_some hp), by simpa using List.find?_some hp⟩

/-- Acceptance, from the three checks a port makes, its scan finding what the exact run pattern finds. -/
theorem accepted_of_checks {runs indexes : Text → List Text} {placeholders : List BindingPlaceholder}
    {source refined : Text} (hexact : ∀ t, exactRunRegex.captures t ⊆ runs t) (hnumbers : Numbers placeholders)
    (hgiven : ∀ p ∈ placeholders, p.placeholder ∉ runs source)
    (hruns : ∀ w ∈ runs (residueText refined placeholders), w ∈ runs source)
    (hindexes : ∀ i ∈ indexes (residueText refined placeholders), i ∈ indexes source) :
    Accepted runs indexes placeholders source refined (restoredText refined placeholders) where
  given_or_source w hw := by
    cases hlook : replacementsByPlaceholder placeholders w with
    | some r => exact .inl (mem_of_lookup hlook)
    | none =>
      refine .inr (hruns w (hexact _ ?_))
      rw [residueText_eq]
      exact exact_left hw (by rw [hlook]; rfl)
  given_not_source := hgiven
  runs_source := hruns
  indexes_source := hindexes
  restored := restoredText_eq refined placeholders
  replaced p hp hcaptured := by
    rw [captures_eq] at hcaptured
    obtain ⟨ps, ps', hps⟩ := mem_hits.mp hcaptured
    rw [restoredText_eq, hps, substitute_append, substitute, hnumbers.lookup hp]
    exact ⟨_, _, List.append_assoc ..⟩

/-- **What an accepted refinement holds, on the desktop and on Android**: for every prepared transcript
and every refined text, with any source text. -/
theorem accepted_of_restore (u : Unicode) (v : Android.Digits) (t refined source : Text)
    (bindings : List BindingRule) (target : Selection) :
    (let placeholders := (prepare u t bindings target).bindingResult.placeholders
      let restored := restorePlaceholders u refined placeholders source
      restored.ok = true → Accepted placeholderLikeRuns (spokenPlaceholderIndexes u) placeholders source
        refined restored.text) ∧
    (let placeholders := (Android.replaceSpoken u t bindings).placeholders
      ∀ text, Android.restorePlaceholders u v placeholders refined source = some text →
        Accepted Android.placeholderLikeRuns (Android.spokenPlaceholderIndexes u v) placeholders source
          refined text) := by
  refine ⟨fun hok => ?_, fun text htext => ?_⟩
  · rw [restore_text u hok]
    obtain ⟨hgiven, hruns, hindexes⟩ := (restore_ok_iff u).mp hok
    exact accepted_of_checks (fun _ => List.subset_append_left ..) ⟨_, process_placeholders u t _⟩ hgiven hruns
      hindexes
  · simp only [Android.restorePlaceholders] at htext
    split_ifs at htext with h₁ h₂ h₃
    obtain rfl := Option.some.inj htext
    simp only [List.any_eq_true, List.contains_iff_mem, not_exists, not_and] at h₁
    simp only [Bool.not_eq_true', Bool.not_eq_false, List.all_eq_true, List.contains_iff_mem] at h₂ h₃
    exact accepted_of_checks (fun _ => List.subset_append_left ..) ⟨_, rfl⟩ h₁ h₂ h₃

/-- The answer "to SPEECHER_BINDING_0" is accepted on both ports. -/
theorem accepted_email :
    let t := "send my email".toList
    let refined := "to SPEECHER_BINDING_0".toList
    let bindings : List BindingRule := [⟨"my email".toList, "a@b.c".toList⟩]
    let placeholders := (prepare .basic t bindings .none).bindingResult.placeholders
    let placeholders' := (Android.replaceSpoken .basic t bindings).placeholders
    Accepted placeholderLikeRuns (spokenPlaceholderIndexes .basic) placeholders t refined
        (restorePlaceholders .basic refined placeholders t).text ∧
      Accepted Android.placeholderLikeRuns (Android.spokenPlaceholderIndexes .basic .basic) placeholders' t
        refined "to a@b.c".toList := by
  intro t refined bindings placeholders placeholders'
  have h := accepted_of_restore .basic .basic t refined t bindings .none
  exact ⟨h.1 (by decide), h.2 _ (by decide)⟩

/-- A placeholder may be missing, and one may be the source's own: with "my email" replaced, both
the answer "hello" and, for a transcript that holds SPEECHER_BINDING_7, the answer
"SPEECHER_BINDING_7" are accepted. -/
theorem accepted_without_placeholder :
    let p := prepare .basic "my email".toList [⟨"my email".toList, "a@b.c".toList⟩] .none
    let q := prepare .basic "SPEECHER_BINDING_7 my email".toList [⟨"my email".toList, "a@b.c".toList⟩] .none
    (restorePlaceholders .basic "hello".toList p.bindingResult.placeholders p.refinementSource =
        ⟨true, "hello".toList⟩ ∧
      (⟨"SPEECHER_BINDING_0".toList, "a@b.c".toList⟩ : BindingPlaceholder) ∈ p.bindingResult.placeholders ∧
      "SPEECHER_BINDING_0".toList ∉ exactPlaceholderRegex.captures "hello".toList) ∧
    (restorePlaceholders .basic "SPEECHER_BINDING_7".toList q.bindingResult.placeholders q.refinementSource =
        ⟨true, "SPEECHER_BINDING_7".toList⟩ ∧
      "SPEECHER_BINDING_7".toList ∉ q.bindingResult.placeholders.map (·.placeholder)) := by
  decide

end Speecher
