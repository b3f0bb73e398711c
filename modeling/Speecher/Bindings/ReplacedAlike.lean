import Mathlib.Data.List.Flatten
import Speecher.Bindings.MatchChoice
import Speecher.Settings.Vocabulary

/-!
# The two ports replace alike

The desktop keeps compiled rules and candidates apart and orders them by a comparator that looks at the rules' order,
Android keeps one list of matches and a stable sort; the desktop drops the unusable rules before it looks for what the
directives keep literal, Android while it looks. `matchesIn` is what both find, on usable rules whose phrases are
normalized, so the two can differ only where a rule's text is blank to one and not to the other (`BlankAlike`).

* `findMatches_erase`, `android_findMatches_erase`: the matches of both, up to how a match's phrase was trimmed.
* `targets_eq`: both take the same matches for what a directive names.
* `replaced_alike`: both replace the same, and give refinement the same text with the same placeholders.
* `validateRules_accounts`: the rules said to be unusable are those that match nothing.
-/

namespace Speecher

variable (u : Unicode)

/-! ## Matches -/

/-- A match with its rule's phrase normalized. -/
def BindingMatch.erase (m : BindingMatch) : BindingMatch := { m with rule := eraseRule u m.rule }

/-- Where a normalized rule's words stand among words, as matches. -/
def placesOf (found : List Token) (rule : BindingRule) : List BindingMatch :=
  let phrase := rule.phrase.splitOn ' '
  ((List.range (found.length + 1 - phrase.length)).filter fun start =>
    (List.range phrase.length).all fun i => (found[start + i]?).map Token.text == phrase[i]?).map fun start =>
      ⟨rule, start, phrase.length, (found.getD start default).start,
        (found.getD (start + phrase.length - 1) default).stop⟩

theorem map_matchesOf (found : List Token) (rule : BindingRule) :
    (Android.matchesOf u found rule).map (BindingMatch.erase u) = placesOf found (eraseRule u rule) := by
  rw [Android.matchesOf, placesOf, List.map_map, normalizedPhrase_eq]
  rfl

/-- The words kept with a compiled rule are its phrase's. -/
theorem tokens_of_mem (rules : List BindingRule) : ∀ (index : ℕ) (seen : List Text),
    ∀ c ∈ compileFrom u rules index seen, c.tokens = normalizedTokens u c.rule.phrase := by
  induction rules with
  | nil => exact fun _ _ _ h => nomatch h
  | cons rule rest ih =>
    intro index seen c hc
    rw [compileFrom] at hc
    split at hc
    · exact ih _ _ c hc
    · rcases List.mem_cons.mp hc with rfl | hc
      · rfl
      · exact ih _ _ c hc

theorem map_candidatesOf {ts : List Token} {c : CompiledRule} (htokens : c.tokens = normalizedTokens u c.rule.phrase)
    (hne : c.tokens ≠ []) :
    (candidatesOf ts c).map (fun d => (d.accept ts).erase u) = placesOf ts (eraseRule u c.rule) := by
  have hphrase : (eraseRule u c.rule).phrase.splitOn ' ' = c.tokens := by
    rw [eraseRule_phrase, htokens]
    exact splitOn_normalizedPhrase u (htokens ▸ hne)
  rw [candidatesOf, placesOf, hphrase, List.map_map]
  refine congrArg₂ List.map rfl (List.filter_congr fun start hstart => ?_)
  rw [sequenceMatches, decide_eq_true, Bool.true_and]
  have := List.mem_range.mp hstart
  have := List.length_pos_of_ne_nil hne
  omega

theorem map_candidates (ts : List Token) (rules : List BindingRule) :
    (candidates ts (compileRules u rules)).map (fun d => (d.accept ts).erase u) =
      (usable qtBlank (rules.map (eraseRule u)) []).flatMap (placesOf ts) := by
  rw [candidates, List.map_flatMap, ← map_compileFrom u rules 0 [], List.flatMap_map]
  refine List.flatMap_congr fun c hc => ?_
  exact map_candidatesOf u (tokens_of_mem u rules 0 [] c hc) (tokens_ne_nil u hc)

theorem map_check (found : List Token) (rules : List BindingRule) :
    ((Android.check u rules).1.flatMap (Android.matchesOf u found)).map (BindingMatch.erase u) =
      (usable Android.isBlank (rules.map (eraseRule u)) []).flatMap (placesOf found) := by
  have hcheck := map_checkFrom u rules 0 []
  rw [List.map_flatMap, ← show _ = usable _ _ [] from hcheck, List.flatMap_map]
  exact List.flatMap_congr fun rule _ => map_matchesOf u found rule

/-- The longer candidate comes first, then the earlier. -/
theorem before_eq (ts : List Token) {a b : Candidate} (h : a.rule.order ≤ b.rule.order) :
    b.before a = Android.longerFirst ((b.accept ts).erase u) ((a.accept ts).erase u) := by
  rw [Candidate.before, Android.longerFirst]
  change _ = if b.tokenCount ≠ a.tokenCount then _ else _
  split_ifs with hcount hstart
  · rfl
  · rfl
  · have horder : ¬b.rule.order < a.rule.order := Nat.not_lt.mpr h
    have hstarts : ¬b.startToken < a.startToken := Nat.not_lt.mpr (not_not.mp hstart).ge
    exact (decide_eq_false horder).trans (decide_eq_false hstarts).symm

theorem candidates_ordered (ts : List Token) (rules : List BindingRule) :
    (candidates ts (compileRules u rules)).Pairwise fun a b => a.rule.order ≤ b.rule.order := by
  refine List.pairwise_flatMap.mpr ⟨fun rule _ => ?_, ?_⟩
  · refine List.pairwise_of_forall_mem_list fun a ha b hb => ?_
    rw [(mem_candidatesOf.mp ha).1, (mem_candidatesOf.mp hb).1]
  · refine (compileFrom_spec u rules 0 []).2.imp fun {r r'} hord a ha b hb => ?_
    rw [(mem_candidatesOf.mp ha).1, (mem_candidatesOf.mp hb).1]
    exact hord.le

theorem sortBy_map {α β : Type*} (f : α → β) (before : β → β → Bool) (l : List α) :
    (sortBy (fun a b => before (f a) (f b)) l).map f = sortBy before (l.map f) :=
  List.map_insertionSort _ _ f l fun _ _ _ _ => Iff.rfl

theorem map_sortBy_start (l : List BindingMatch) :
    (sortBy (fun left right : BindingMatch => left.start < right.start) l).map (BindingMatch.erase u) =
      sortBy (fun left right : BindingMatch => left.start < right.start) (l.map (BindingMatch.erase u)) :=
  sortBy_map (BindingMatch.erase u) (fun left right => left.start < right.start) l

theorem map_sortBy_longer (l : List BindingMatch) :
    (sortBy Android.longerFirst l).map (BindingMatch.erase u) =
      sortBy Android.longerFirst (l.map (BindingMatch.erase u)) :=
  sortBy_map (BindingMatch.erase u) Android.longerFirst l

theorem map_acceptFrom (ts : List Token) (l : List Candidate) : ∀ occupied : List Bool,
    (acceptFrom ts occupied l).map (BindingMatch.erase u) =
      Android.acceptFree occupied (l.map fun d => (d.accept ts).erase u) := by
  induction l with
  | nil => exact fun _ => rfl
  | cons c l ih =>
    intro occupied
    have hspan : List.range' c.startToken c.tokenCount = (List.range c.tokenCount).map (c.startToken + ·) :=
      List.range'_eq_map_range ..
    have hoverlaps : (List.range' c.startToken c.tokenCount).any (occupied.getD · false) = c.overlaps occupied := by
      rw [hspan, List.any_map]
      rfl
    have hoccupy : (List.range' c.startToken c.tokenCount).foldl (fun taken i => taken.set i true) occupied =
        c.occupy occupied := by
      rw [hspan, List.foldl_map]
      rfl
    rw [acceptFrom, List.map_cons, Android.acceptFree]
    change _ = if (List.range' c.startToken c.tokenCount).any (occupied.getD · false) = true then _ else
      _ :: Android.acceptFree ((List.range' c.startToken c.tokenCount).foldl _ occupied) _
    rw [hoverlaps, hoccupy]
    split_ifs
    · exact ih occupied
    · rw [List.map_cons, ih]

theorem map_acceptFree (l : List BindingMatch) : ∀ taken : List Bool,
    (Android.acceptFree taken l).map (BindingMatch.erase u) =
      Android.acceptFree taken (l.map (BindingMatch.erase u)) := by
  induction l with
  | nil => exact fun _ => rfl
  | cons m l ih =>
    intro taken
    rw [Android.acceptFree, List.map_cons, Android.acceptFree]
    change List.map _ (if _ then _ else _) = if (List.range' m.startToken m.tokenCount).any (taken.getD · false) = true
      then _ else m.erase u :: Android.acceptFree ((List.range' m.startToken m.tokenCount).foldl _ taken) _
    split_ifs
    · exact ih taken
    · rw [List.map_cons, ih]

/-- The desktop's matches, without its shortcut for a text without words. -/
theorem findMatches_eq_sorted (t : Text) (rules : List BindingRule) :
    findMatches u t rules = sortBy (fun left right => left.start < right.start)
      (acceptFrom (tokenizeWithSpans u t) ((tokenizeWithSpans u t).map fun _ => false)
        (sortBy Candidate.before (candidatesIn u t rules))) := by
  have hfits : ∀ c ∈ sortBy Candidate.before (candidatesIn u t rules), c.Fits (tokenizeWithSpans u t).length :=
    fun c hc => fits_of_mem u ((sortBy_perm _ _).mem_iff.mp hc)
  rw [findMatches_eq, acceptedIn, ← acceptFrom_eq (occupies_nil (tokenizeWithSpans u t)) (by rintro _ ⟨⟩) hfits]
  rfl

/-- The matches of usable rules whose phrases are normalized. -/
def matchesIn (t : Text) (rules : List BindingRule) : List BindingMatch :=
  sortBy (fun left right => left.start < right.start)
    (Android.acceptFree ((tokenizeWithSpans u t).map fun _ => false)
      (sortBy Android.longerFirst (rules.flatMap (placesOf (tokenizeWithSpans u t)))))

/-- **What the desktop finds.** -/
theorem findMatches_erase (t : Text) (rules : List BindingRule) :
    (findMatches u t rules).map (BindingMatch.erase u) =
      matchesIn u t (usable qtBlank (rules.map (eraseRule u)) []) := by
  have hsorted : (sortBy Candidate.before (candidatesIn u t rules)).map
        (fun d => (d.accept (tokenizeWithSpans u t)).erase u) =
      sortBy Android.longerFirst ((candidatesIn u t rules).map
        fun d => (d.accept (tokenizeWithSpans u t)).erase u) := by
    rw [candidatesIn, sortBy_congr ((candidates_ordered u (tokenizeWithSpans u t) rules).imp fun hab =>
      before_eq u (tokenizeWithSpans u t) hab)]
    exact sortBy_map (fun d : Candidate => (d.accept (tokenizeWithSpans u t)).erase u) Android.longerFirst _
  rw [findMatches_eq_sorted, map_sortBy_start, map_acceptFrom, hsorted, matchesIn, ← map_candidates]
  rfl

/-- **What Android finds.** -/
theorem android_findMatches_erase (t : Text) (rules : List BindingRule) :
    (Android.findMatches u t rules).map (BindingMatch.erase u) =
      matchesIn u t (usable Android.isBlank (rules.map (eraseRule u)) []) := by
  rw [Android.findMatches, map_sortBy_start, map_acceptFree, map_sortBy_longer, map_check, words_eq]
  rfl

/-- The rules of matches have words. -/
theorem phrase_ne_nil_of_mem {blank : Text → Bool} {t : Text} {rules : List BindingRule} {m : BindingMatch}
    (h : m ∈ matchesIn u t (usable blank rules [])) : m.rule.phrase ≠ [] := by
  have hfree : ∀ (l : List BindingMatch) (taken : List Bool), m ∈ Android.acceptFree taken l → m ∈ l := by
    intro l
    induction l with
    | nil => exact fun _ h => h
    | cons a l ih =>
      intro taken hm
      rw [Android.acceptFree] at hm
      split_ifs at hm
      · exact List.mem_cons_of_mem a (ih taken hm)
      · rcases List.mem_cons.mp hm with rfl | hm
        · exact List.mem_cons_self
        · exact List.mem_cons_of_mem a (ih _ hm)
  have hsorted := hfree _ _ ((sortBy_perm _ _).mem_iff.mp h)
  obtain ⟨rule, hrule, hplace⟩ := List.mem_flatMap.mp ((sortBy_perm _ _).mem_iff.mp hsorted)
  obtain ⟨start, -, rfl⟩ := List.mem_map.mp hplace
  exact ((usable_spec blank rules []).1 rule hrule).1

/-- The texts of rules with words are blank to both ports, or to neither. -/
def BlankAlike (rules : List BindingRule) : Prop :=
  ∀ rule ∈ rules, normalizedPhrase u rule.phrase ≠ [] → qtBlank rule.replacement = Android.isBlank rule.replacement

variable {u} {rules : List BindingRule}

theorem BlankAlike.usable_eq (h : BlankAlike u rules) :
    usable qtBlank (rules.map (eraseRule u)) [] = usable Android.isBlank (rules.map (eraseRule u)) [] := by
  refine usable_congr (fun rule hrule hne => ?_) []
  obtain ⟨rule, hmem, rfl⟩ := List.mem_map.mp hrule
  exact h rule hmem hne

/-- **The ports find the same matches**, up to how a match's phrase was trimmed. -/
theorem findMatches_alike (h : BlankAlike u rules) (t : Text) :
    (findMatches u t rules).map (BindingMatch.erase u) =
      (Android.findMatches u t rules).map (BindingMatch.erase u) := by
  rw [findMatches_erase, android_findMatches_erase, h.usable_eq]

/-- Validating the rules first changes no match. -/
theorem findMatches_validated (t : Text) (rules : List BindingRule) :
    (findMatches u t (validateRules u rules).rules).map (BindingMatch.erase u) =
      (findMatches u t rules).map (BindingMatch.erase u) := by
  have hvalid : (validateRules u rules).rules.map (eraseRule u) = usable qtBlank (rules.map (eraseRule u)) [] :=
    map_validateFrom u rules 0 []
  rw [findMatches_erase, findMatches_erase, hvalid, usable_usable]

/-! ## Directives -/

section Directives

variable {tokens : List Token}

/-- The words alone of a directive. -/
def DirectiveSpan.words (d : DirectiveSpan) : Android.Directive := ⟨d.startToken, d.endToken, d.targetFollowsAction⟩

theorem inSet_eq (set : List String) : Android.inSet (tokens.map Token.text) set = wordIn tokens set := by
  funext index
  rw [Android.inSet, wordIn, wordAt, List.getElem?_map]

theorem negationLength_eq (index : ℕ) :
    Android.negationLength (tokens.map Token.text) index = isNoBindNegationAt tokens index := by
  simp only [Android.negationLength, isNoBindNegationAt, inSet_eq]

theorem actionWord_eq (start : ℕ) :
    Android.actionWord (tokens.map Token.text) start = findBindingAction tokens start := by
  simp only [Android.actionWord, findBindingAction, inSet_eq, List.length_map] <;> rfl

/-- **The ports hear the same directives.** -/
theorem noBindDirectives_eq (t : Text) : Android.noBindDirectives u t =
    (findNoBindDirectiveSpans (tokenizeWithSpans u t)).map DirectiveSpan.words := by
  rw [Android.noBindDirectives, findNoBindDirectiveSpans, words_eq, List.map_filterMap]
  simp only [negationLength_eq, actionWord_eq, inSet_eq, List.length_map]
  refine List.filterMap_congr fun index _ => ?_
  rcases isNoBindNegationAt (tokenizeWithSpans u t) index with _ | count
  · rfl
  · rcases h : findBindingAction (tokenizeWithSpans u t) (index + count) with _ | action
    · simp [h]
    · simp [h, DirectiveSpan.words]

/-- The nearest of the matches still to come, or the one found so far where none of them is nearer. -/
def nearer (distance : BindingMatch → ℕ) (sofar : Option (BindingMatch × ℕ)) (rest : Option BindingMatch) :
    Option BindingMatch :=
  match sofar, rest with
  | none, rest => rest
  | some best, none => some best.1
  | some best, some m => if distance m < best.2 then some m else some best.1

theorem foldl_nearest {distance : BindingMatch → ℕ} {side : BindingMatch → Prop} [DecidablePred side]
    (found : List BindingMatch) : ∀ sofar : Option (BindingMatch × ℕ),
    (found.foldl (fun (nearest : Option (BindingMatch × ℕ)) m =>
      match (if side m then none else some (distance m)) with
      | none => nearest
      | some d => if d ≤ 8 && nearest.all (d < ·.2) then some (m, d) else nearest) sofar).map Prod.fst =
      nearer distance sofar (Android.minByOrNull distance
        ((found.filter fun m => !decide (side m)).filter fun m => distance m ≤ 8)) := by
  induction found with
  | nil => rintro (_ | best) <;> rfl
  | cons m found ih =>
    intro sofar
    rw [List.foldl_cons, ih]
    by_cases hside : side m
    · simp only [hside, if_true, List.filter_cons, decide_true, Bool.not_true, Bool.false_eq_true, if_false]
    · by_cases hfar : distance m ≤ 8
      · simp only [hside, if_false, List.filter_cons, decide_false, Bool.not_false, hfar, decide_true, if_true,
          Android.minByOrNull, Bool.true_and]
        rcases sofar with _ | ⟨best, d⟩
        · rcases Android.minByOrNull distance _ with _ | next
          · rfl
          · simp only [nearer, Option.all_none, if_true]
        · rcases Android.minByOrNull distance _ with _ | next
          · simp only [nearer, Option.all_some, decide_eq_true_eq]
            split_ifs <;> rfl
          · simp only [nearer, Option.all_some, decide_eq_true_eq]
            split_ifs <;> dsimp only <;> split_ifs <;> first | rfl | omega
      · simp only [hside, if_false, List.filter_cons, decide_false, Bool.not_false, hfar, if_true,
          Bool.false_and, Bool.false_eq_true]

/-- **The ports take the same matches for what a directive names.** -/
theorem targets_eq (found : List BindingMatch) (d : DirectiveSpan) :
    directiveTargets found d = Android.targets found d.words := by
  have hafter : nearestMatchAfterDirective found d = _ := foldl_nearest found none
  have hbefore : nearestMatchBeforeDirective found d = _ := foldl_nearest found none
  simp only [nearer, not_lt, ← decide_not] at hafter hbefore
  rw [directiveTargets, Android.targets, hafter, hbefore]
  rfl

theorem minByOrNull_erase {distance : BindingMatch → ℕ} (h : ∀ m, distance (m.erase u) = distance m)
    (l : List BindingMatch) :
    Android.minByOrNull distance (l.map (BindingMatch.erase u)) =
      (Android.minByOrNull distance l).map (BindingMatch.erase u) := by
  induction l with
  | nil => rfl
  | cons m l ih =>
    rw [List.map_cons, Android.minByOrNull, Android.minByOrNull, ih]
    rcases Android.minByOrNull distance l with _ | best
    · rfl
    · simp only [Option.map_some, h]
      split_ifs <;> rfl

theorem mem_of_minByOrNull {distance : BindingMatch → ℕ} {l : List BindingMatch} {m : BindingMatch}
    (h : m ∈ Android.minByOrNull distance l) : m ∈ l := by
  induction l with
  | nil => cases h
  | cons a l ih =>
    rw [Android.minByOrNull] at h
    rcases hbest : Android.minByOrNull distance l with _ | best
    · rw [hbest] at h
      cases h
      exact List.mem_cons_self
    · rw [hbest] at h
      dsimp only at h
      split_ifs at h
      · exact List.mem_cons_of_mem a (ih (hbest ▸ h))
      · cases h
        exact List.mem_cons_self

theorem mem_of_targets {found : List BindingMatch} {d : Android.Directive} {m : BindingMatch}
    (h : m ∈ Android.targets found d) : m ∈ found := by
  rw [Android.targets] at h
  split_ifs at h
  · exact List.mem_of_mem_filter h
  all_goals
    exact List.mem_of_mem_filter (List.mem_of_mem_filter (mem_of_minByOrNull (Option.mem_toList.mp h)))

theorem map_targets (found : List BindingMatch) (d : Android.Directive) :
    (Android.targets found d).map (BindingMatch.erase u) = Android.targets (found.map (BindingMatch.erase u)) d := by
  simp only [Android.targets, List.filter_map, List.isEmpty_map, apply_ite (List.map (BindingMatch.erase u))]
  refine if_congr Iff.rfl rfl (if_congr Iff.rfl ?_ ?_)
  all_goals
    rw [minByOrNull_erase fun _ => rfl, ← Option.toList_map]
    rfl

theorem flatMap_targets_erase (found : List BindingMatch) (ds : List Android.Directive) :
    ds.flatMap (Android.targets (found.map (BindingMatch.erase u))) =
      (ds.flatMap (Android.targets found)).map (BindingMatch.erase u) := by
  rw [List.map_flatMap]
  exact List.flatMap_congr fun d _ => (map_targets found d).symm

end Directives

/-! ## What the directives keep literal -/

theorem mem_foldl_append (ms : List BindingMatch) (p : Text) : ∀ phrases : List Text,
    p ∈ ms.foldl (fun phrases m => appendNoBindPhrase u phrases m.rule) phrases ↔
      p ∈ phrases ∨ p ≠ [] ∧ ∃ m ∈ ms, (m.erase u).rule.phrase = p := by
  induction ms with
  | nil => exact fun phrases => ⟨.inl, fun h => h.elim id fun h => nomatch h.2.choose_spec.1⟩
  | cons m ms ih =>
    intro phrases
    have hstep : p ∈ appendNoBindPhrase u phrases m.rule ↔ p ∈ phrases ∨ p ≠ [] ∧ (m.erase u).rule.phrase = p := by
      change _ ↔ _ ∨ _ ∧ normalizedPhrase u m.rule.phrase = p
      rw [appendNoBindPhrase]
      by_cases hnew : (!(normalizedPhrase u m.rule.phrase).isEmpty &&
          !phrases.contains (normalizedPhrase u m.rule.phrase)) = true
      · rw [if_pos hnew, List.mem_append, List.mem_singleton]
        simp only [Bool.and_eq_true, Bool.not_eq_true', List.isEmpty_eq_false_iff] at hnew
        exact or_congr Iff.rfl ⟨fun h => ⟨h ▸ hnew.1, h.symm⟩, fun h => h.2.symm⟩
      · rw [if_neg hnew]
        refine ⟨.inl, fun h => h.elim id fun ⟨hne, hp⟩ => ?_⟩
        subst hp
        by_contra hnot
        refine hnew (Bool.and_eq_true_iff.mpr ⟨?_, ?_⟩)
        · simpa using hne
        · simpa using hnot
    rw [List.foldl_cons, ih, hstep, or_assoc, ← and_or_left]
    simp only [List.mem_cons, exists_eq_or_imp]

/-- The normalized phrases that directives keep literal, from matches with normalized phrases. -/
def keptPhrases (t : Text) (found : List BindingMatch) : List Text :=
  ((Android.noBindDirectives u t).flatMap (Android.targets found)).map (·.rule.phrase)

theorem android_excludedPhrases (t : Text) (rules : List BindingRule) :
    Android.excludedPhrases u t (Android.noBindDirectives u t) rules =
      keptPhrases (u := u) t (matchesIn u t (usable Android.isBlank (rules.map (eraseRule u)) [])) := by
  have hkept : ((Android.noBindDirectives u t).flatMap (Android.targets (Android.findMatches u t rules))).map
      (fun m => Android.normalizedPhrase u m.rule.phrase) =
        keptPhrases (u := u) t (matchesIn u t (usable Android.isBlank (rules.map (eraseRule u)) [])) := by
    rw [keptPhrases, ← android_findMatches_erase, flatMap_targets_erase, List.map_map]
    exact List.map_congr_left fun m _ => normalizedPhrase_eq u m.rule.phrase
  rw [Android.excludedPhrases]
  split_ifs with hnone
  · rw [← hkept, List.isEmpty_iff.mp hnone]
    rfl
  · exact hkept

theorem mem_explicitNoBindPhrases (t : Text) (rules : List BindingRule) (p : Text) :
    p ∈ explicitNoBindPhrases u t rules ↔
      p ∈ keptPhrases (u := u) t (matchesIn u t (usable qtBlank (rules.map (eraseRule u)) [])) := by
  have htargets : ((findNoBindDirectiveSpans (tokenizeWithSpans u t)).flatMap
      (directiveTargets (findMatches u t (validateRules u rules).rules))).map (BindingMatch.erase u) =
        (Android.noBindDirectives u t).flatMap
          (Android.targets (matchesIn u t (usable qtBlank (rules.map (eraseRule u)) []))) := by
    rw [← findMatches_erase, ← findMatches_validated, flatMap_targets_erase, noBindDirectives_eq, List.flatMap_map]
    exact congrArg _ (List.flatMap_congr fun d _ => targets_eq _ d)
  have hkept : p ∈ keptPhrases (u := u) t (matchesIn u t (usable qtBlank (rules.map (eraseRule u)) [])) ↔
      p ∈ [] ∨ p ≠ [] ∧ ∃ m ∈ (findNoBindDirectiveSpans (tokenizeWithSpans u t)).flatMap
        (directiveTargets (findMatches u t (validateRules u rules).rules)), (m.erase u).rule.phrase = p := by
    rw [keptPhrases, List.mem_map]
    constructor
    · rintro ⟨m, hm, rfl⟩
      obtain ⟨d, -, htarget⟩ := List.mem_flatMap.mp hm
      rw [← htargets] at hm
      obtain ⟨found, hfound, rfl⟩ := List.mem_map.mp hm
      exact .inr ⟨phrase_ne_nil_of_mem u (mem_of_targets htarget), found, hfound, rfl⟩
    · rintro (hnil | ⟨-, m, hm, rfl⟩)
      · cases hnil
      · exact ⟨m.erase u, htargets ▸ List.mem_map_of_mem hm, rfl⟩
  rw [hkept, ← mem_foldl_append, explicitNoBindPhrases, excludedPhrases]
  split_ifs with hnone
  · rw [List.isEmpty_iff.mp hnone]
    rfl
  · rfl

/-! ## What is replaced -/

theorem mapIdx_erase {β : Type} (f : ℕ → BindingMatch → β) (found : List BindingMatch) :
    (found.map (BindingMatch.erase u)).mapIdx f = found.mapIdx fun index m => f index (m.erase u) := by
  refine List.ext_getElem? fun index => ?_
  simp only [List.getElem?_mapIdx, List.getElem?_map, Option.map_map]
  rfl

theorem process_eq (t : Text) (rules : List BindingRule) :
    (process u t rules).boundText = replaceMatches t (findMatches u t rules) (fun _ m => m.rule.replacement) ∧
      (process u t rules).placeholderText =
        replaceMatches t (findMatches u t rules) (fun index _ => placeholder index) ∧
      (process u t rules).placeholders =
        (findMatches u t rules).mapIdx fun index m => ⟨placeholder index, m.rule.replacement⟩ := by
  rw [process]
  split_ifs with hnone
  · rw [List.isEmpty_iff.mp hnone]
    exact ⟨rfl, rfl, rfl⟩
  · exact ⟨rfl, rfl, rfl⟩

theorem coversEveryWord_iff (t : Text) (found : List BindingMatch) :
    Android.coversEveryWord u t found = true ↔ ∀ i (h : i < t.length), u.isLetterOrNumber t[i] = true →
      ∃ m ∈ found, m.start ≤ i ∧ i < m.stop := by
  rw [Android.coversEveryWord, List.all_eq_true]
  refine forall_congr' fun i => ?_
  rw [List.mem_range]
  refine forall_congr' fun hi => ?_
  rw [List.getElem?_eq_getElem hi, Option.any_some]
  cases u.isLetterOrNumber t[i] <;> simp

theorem withoutNoBindPhrases_eq (rules : List BindingRule) (phrases : List Text) :
    withoutNoBindPhrases u rules phrases =
      rules.filter fun rule => !phrases.contains (normalizedPhrase u rule.phrase) := by
  rw [withoutNoBindPhrases]
  split_ifs with hnone
  · rw [List.isEmpty_iff.mp hnone]
    exact (List.filter_eq_self.mpr fun _ _ => rfl).symm
  · rfl

/-- A match's span does not depend on how its phrase was trimmed. -/
theorem exists_mem_erase {found : List BindingMatch} {i : ℕ} :
    (∃ m ∈ found.map (BindingMatch.erase u), m.start ≤ i ∧ i < m.stop) ↔ ∃ m ∈ found, m.start ≤ i ∧ i < m.stop := by
  simp only [List.mem_map, exists_exists_and_eq_and, BindingMatch.erase]

/-- **Both ports replace the same**, where a rule's text is blank to both or to neither: the same rules stay in force,
the words get the same text, and refinement the same input with the same placeholders, or none. -/
theorem replaced_alike (h : BlankAlike u rules) (t : Text) :
    (prepare u t rules .none).activeBindingRules = (Android.replaceSpoken u t rules).rules ∧
      (prepare u t rules .none).bindingResult.boundText = (Android.replaceSpoken u t rules).text ∧
      (prepare u t rules .none).refinementInput = (Android.replaceSpoken u t rules).refinementInput ∧
      (prepare u t rules .none).bindingResult.placeholders = (Android.replaceSpoken u t rules).placeholders ∧
      (prepare u t rules .none).bindingResult.canSkipRefinement =
        (Android.replaceSpoken u t rules).skipsRefinement ∧
      (prepare u t rules .none).allowPostRefinementBindings =
        (Android.replaceSpoken u t rules).replacesAfterRefinement := by
  have hmem : ∀ p, p ∈ explicitNoBindPhrases u t rules ↔
      p ∈ Android.excludedPhrases u t (Android.noBindDirectives u t) rules := fun p => by
    rw [mem_explicitNoBindPhrases, android_excludedPhrases, h.usable_eq]
  have hempty : (explicitNoBindPhrases u t rules).isEmpty =
      (Android.excludedPhrases u t (Android.noBindDirectives u t) rules).isEmpty := by
    rw [Bool.eq_iff_iff, List.isEmpty_iff, List.isEmpty_iff, List.eq_nil_iff_forall_not_mem,
      List.eq_nil_iff_forall_not_mem]
    exact forall_congr' fun p => not_congr (hmem p)
  have hactive : (prepare u t rules .none).activeBindingRules = (Android.replaceSpoken u t rules).rules := by
    refine (withoutNoBindPhrases_eq rules _).trans (List.filter_congr fun rule _ => ?_)
    rw [Bool.eq_iff_iff, normalizedPhrase_eq]
    simp only [Bool.not_eq_true', List.contains_eq_mem, decide_eq_false_iff_not, hmem]
  have halike : BlankAlike u (prepare u t rules .none).activeBindingRules := fun rule hrule =>
    h rule (List.mem_of_mem_filter (hactive ▸ hrule : rule ∈ (Android.replaceSpoken u t rules).rules))
  have hfound := findMatches_alike halike t
  rw [hactive] at hfound
  have hmapIdx : ∀ {β : Type} (f : ℕ → BindingMatch → β), (∀ index m, f index (m.erase u) = f index m) →
      (findMatches u t (Android.replaceSpoken u t rules).rules).mapIdx f =
        (Android.findMatches u t (Android.replaceSpoken u t rules).rules).mapIdx f := fun f hf => by
    have heq := congrArg (List.mapIdx f) hfound
    simpa only [mapIdx_erase, hf] using heq
  obtain ⟨hbound, hinput, hplaceholders⟩ := process_eq (u := u) t (Android.replaceSpoken u t rules).rules
  refine ⟨hactive, ?_, ?_, ?_, ?_, ?_⟩
  · change (process u t (prepare u t rules .none).activeBindingRules).boundText = _
    rw [hactive, hbound, replaceMatches, hmapIdx _ fun _ _ => rfl]
    rfl
  · change (process u t (prepare u t rules .none).activeBindingRules).placeholderText = _
    rw [hactive, hinput, replaceMatches, hmapIdx _ fun _ _ => rfl]
    rfl
  · change (process u t (prepare u t rules .none).activeBindingRules).placeholders = _
    rw [hactive, hplaceholders, hmapIdx _ fun _ _ => rfl]
    rfl
  · change (process u t (prepare u t rules .none).activeBindingRules).canSkipRefinement = _
    rw [hactive, Bool.eq_iff_iff, canSkipRefinement_iff]
    change _ ↔ (!(Android.findMatches u t (Android.replaceSpoken u t rules).rules).isEmpty &&
      Android.coversEveryWord u t (Android.findMatches u t (Android.replaceSpoken u t rules).rules)) = true
    rw [Bool.and_eq_true, coversEveryWord_iff, Bool.not_eq_true', List.isEmpty_eq_false_iff]
    refine and_congr ?_ (forall_congr' fun i => forall_congr' fun _ => imp_congr Iff.rfl ?_)
    · rw [Ne, Ne, ← List.map_eq_nil_iff (f := BindingMatch.erase u), hfound, List.map_eq_nil_iff]
    · rw [← exists_mem_erase (u := u), hfound, exists_mem_erase]
  · change (!Selection.none.hasSelection && (!hasDirective u t || !(explicitNoBindPhrases u t rules).isEmpty)) =
      ((Android.noBindDirectives u t).isEmpty || !(Android.excludedPhrases u t _ rules).isEmpty)
    rw [hempty, hasDirective, noBindDirectives_eq, List.isEmpty_map, Bool.not_not]
    rfl

/-- A greeting is replaced alike. -/
theorem replaced_alike_greeting :
    (prepare .basic ['h', 'i', '!'] [⟨['H', 'i'], ['y', 'o']⟩] .none).bindingResult.boundText =
      (Android.replaceSpoken .basic ['h', 'i', '!'] [⟨['H', 'i'], ['y', 'o']⟩]).text := by
  refine (replaced_alike (fun rule hrule _ => ?_) ['h', 'i', '!']).2.1
  rw [List.mem_singleton.mp hrule]
  rfl

/-! ## What validation reports -/

/-- What validating the rules from a row on says of the rows before, `all` being every rule. -/
structure Accounts (u : Unicode) (all rules : List BindingRule) (row : ℕ) (result : BindingValidationResult) :
    Prop where
  rows : ∀ issue ∈ result.issues, row ≤ issue.row
  ordered : result.issues.Pairwise (·.row < ·.row)
  count : result.issues.length + result.rules.length = rules.length
  blamed : ∀ issue ∈ result.issues, ∀ first ∈ issue.duplicateOf, first < issue.row ∧
    (all[first]?).map (normalizedPhrase u ·.phrase) = (all[issue.row]?).map (normalizedPhrase u ·.phrase)

theorem Accounts.issue {all : List BindingRule} {rule : BindingRule} {row : ℕ} {result : BindingValidationResult}
    (h : Accounts u all rules (row + 1) result) (type : BindingValidationIssueType) (duplicateOf : Option ℕ)
    (hblamed : ∀ first ∈ duplicateOf, first < row ∧
      (all[first]?).map (normalizedPhrase u ·.phrase) = (all[row]?).map (normalizedPhrase u ·.phrase)) :
    Accounts u all (rule :: rules) row ⟨issueAt type row duplicateOf :: result.issues, result.rules⟩ where
  rows issue hissue := by
    rcases List.mem_cons.mp hissue with rfl | hissue
    · exact Nat.le_refl _
    · exact Nat.le_of_succ_le (h.rows issue hissue)
  ordered := List.pairwise_cons.mpr ⟨h.rows, h.ordered⟩
  count := by
    have := h.count
    simp only [List.length_cons]
    omega
  blamed issue hissue := by
    rcases List.mem_cons.mp hissue with rfl | hissue
    · exact hblamed
    · exact h.blamed issue hissue

theorem validateFrom_accounts (all : List BindingRule) : ∀ (pre : List BindingRule) (seen : List (Text × ℕ)),
    all = pre ++ rules → (∀ p j, seen.lookup p = some j → j < pre.length ∧
      (all[j]?).map (normalizedPhrase u ·.phrase) = some p) →
    Accounts u all rules pre.length (validateFrom u rules pre.length seen) := by
  induction rules with
  | nil => exact fun _ _ _ _ => ⟨by rintro _ ⟨⟩, .nil, rfl, by rintro _ ⟨⟩⟩
  | cons rule rules ih =>
    intro pre seen hall hseen
    have hnext := fun seen' => ih (pre ++ [rule]) seen' (by rw [hall, List.append_assoc]; rfl)
    simp only [List.length_append, List.length_singleton] at hnext
    have hskip := hnext seen fun p j hj => ⟨Nat.lt_succ_of_lt (hseen p j hj).1, (hseen p j hj).2⟩
    have hrow : (all[pre.length]?).map (normalizedPhrase u ·.phrase) = some (normalizedPhrase u rule.phrase) := by
      rw [hall, List.getElem?_append_right (Nat.le_refl _), Nat.sub_self]
      rfl
    have hjoin : joinWords (normalizedTokens u (trimmed rule.phrase)) = normalizedPhrase u rule.phrase :=
      normalizedPhrase_trimmed u rule.phrase
    rw [validateFrom, hjoin]
    split_ifs
    · exact hskip.issue .emptyPhrase none (by rintro _ ⟨⟩)
    · exact hskip.issue .emptyReplacement none (by rintro _ ⟨⟩)
    · split
      · rename_i first hfirst
        refine hskip.issue .duplicatePhrase (some first) fun j hj => ?_
        cases hj
        exact ⟨(hseen _ _ hfirst).1, (hseen _ _ hfirst).2.trans hrow.symm⟩
      · have hkept := hnext ((normalizedPhrase u rule.phrase, pre.length) :: seen) fun p j hj => by
          rw [List.lookup_cons] at hj
          split at hj
          · rename_i heq
            cases hj
            exact ⟨Nat.lt_succ_self _, hrow.trans (congrArg some (eq_of_beq heq).symm)⟩
          · exact ⟨Nat.lt_succ_of_lt (hseen p j hj).1, (hseen p j hj).2⟩
        exact ⟨fun issue hi => Nat.le_of_succ_le (hkept.rows issue hi), hkept.ordered,
          (congrArg Nat.succ hkept.count :), hkept.blamed⟩

theorem validateFrom_kept : ∀ (row row' : ℕ) (seen seen' : List (Text × ℕ)),
    (∀ p, seen.lookup p = none → seen'.lookup p = none) →
    validateFrom u (validateFrom u rules row seen).rules row' seen' = ⟨[], (validateFrom u rules row seen).rules⟩ := by
  induction rules with
  | nil => exact fun _ _ _ _ _ => rfl
  | cons rule rules ih =>
    intro row row' seen seen' hseen
    rw [validateFrom]
    split_ifs with hphrase hblank
    · exact ih (row + 1) row' seen seen' hseen
    · exact ih (row + 1) row' seen seen' hseen
    · split
      · exact ih (row + 1) row' seen seen' hseen
      · rename_i hnew
        have htrimmed : trimmed (trimmed rule.phrase) = trimmed rule.phrase := stripped_stripped isSpace rule.phrase
        rw [validateFrom, htrimmed, if_neg hphrase, if_neg hblank, hseen _ hnew]
        dsimp only
        rw [ih _ _ _ _ fun p hp => ?_]
        rw [List.lookup_cons] at hp ⊢
        split
        · rename_i heq
          rw [heq] at hp
          cases hp
        · rename_i hne
          rw [hne] at hp
          exact hseen p hp

/-- **Validation accounts for every rule**: issues, one to a row, and kept rules are as many as the rules; a rule said
to duplicate another has the normalized phrase of an earlier one; what is kept is valid as it is; and it matches what
all the rules match, up to how a match's phrase was trimmed. -/
theorem validateRules_accounts (u : Unicode) (rules : List BindingRule) :
    Accounts u rules rules 0 (validateRules u rules) ∧
      validateRules u (validateRules u rules).rules = ⟨[], (validateRules u rules).rules⟩ ∧
      ∀ t, (findMatches u t (validateRules u rules).rules).map (BindingMatch.erase u) =
        (findMatches u t rules).map (BindingMatch.erase u) :=
  ⟨validateFrom_accounts rules [] [] rfl nofun, validateFrom_kept 0 0 [] [] fun _ h => h,
    fun t => findMatches_validated t rules⟩

end Speecher
