import Speecher.Bindings.AndroidMatching

/-!
# Which matches are found

Every place where the words of a usable rule stand is an occurrence, whatever rules came before it. A match found is an
occurrence, and an occurrence that is not found gives way to one that is and shares a word with it: one of more words,
or of as many and earlier, or one on the same words of an earlier rule. Two usable rules of the same words are not told
apart by the transcript, and the later one is dropped as the rules are compiled; that is the last case.

* `findMatches_choice`: that, and that refinement is skipped exactly when there is a match and every letter or number
  lies inside one.
-/

namespace Speecher

variable (u : Unicode)

/-- A rule that can match: a phrase with words, and a text to put in its place. -/
structure BindingRule.Usable (rule : BindingRule) : Prop where
  phrase : trimmed rule.phrase ≠ []
  replacement : trimmed rule.replacement ≠ []
  tokens : normalizedTokens u (trimmed rule.phrase) ≠ []

/-- The words of a rule's phrase. -/
def BindingRule.tokens (rule : BindingRule) : List Text := normalizedTokens u (trimmed rule.phrase)

/-- The words of a rule stand in a transcript from its `start`-th word on, ignoring case. -/
def StandsAt (t : Text) (rule : BindingRule) (start : ℕ) : Prop :=
  rule.tokens u <+: (normalizedTokens u t).drop start

/-- A match of a rule: its phrase's words, from the start of the first to the end of the last. -/
structure MatchOf (t : Text) (rule : BindingRule) (m : BindingMatch) : Prop where
  applied : m.rule = ⟨trimmed rule.phrase, rule.replacement⟩
  words : StandsAt u t rule m.startToken
  count : m.tokenCount = (rule.tokens u).length
  start : m.start = ((tokenizeWithSpans u t).getD m.startToken default).start
  stop : m.stop = ((tokenizeWithSpans u t).getD (m.startToken + m.tokenCount - 1) default).stop

/-- A match shares a word with an occurrence and comes before it: it has more words, or as many and starts earlier, or
stands on the same words by an earlier rule. -/
structure GivesWayTo (t : Text) (rules : List BindingRule) (i start : ℕ) (rule : BindingRule) (m : BindingMatch) :
    Prop where
  overlap : m.startToken < start + (rule.tokens u).length ∧ start < m.startToken + m.tokenCount
  prefers : (rule.tokens u).length < m.tokenCount ∨
    m.tokenCount = (rule.tokens u).length ∧ m.startToken < start ∨
    m.tokenCount = (rule.tokens u).length ∧ m.startToken = start ∧
      ∃ j < i, ∃ earlier, rules[j]? = some earlier ∧ MatchOf u t earlier m

/-! ## The rules compiled -/

/-- A compiled rule is a usable rule. -/
structure CompiledRule.Of (rules : List BindingRule) (index : ℕ) (c : CompiledRule) (i : ℕ) (rule : BindingRule) :
    Prop where
  found : rules[i]? = some rule
  order : c.order = index + i
  usable : rule.Usable u
  applied : c.rule = ⟨trimmed rule.phrase, rule.replacement⟩
  tokens : c.tokens = rule.tokens u

variable {u}

theorem CompiledRule.Of.cons {rules : List BindingRule} {index i : ℕ} {c : CompiledRule} {rule : BindingRule}
    (h : c.Of u rules (index + 1) i rule) (first : BindingRule) : c.Of u (first :: rules) index (i + 1) rule :=
  ⟨h.found, by rw [h.order]; omega, h.usable, h.applied, h.tokens⟩

theorem compileFrom_of {rules : List BindingRule} {index : ℕ} {seen : List Text} {c : CompiledRule}
    (h : c ∈ compileFrom u rules index seen) : ∃ i rule, c.Of u rules index i rule := by
  induction rules generalizing index seen with
  | nil => cases h
  | cons first rules ih =>
    rw [compileFrom] at h
    split at h
    · obtain ⟨i, rule, hof⟩ := ih h
      exact ⟨i + 1, rule, hof.cons first⟩
    · rename_i hskip
      simp only [Bool.or_eq_true, not_or, List.isEmpty_iff] at hskip
      obtain ⟨⟨⟨hphrase, hreplacement⟩, htokens⟩, -⟩ := hskip
      rcases List.mem_cons.mp h with rfl | h
      · exact ⟨0, first, rfl, rfl, ⟨hphrase, hreplacement, htokens⟩, rfl, rfl⟩
      · obtain ⟨i, rule, hof⟩ := ih h
        exact ⟨i + 1, rule, hof.cons first⟩

/-- Rules with the same phrase have the same words. -/
theorem tokens_eq_of_joined {first rule : BindingRule} (hfirst : first.Usable u) (hrule : rule.Usable u)
    (h : joinWords (first.tokens u) = joinWords (rule.tokens u)) : first.tokens u = rule.tokens u := by
  have hsplit := splitOn_normalizedPhrase u hfirst.tokens
  have hsplit' := splitOn_normalizedPhrase u hrule.tokens
  rw [normalizedPhrase] at hsplit hsplit'
  exact hsplit.symm.trans ((congrArg (List.splitOn ' ') h).trans hsplit')

/-- A usable rule is compiled, or an earlier rule of the same words is. -/
theorem exists_compiled {rules : List BindingRule} {i : ℕ} {rule : BindingRule} (hfound : rules[i]? = some rule)
    (husable : rule.Usable u) (index : ℕ) {seen : List Text} (hseen : joinWords (rule.tokens u) ∉ seen) :
    ∃ c ∈ compileFrom u rules index seen, ∃ j ≤ i, ∃ first, c.Of u rules index j first ∧
      first.tokens u = rule.tokens u := by
  induction rules generalizing index seen i with
  | nil => cases hfound
  | cons first rules ih =>
    have hlater : ∀ {k seen'}, rules[k]? = some rule → joinWords (rule.tokens u) ∉ seen' →
        ∃ c ∈ compileFrom u rules (index + 1) seen', ∃ j ≤ k + 1, ∃ first',
          c.Of u (first :: rules) index j first' ∧ first'.tokens u = rule.tokens u := by
      intro k seen' hk hseen'
      obtain ⟨c, hc, j, hj, first', hof, htokens⟩ := ih hk (index + 1) hseen'
      exact ⟨c, hc, j + 1, Nat.succ_le_succ hj, first', hof.cons first, htokens⟩
    rw [compileFrom]
    split
    · rename_i hskip
      cases i with
      | zero =>
        -- The rule itself is not skipped.
        obtain rfl := Option.some.inj hfound
        simp only [Bool.or_eq_true, List.isEmpty_iff, List.contains_iff_mem] at hskip
        rcases hskip with ((h | h) | h) | h
        exacts [absurd h husable.phrase, absurd h husable.replacement, absurd h husable.tokens, absurd h hseen]
      | succ k => exact hlater hfound hseen
    · rename_i hskip
      simp only [Bool.or_eq_true, not_or, List.isEmpty_iff] at hskip
      obtain ⟨⟨⟨hphrase, hreplacement⟩, htokens⟩, -⟩ := hskip
      have hfirst : first.Usable u := ⟨hphrase, hreplacement, htokens⟩
      have hof : CompiledRule.Of u (first :: rules) index
          ⟨⟨trimmed first.phrase, first.replacement⟩, normalizedTokens u (trimmed first.phrase), index⟩ 0 first :=
        ⟨rfl, rfl, hfirst, rfl, rfl⟩
      by_cases hsame : first.tokens u = rule.tokens u
      · exact ⟨_, List.mem_cons_self, 0, Nat.zero_le i, first, hof, hsame⟩
      · cases i with
        | zero => exact absurd (congrArg (BindingRule.tokens u) (Option.some.inj hfound)) hsame
        | succ k =>
          have hnew : joinWords (rule.tokens u) ∉ joinWords (normalizedTokens u (trimmed first.phrase)) :: seen := by
            refine fun hmem => (List.mem_cons.mp hmem).elim (fun heq => hsame ?_) hseen
            exact tokens_eq_of_joined hfirst husable heq.symm
          obtain ⟨c, hc, hrest⟩ := hlater hfound hnew
          exact ⟨c, List.mem_cons_of_mem _ hc, hrest⟩

/-! ## The occurrences are the candidates -/

theorem sequenceMatches_iff {t : Text} {tokens : List Text} (htokens : tokens ≠ []) {start : ℕ} :
    sequenceMatches (tokenizeWithSpans u t) start tokens = true ↔ tokens <+: (normalizedTokens u t).drop start := by
  rw [sequenceMatches, Bool.and_eq_true, decide_eq_true_eq, List.all_eq_true, List.prefix_iff_getElem?]
  simp only [List.mem_range, beq_iff_eq, List.getElem?_drop, normalizedTokens, List.getElem?_map]
  constructor
  · rintro ⟨-, hall⟩ offset hoffset
    rw [hall offset hoffset, List.getElem?_eq_getElem hoffset]
  · intro hall
    refine ⟨?_, fun offset hoffset => by rw [hall offset hoffset, List.getElem?_eq_getElem hoffset]⟩
    have hpos := List.length_pos_of_ne_nil htokens
    have hlast := hall (tokens.length - 1) (by omega)
    obtain ⟨last, hlast, -⟩ := Option.map_eq_some_iff.mp hlast
    have hbound := (List.getElem?_eq_some_iff.mp hlast).1
    omega

/-- A candidate of a compiled rule stands where the rule's words do. -/
theorem mem_candidatesIn {t : Text} {rules : List BindingRule} {c : CompiledRule} {i : ℕ} {rule : BindingRule}
    (hc : c ∈ compileRules u rules) (hof : c.Of u rules 0 i rule) {start : ℕ} :
    (⟨c, start, c.tokens.length⟩ : Candidate) ∈ candidatesIn u t rules ↔ StandsAt u t rule start := by
  have hstands : sequenceMatches (tokenizeWithSpans u t) start c.tokens = true ↔ StandsAt u t rule start := by
    rw [sequenceMatches_iff (tokens_ne_nil u hc), hof.tokens]
    rfl
  rw [← hstands]
  refine ⟨fun h => ?_, fun h => List.mem_flatMap.mpr ⟨c, hc, mem_candidatesOf.mpr ⟨rfl, rfl, h⟩⟩⟩
  obtain ⟨_, -, hmem⟩ := List.mem_flatMap.mp h
  obtain ⟨rfl, -, hs⟩ := mem_candidatesOf.mp hmem
  exact hs

/-- A candidate is a match of its rule. -/
theorem matchOf_accept {t : Text} {rules : List BindingRule} {a : Candidate} (ha : a ∈ candidatesIn u t rules) :
    ∃ i rule, a.rule.Of u rules 0 i rule ∧ MatchOf u t rule (a.accept (tokenizeWithSpans u t)) := by
  obtain ⟨c, hc, hmem⟩ := List.mem_flatMap.mp ha
  obtain ⟨rfl, hcount, -⟩ := mem_candidatesOf.mp hmem
  obtain ⟨i, rule, hof⟩ := compileFrom_of hc
  have hstands : StandsAt u t rule a.startToken := by
    rw [← mem_candidatesIn hc hof (t := t), ← hcount]
    exact ha
  exact ⟨i, rule, hof, hof.applied, hstands, hcount.trans (congrArg List.length hof.tokens), rfl, rfl⟩

/-! ## The choice -/

theorem before_iff {a c : Candidate} : a.before c = true ↔ c.tokenCount < a.tokenCount ∨
    a.tokenCount = c.tokenCount ∧ a.startToken < c.startToken ∨
    a.tokenCount = c.tokenCount ∧ a.startToken = c.startToken ∧ a.rule.order < c.rule.order := by
  rw [Candidate.before]
  split_ifs with hcount hstart
  · rw [decide_eq_true_eq]
    omega
  · rw [decide_eq_true_eq]
    omega
  · rw [decide_eq_true_eq]
    omega

/-- **An occurrence is found, or a match found comes before it.** -/
theorem found_or_givesWay {t : Text} {rules : List BindingRule} {i start : ℕ} {rule : BindingRule}
    (hfound : rules[i]? = some rule) (husable : rule.Usable u) (hstands : StandsAt u t rule start) :
    (∃ m ∈ findMatches u t rules, MatchOf u t rule m ∧ m.startToken = start) ∨
      ∃ m ∈ findMatches u t rules, GivesWayTo u t rules i start rule m := by
  obtain ⟨c, hc, j, hj, first, hof, htokens⟩ := exists_compiled hfound husable 0 List.not_mem_nil
  have hlength : c.tokens.length = (rule.tokens u).length := by rw [hof.tokens, htokens]
  have hfirst : StandsAt u t first start := by rwa [StandsAt, htokens]
  have hcandidate := (mem_candidatesIn hc hof (t := t)).mpr hfirst
  by_cases haccepted : (⟨c, start, c.tokens.length⟩ : Candidate) ∈ acceptedIn u t rules
  · -- The occurrence, or that of an earlier rule of the same words, is found.
    have hmatch : MatchOf u t first (Candidate.accept (tokenizeWithSpans u t) ⟨c, start, c.tokens.length⟩) :=
      ⟨hof.applied, hfirst, congrArg List.length hof.tokens, rfl, rfl⟩
    have hmem := (mem_findMatches u).mpr ⟨_, haccepted, rfl⟩
    rcases Nat.lt_or_eq_of_le hj with hlt | rfl
    · refine .inr ⟨_, hmem, ⟨?_, .inr (.inr ⟨hlength, rfl, j, hlt, first, hof.found, hmatch⟩)⟩⟩
      have hpos : 0 < (rule.tokens u).length := List.length_pos_of_ne_nil husable.tokens
      constructor
      · show start < start + (rule.tokens u).length
        omega
      · show start < start + c.tokens.length
        omega
    · obtain rfl := Option.some.inj (hof.found.symm.trans hfound)
      exact .inl ⟨_, hmem, hmatch, rfl⟩
  · -- It clashes with one that is preferred.
    have hchoice := mt (accepted_isChoice u t rules _).mpr haccepted
    simp only [hcandidate, true_and, not_forall, Bool.not_eq_false] at hchoice
    obtain ⟨a, ha, hbefore, hclash⟩ := hchoice
    obtain ⟨k, earlier, hofa, hmatch⟩ := matchOf_accept ((accepted_isChoice u t rules a).mp ha).1
    simp only [Candidate.clash, Bool.and_eq_true, decide_eq_true_eq] at hclash
    refine .inr ⟨_, (mem_findMatches u).mpr ⟨a, ha, rfl⟩, ⟨?_, ?_⟩⟩
    · exact ⟨hlength ▸ hclash.1, hclash.2⟩
    · rcases before_iff.mp hbefore with h | ⟨hcount, h⟩ | ⟨hcount, hstart, h⟩
      · exact .inl (hlength ▸ h)
      · exact .inr (.inl ⟨hcount.trans hlength, h⟩)
      · refine .inr (.inr ⟨hcount.trans hlength, hstart, k, ?_, earlier, hofa.found, hmatch⟩)
        rw [hofa.order, hof.order] at h
        omega

/-! ## Skipping refinement -/

/-- Matches in order cover the letters and numbers of the rest of a text. -/
theorem wordsCoveredFrom_iff (rest : Text) (index : ℕ) (found : List BindingMatch)
    (hordered : found.Pairwise fun m m' => m.stop < m'.start) :
    wordsCoveredFrom u rest index found = true ↔ ∀ i (h : i < rest.length), u.isLetterOrNumber rest[i] = true →
      ∃ m ∈ found, m.start ≤ index + i ∧ index + i < m.stop := by
  induction rest generalizing index found with
  | nil => exact iff_of_true rfl fun i h => absurd h (Nat.not_lt_zero i)
  | cons ch rest ih =>
    -- What covers the rest covers a character on from here, and the first character is covered or needs no match.
    have hsplit : ∀ found' : List BindingMatch,
        (∀ i (h : i < (ch :: rest).length), u.isLetterOrNumber (ch :: rest)[i] = true →
          ∃ m ∈ found', m.start ≤ index + i ∧ index + i < m.stop) ↔
        (u.isLetterOrNumber ch = true → ∃ m ∈ found', m.start ≤ index ∧ index < m.stop) ∧
          ∀ i (h : i < rest.length), u.isLetterOrNumber rest[i] = true →
            ∃ m ∈ found', m.start ≤ index + 1 + i ∧ index + 1 + i < m.stop := by
      intro found'
      refine ⟨fun h => ⟨h 0 (Nat.succ_pos _), fun i hi hletter => ?_⟩, fun ⟨hfirst, hrest⟩ i hi hletter => ?_⟩
      · obtain ⟨m, hm, h₁, h₂⟩ := h (i + 1) (Nat.succ_lt_succ hi) hletter
        exact ⟨m, hm, by omega, by omega⟩
      · cases i with
        | zero => exact hfirst hletter
        | succ i =>
          obtain ⟨m, hm, h₁, h₂⟩ := hrest i (Nat.lt_of_succ_lt_succ hi) hletter
          exact ⟨m, hm, by omega, by omega⟩
    rw [hsplit, wordsCoveredFrom]
    by_cases hletter : u.isLetterOrNumber ch = true
    · rw [if_pos hletter]
      -- Matches that ended cover nothing from here on.
      have hpassed : ∀ i, (∃ m ∈ found, m.start ≤ index + i ∧ index + i < m.stop) ↔
          ∃ m ∈ found.dropWhile fun m => m.stop ≤ index, m.start ≤ index + i ∧ index + i < m.stop := by
        intro i
        constructor
        · rintro ⟨m, hm, h₁, h₂⟩
          rw [← List.takeWhile_append_dropWhile (p := fun m => m.stop ≤ index) (l := found)] at hm
          rcases List.mem_append.mp hm with hm | hm
          · have hstop := List.mem_takeWhile_imp hm
            rw [decide_eq_true_eq] at hstop
            omega
          · exact ⟨m, hm, h₁, h₂⟩
        · rintro ⟨m, hm, h⟩
          exact ⟨m, (List.dropWhile_sublist _).subset hm, h⟩
      have hordered' := hordered.sublist (List.dropWhile_sublist fun m => m.stop ≤ index)
      have hrest := ih (index + 1) _ hordered'
      have hpassed' : ∀ i, (∃ m ∈ found, m.start ≤ index + 1 + i ∧ index + 1 + i < m.stop) ↔
          ∃ m ∈ found.dropWhile fun m => m.stop ≤ index, m.start ≤ index + 1 + i ∧ index + 1 + i < m.stop := by
        intro i
        rw [Nat.add_assoc]
        exact hpassed (1 + i)
      simp only [hpassed', ← hrest]
      have hhead := hpassed 0
      rw [Nat.add_zero] at hhead
      rw [hhead]
      cases hdrop : found.dropWhile fun m => m.stop ≤ index with
      | nil => exact iff_of_false Bool.false_ne_true fun h => by simpa using h.1 hletter
      | cons m found' =>
        have hstop : ¬ m.stop ≤ index := by
          have := List.head_dropWhile_not (fun m => decide (m.stop ≤ index)) (l := found) (by rw [hdrop]; exact List.cons_ne_nil _ _)
          simpa [hdrop] using this
        rw [hdrop] at hordered'
        have hcovered : (∃ m' ∈ m :: found', m'.start ≤ index ∧ index < m'.stop) ↔ m.start ≤ index := by
          refine ⟨fun ⟨m', hm', h₁, h₂⟩ => ?_, fun h => ⟨m, List.mem_cons_self, h, by omega⟩⟩
          rcases List.mem_cons.mp hm' with rfl | hm'
          · exact h₁
          · have := List.rel_of_pairwise_cons hordered' hm'
            omega
        rw [hcovered]
        dsimp only
        by_cases hstart : m.start ≤ index
        · rw [if_neg (by simp; omega)]
          exact ⟨fun h => ⟨fun _ => hstart, h⟩, fun h => h.2⟩
        · rw [if_pos (by simp; omega)]
          exact iff_of_false Bool.false_ne_true fun h => hstart (h.1 hletter)
    · rw [if_neg hletter, ih (index + 1) found hordered]
      exact ⟨fun h => ⟨fun hl => absurd hl hletter, h⟩, fun h => h.2⟩

/-- **Refinement is skipped** when there is a match and every letter or number lies inside one. -/
theorem canSkipRefinement_iff {t : Text} {rules : List BindingRule} :
    (process u t rules).canSkipRefinement = true ↔ findMatches u t rules ≠ [] ∧
      ∀ i (h : i < t.length), u.isLetterOrNumber t[i] = true →
        ∃ m ∈ findMatches u t rules, m.start ≤ i ∧ i < m.stop := by
  rw [process]
  by_cases hempty : (findMatches u t rules).isEmpty = true
  · rw [if_pos hempty]
    exact iff_of_false Bool.false_ne_true fun h => h.1 (List.isEmpty_iff.mp hempty)
  · rw [if_neg hempty]
    have hcovered := wordsCoveredFrom_iff (u := u) t 0 _ (matches_ordered u t rules)
    simp only [Nat.zero_add] at hcovered
    rw [← hcovered]
    show allTranscriptWordsCovered u t _ = true ↔ _
    rw [allTranscriptWordsCovered, if_neg hempty]
    exact ⟨fun h => ⟨fun hnil => hempty (List.isEmpty_iff.mpr hnil), h⟩, fun h => h.2⟩

variable (u)

/-- **The matches found.** They come in text order, apart from each other; each is one of a usable rule's words; an
occurrence is left out only for a match that comes before it; and refinement is skipped exactly when there is a match
and every letter or number lies inside one. -/
theorem findMatches_choice (t : Text) (rules : List BindingRule) :
    ((findMatches u t rules).Pairwise fun m m' => m.stop < m'.start) ∧
      (∀ m ∈ findMatches u t rules, ∃ (i : ℕ) (rule : BindingRule), rules[i]? = some rule ∧ rule.Usable u ∧ MatchOf u t rule m) ∧
      (∀ (i : ℕ) (rule : BindingRule) start, rules[i]? = some rule → rule.Usable u → StandsAt u t rule start →
        (∃ m ∈ findMatches u t rules, MatchOf u t rule m ∧ m.startToken = start) ∨
          ∃ m ∈ findMatches u t rules, GivesWayTo u t rules i start rule m) ∧
      ((process u t rules).canSkipRefinement = true ↔ findMatches u t rules ≠ [] ∧
        ∀ i (h : i < t.length), u.isLetterOrNumber t[i] = true →
          ∃ m ∈ findMatches u t rules, m.start ≤ i ∧ i < m.stop) := by
  refine ⟨matches_ordered u t rules, fun m hm => ?_, fun i rule start => found_or_givesWay, canSkipRefinement_iff⟩
  obtain ⟨a, ha, rfl⟩ := (mem_findMatches u).mp hm
  obtain ⟨i, rule, hof, hmatch⟩ := matchOf_accept ((accepted_isChoice u t rules a).mp ha).1
  exact ⟨i, rule, hof.found, hof.usable, hmatch⟩

/-- A transcript without letters or numbers has none outside a match, and is refined. -/
theorem refined_without_words :
    ¬((process .basic ['?'] []).canSkipRefinement = true ↔ ∀ i (h : i < ['?'].length),
      Unicode.basic.isLetterOrNumber ['?'][i] = true →
        ∃ m ∈ findMatches .basic ['?'] [], m.start ≤ i ∧ i < m.stop) := by
  intro hskips
  have hword : Unicode.basic.isLetterOrNumber '?' = false := rfl
  refine Bool.false_ne_true (hskips.mpr fun i hi hletter => ?_)
  obtain rfl : i = 0 := by simpa using hi
  exact absurd (hword.symm.trans hletter) Bool.false_ne_true

end Speecher
