import Mathlib.Data.List.Sort
import Speecher.Foundations.Greedy
import Speecher.Bindings.Words

/-!
# Matching replacement rules

The desktop's `BindingMatcher`: rules are compiled to word sequences, every place where a rule's
words stand in the transcript is a candidate, and candidates are taken longest first, then the
earlier one, then the earlier rule, as long as their words are free. `process` writes the
transcript twice, with each match replaced by its rule's text and by a numbered placeholder.

* `matches_ordered` and `isolated_of_mem`: the matches come in text order, none touching another,
  and no letter or number touches a match.
* `mem_findMatches` and `accepted_isChoice`: the matches are the candidates that the
  longest-first choice among all candidates chose.
-/

namespace Speecher

/-- A spoken phrase and the text put in its place. -/
structure BindingRule where
  phrase : Text
  replacement : Text
  deriving DecidableEq

/-- A usable rule: its phrase trimmed, the phrase's words, and the place among the rules. -/
structure CompiledRule where
  rule : BindingRule
  tokens : List Text
  order : ℕ
  deriving DecidableEq

/-- A place where the words of a rule stand. The source keeps the rule's index among the compiled
rules; the rule is kept here. -/
structure Candidate where
  rule : CompiledRule
  startToken : ℕ
  tokenCount : ℕ
  deriving DecidableEq

/-- A replacement match: its rule and where it stands, in words and in characters. -/
structure BindingMatch where
  rule : BindingRule
  startToken : ℕ
  tokenCount : ℕ
  start : ℕ
  stop : ℕ
  deriving DecidableEq

/-- A placeholder and the text it stands for. -/
structure BindingPlaceholder where
  placeholder : Text
  replacement : Text
  deriving DecidableEq

/-- What processing a transcript yields. -/
structure BindingProcessingResult where
  boundText : Text
  placeholderText : Text
  canSkipRefinement : Bool
  placeholders : List BindingPlaceholder
  deriving DecidableEq

/-- The stretch of text a match covers. -/
def BindingMatch.span (m : BindingMatch) : Span := ⟨m.start, m.stop⟩

variable (u : Unicode)

/-- The usable rules from the `index`-th on, the phrases in `seen` being taken. -/
def compileFrom : List BindingRule → ℕ → List Text → List CompiledRule
  | [], _, _ => []
  | rule :: rest, index, seen =>
    let phrase := trimmed rule.phrase
    let tokens := normalizedTokens u phrase
    let normalized := joinWords tokens
    if phrase.isEmpty || (trimmed rule.replacement).isEmpty || tokens.isEmpty ||
        seen.contains normalized then
      compileFrom rest (index + 1) seen
    else
      ⟨⟨phrase, rule.replacement⟩, tokens, index⟩ :: compileFrom rest (index + 1) (normalized :: seen)

/-- The usable rules with their words. -/
def compileRules (rules : List BindingRule) : List CompiledRule := compileFrom u rules 0 []

/-- The words of a rule stand in the transcript from a word on. -/
def sequenceMatches (transcriptTokens : List Token) (start : ℕ) (ruleTokens : List Text) : Bool :=
  decide (start + ruleTokens.length ≤ transcriptTokens.length) &&
    (List.range ruleTokens.length).all fun offset =>
      (transcriptTokens[start + offset]?).map Token.text == ruleTokens[offset]?

/-- Where the words of a rule stand. -/
def candidatesOf (transcriptTokens : List Token) (rule : CompiledRule) : List Candidate :=
  ((List.range (transcriptTokens.length + 1 - rule.tokens.length)).filter
    (sequenceMatches transcriptTokens · rule.tokens)).map (⟨rule, ·, rule.tokens.length⟩)

/-- Where the words of any rule stand. -/
def candidates (transcriptTokens : List Token) (compiled : List CompiledRule) : List Candidate :=
  compiled.flatMap (candidatesOf transcriptTokens)

/-- A candidate comes before another: the longer, then the earlier, then the earlier rule. -/
def Candidate.before (left right : Candidate) : Bool :=
  if left.tokenCount ≠ right.tokenCount then right.tokenCount < left.tokenCount
  else if left.startToken ≠ right.startToken then left.startToken < right.startToken
  else left.rule.order < right.rule.order

/-- A word of the candidate is taken. -/
def Candidate.overlaps (occupied : List Bool) (c : Candidate) : Bool :=
  (List.range c.tokenCount).any fun offset => occupied.getD (c.startToken + offset) false

/-- The words of the candidate are taken. -/
def Candidate.occupy (c : Candidate) (occupied : List Bool) : List Bool :=
  (List.range c.tokenCount).foldl (fun o offset => o.set (c.startToken + offset) true) occupied

/-- The match of a candidate that was accepted. -/
def Candidate.accept (transcriptTokens : List Token) (c : Candidate) : BindingMatch :=
  let first := transcriptTokens.getD c.startToken default
  let last := transcriptTokens.getD (c.startToken + c.tokenCount - 1) default
  ⟨c.rule.rule, c.startToken, c.tokenCount, first.start, last.stop⟩

/-- The candidates accepted in order, each unless one of its words is taken. -/
def acceptFrom (transcriptTokens : List Token) : List Bool → List Candidate → List BindingMatch
  | _, [] => []
  | occupied, c :: rest =>
    if c.overlaps occupied then acceptFrom transcriptTokens occupied rest
    else c.accept transcriptTokens :: acceptFrom transcriptTokens (c.occupy occupied) rest

/-- Where the rules match the transcript, none overlapping, in text order. -/
def findMatches (transcript : Text) (rules : List BindingRule) : List BindingMatch :=
  let transcriptTokens := tokenizeWithSpans u transcript
  if transcriptTokens.isEmpty || rules.isEmpty then [] else
    let sorted := sortBy Candidate.before (candidates transcriptTokens (compileRules u rules))
    let accepted := acceptFrom transcriptTokens (transcriptTokens.map fun _ => false) sorted
    sortBy (fun left right => left.start < right.start) accepted

/-- The transcript with each match replaced by what `replacement` gives for it. -/
def replaceMatches (transcript : Text) (found : List BindingMatch)
    (replacement : ℕ → BindingMatch → Text) : Text :=
  splice id transcript 0 (found.mapIdx fun index m => (m.span, replacement index m))

/-- Every letter or number from the `index`-th character on lies inside a match, the matches
before it being passed. -/
def wordsCoveredFrom : Text → ℕ → List BindingMatch → Bool
  | [], _, _ => true
  | ch :: rest, index, found =>
    if u.isLetterOrNumber ch then
      let found := found.dropWhile fun m => m.stop ≤ index
      match found with
      | [] => false
      | m :: _ => if index < m.start || m.stop ≤ index then false else wordsCoveredFrom rest (index + 1) found
    else wordsCoveredFrom rest (index + 1) found

/-- There are matches, and every letter or number of the transcript lies inside one. -/
def allTranscriptWordsCovered (transcript : Text) (found : List BindingMatch) : Bool :=
  if found.isEmpty then false else wordsCoveredFrom u transcript 0 found

/-- `SPEECHER_BINDING` -/
def speecherBinding : Text :=
  ['S', 'P', 'E', 'E', 'C', 'H', 'E', 'R', '_', 'B', 'I', 'N', 'D', 'I', 'N', 'G']

/-- `SPEECHER_BINDING_` -/
def placeholderStem : Text := speecherBinding ++ ['_']

/-- `SPEECHER_BINDING_` and a number. -/
def placeholder (index : ℕ) : Text := placeholderStem ++ Nat.toDigits 10 index

/-- The transcript with its matches replaced, and with placeholders in their place. -/
def process (transcript : Text) (rules : List BindingRule) : BindingProcessingResult :=
  let found := findMatches u transcript rules
  if found.isEmpty then ⟨transcript, transcript, false, []⟩ else
    { placeholders := found.mapIdx fun index m => ⟨placeholder index, m.rule.replacement⟩
      boundText := replaceMatches transcript found fun _ m => m.rule.replacement
      placeholderText := replaceMatches transcript found fun index _ => placeholder index
      canSkipRefinement := allTranscriptWordsCovered u transcript found }

/-! ## The rules compiled -/

/-- A compiled rule has words, and comes from one of the rules from `index` on. -/
theorem compileFrom_spec (rules : List BindingRule) :
    ∀ (index : ℕ) (seen : List Text),
      (∀ c ∈ compileFrom u rules index seen, c.tokens ≠ [] ∧ index ≤ c.order) ∧
        (compileFrom u rules index seen).Pairwise (·.order < ·.order) := by
  induction rules with
  | nil => simp [compileFrom]
  | cons rule rest ih =>
    intro index seen
    rw [compileFrom]
    split
    · obtain ⟨hmem, hord⟩ := ih (index + 1) seen
      exact ⟨fun c hc => ⟨(hmem c hc).1, by have := (hmem c hc).2; omega⟩, hord⟩
    · rename_i hskip
      obtain ⟨hmem, hord⟩ := ih (index + 1)
        (joinWords (normalizedTokens u (trimmed rule.phrase)) :: seen)
      simp only [Bool.or_eq_true, not_or, List.isEmpty_iff] at hskip
      refine ⟨fun c hc => ?_, List.pairwise_cons.mpr ⟨fun c hc => (hmem c hc).2, hord⟩⟩
      rcases List.mem_cons.mp hc with rfl | hc
      · exact ⟨hskip.1.2, Nat.le_refl _⟩
      · exact ⟨(hmem c hc).1, by have := (hmem c hc).2; omega⟩

theorem tokens_ne_nil {rules : List BindingRule} {c : CompiledRule} (h : c ∈ compileRules u rules) :
    c.tokens ≠ [] :=
  ((compileFrom_spec u rules 0 []).1 c h).1

/-! ## Candidates -/

/-- Where a candidate stands: its words are the transcript's there. -/
theorem mem_candidatesOf {ts : List Token} {rule : CompiledRule} {c : Candidate} :
    c ∈ candidatesOf ts rule ↔
      c.rule = rule ∧ c.tokenCount = rule.tokens.length ∧
        sequenceMatches ts c.startToken rule.tokens = true := by
  simp only [candidatesOf, List.mem_map, List.mem_filter, List.mem_range]
  constructor
  · rintro ⟨start, ⟨_, hs⟩, rfl⟩
    exact ⟨rfl, rfl, hs⟩
  · rintro ⟨rfl, hcount, hs⟩
    refine ⟨c.startToken, ⟨?_, hs⟩, by rw [← hcount]⟩
    simp only [sequenceMatches, Bool.and_eq_true, decide_eq_true_eq] at hs
    omega

/-- The words of a candidate are words of the transcript, and there is one. -/
structure Candidate.Fits (n : ℕ) (c : Candidate) : Prop where
  count_pos : 0 < c.tokenCount
  end_le : c.startToken + c.tokenCount ≤ n

theorem fits_of_mem {ts : List Token} {rules : List BindingRule} {c : Candidate}
    (h : c ∈ candidates ts (compileRules u rules)) : c.Fits ts.length := by
  obtain ⟨rule, hr, hc⟩ := List.mem_flatMap.mp h
  obtain ⟨rfl, hcount, hs⟩ := mem_candidatesOf.mp hc
  simp only [sequenceMatches, Bool.and_eq_true, decide_eq_true_eq] at hs
  exact ⟨hcount ▸ List.length_pos_of_ne_nil (tokens_ne_nil u hr), by omega⟩

theorem candidate_orders : Orders Candidate.before where
  asymm a b h := by
    simp only [Candidate.before] at h ⊢
    split_ifs at h ⊢ <;> simp_all <;> omega
  trans a b c hab hbc := by
    simp only [Candidate.before] at hab hbc ⊢
    split_ifs at hab hbc ⊢ <;> simp_all <;> omega

/-- Two candidates share a word. -/
def Candidate.clash (a b : Candidate) : Bool :=
  a.startToken < b.startToken + b.tokenCount && b.startToken < a.startToken + a.tokenCount

/-- The words taken are those of the candidates taken. -/
structure Occupies (n : ℕ) (occupied : List Bool) (taken : List Candidate) : Prop where
  length_eq : occupied.length = n
  getD_eq : ∀ i < n, occupied.getD i false =
    taken.any fun a => a.startToken ≤ i && i < a.startToken + a.tokenCount

theorem length_foldl_set (start : ℕ) (offsets : List ℕ) :
    ∀ occupied : List Bool,
      (offsets.foldl (fun o offset => o.set (start + offset) true) occupied).length = occupied.length := by
  induction offsets with
  | nil => exact fun _ => rfl
  | cons offset offsets ih => exact fun occupied => (ih _).trans List.length_set

theorem getD_occupy {c : Candidate} {occupied : List Bool} {i : ℕ} (hi : i < occupied.length) :
    (c.occupy occupied).getD i false =
      (occupied.getD i false || (c.startToken ≤ i && i < c.startToken + c.tokenCount)) := by
  rw [Candidate.occupy]
  induction c.tokenCount with
  | zero =>
    have : ¬ i < c.startToken + 0 ∨ ¬ c.startToken ≤ i := by omega
    rcases this with h | h <;> simp [h]
  | succ k ih =>
    have hlen := length_foldl_set c.startToken (List.range k) occupied
    rw [List.range_succ, List.foldl_append, List.foldl_cons, List.foldl_nil,
      List.getD_eq_getElem?_getD, List.getElem?_set]
    rw [List.getD_eq_getElem?_getD] at ih
    by_cases hik : c.startToken + k = i
    · subst hik
      simp [hlen, hi]
    · rw [if_neg hik, ih]
      congr 1
      rw [Bool.eq_iff_iff]
      simp only [Bool.and_eq_true, decide_eq_true_eq]
      omega

theorem Occupies.occupy {n : ℕ} {occupied : List Bool} {taken : List Candidate}
    (h : Occupies n occupied taken) (c : Candidate) : Occupies n (c.occupy occupied) (taken ++ [c]) := by
  refine ⟨(length_foldl_set _ _ occupied).trans h.length_eq, fun i hi => ?_⟩
  rw [getD_occupy (h.length_eq ▸ hi), h.getD_eq i hi, List.any_append, List.any_cons, List.any_nil,
    Bool.or_false]

theorem Occupies.overlaps {n : ℕ} {occupied : List Bool} {taken : List Candidate}
    (h : Occupies n occupied taken) (htaken : ∀ a ∈ taken, a.Fits n) {c : Candidate} (hc : c.Fits n) :
    c.overlaps occupied = taken.any (Candidate.clash · c) := by
  rw [Bool.eq_iff_iff]
  simp only [Candidate.overlaps, List.any_eq_true, List.mem_range, Candidate.clash, Bool.and_eq_true,
    decide_eq_true_eq]
  have hend := hc.end_le
  have hcount := hc.count_pos
  constructor
  · rintro ⟨offset, hoff, hocc⟩
    rw [h.getD_eq _ (by omega)] at hocc
    simp only [List.any_eq_true, Bool.and_eq_true, decide_eq_true_eq] at hocc
    obtain ⟨a, ha, h₁, h₂⟩ := hocc
    exact ⟨a, ha, by omega, by omega⟩
  · rintro ⟨a, ha, h₁, h₂⟩
    have hpos := (htaken a ha).count_pos
    refine ⟨max a.startToken c.startToken - c.startToken, by omega, ?_⟩
    rw [h.getD_eq _ (by omega)]
    simp only [List.any_eq_true, Bool.and_eq_true, decide_eq_true_eq]
    exact ⟨a, ha, by omega, by omega⟩

/-- The candidates the code accepts are the greedy ones. -/
theorem acceptFrom_eq {ts : List Token} :
    ∀ {l taken : List Candidate} {occupied : List Bool}, Occupies ts.length occupied taken →
      (∀ a ∈ taken, a.Fits ts.length) → (∀ c ∈ l, c.Fits ts.length) →
      taken.map (·.accept ts) ++ acceptFrom ts occupied l =
        (greedy Candidate.clash taken l).map (·.accept ts) := by
  intro l
  induction l with
  | nil =>
    intro taken occupied _ _ _
    rw [acceptFrom, greedy, List.append_nil]
  | cons c l ih =>
    intro taken occupied h htaken hl
    obtain ⟨hc, hl⟩ := List.forall_mem_cons.mp hl
    rw [acceptFrom, greedy, h.overlaps htaken hc]
    split
    · exact ih h htaken hl
    · rw [← ih (h.occupy c) (List.forall_mem_append.mpr ⟨htaken, by simpa using hc⟩) hl,
        List.map_append, List.append_assoc]
      rfl

/-! ## The matches found -/

/-- The candidates for a transcript. -/
def candidatesIn (transcript : Text) (rules : List BindingRule) : List Candidate :=
  candidates (tokenizeWithSpans u transcript) (compileRules u rules)

/-- The candidates accepted, longest first. -/
def acceptedIn (transcript : Text) (rules : List BindingRule) : List Candidate :=
  greedy Candidate.clash [] (sortBy Candidate.before (candidatesIn u transcript rules))

theorem occupies_nil (ts : List Token) : Occupies ts.length (ts.map fun _ => false) [] := by
  refine ⟨List.length_map _, fun i hi => ?_⟩
  simp [List.getD_eq_getElem?_getD, hi]

theorem findMatches_eq (t : Text) (rules : List BindingRule) :
    findMatches u t rules = sortBy (fun left right => left.start < right.start)
      ((acceptedIn u t rules).map (·.accept (tokenizeWithSpans u t))) := by
  have hfits : ∀ c ∈ sortBy Candidate.before (candidatesIn u t rules),
      c.Fits (tokenizeWithSpans u t).length := fun c hc =>
    fits_of_mem u ((sortBy_perm _ _).mem_iff.mp hc)
  have heq := acceptFrom_eq (occupies_nil (tokenizeWithSpans u t)) (by simp) hfits
  rw [findMatches]
  split
  · rename_i hempty
    have : candidatesIn u t rules = [] := by
      rw [List.eq_nil_iff_forall_not_mem]
      intro c hc
      have hfit := fits_of_mem u hc
      obtain ⟨rule, hr, -⟩ := List.mem_flatMap.mp hc
      rcases Bool.or_eq_true _ _ |>.mp hempty with h | h
      · have := hfit.end_le
        have := hfit.count_pos
        rw [List.isEmpty_iff.mp h, List.length_nil] at *
        omega
      · rw [List.isEmpty_iff.mp h] at hr
        cases hr
    rw [acceptedIn, this]
    rfl
  · exact congrArg _ heq

theorem mem_findMatches {t : Text} {rules : List BindingRule} {m : BindingMatch} :
    m ∈ findMatches u t rules ↔ ∃ c ∈ acceptedIn u t rules, c.accept (tokenizeWithSpans u t) = m := by
  rw [findMatches_eq, (sortBy_perm _ _).mem_iff, List.mem_map]

theorem before_total {a b : Candidate}
    (h : a.tokenCount ≠ b.tokenCount ∨ a.startToken ≠ b.startToken ∨ a.rule.order ≠ b.rule.order) :
    a.before b = true ∨ b.before a = true := by
  by_cases hcount : a.tokenCount = b.tokenCount
  · by_cases hstart : a.startToken = b.startToken
    · have := (h.resolve_left (absurd hcount)).resolve_left (absurd hstart)
      simp only [Candidate.before, hcount, hstart, ne_eq, not_true_eq_false, if_false, decide_eq_true_eq]
      omega
    · simp only [Candidate.before, hcount, hstart, Ne.symm hstart, ne_eq, not_true_eq_false, not_false_eq_true,
        if_false, if_true, decide_eq_true_eq]
      omega
  · simp only [Candidate.before, hcount, Ne.symm hcount, ne_eq, not_false_eq_true, if_true, decide_eq_true_eq]
    omega

theorem candidates_total (t : Text) (rules : List BindingRule) :
    (candidatesIn u t rules).Pairwise fun a b => a.before b = true ∨ b.before a = true := by
  refine List.pairwise_flatMap.mpr ⟨fun rule _ => ?_, ?_⟩
  · refine List.Pairwise.map _ (fun a b h => ?_) (List.Pairwise.filter _ List.pairwise_lt_range)
    exact before_total (.inr (.inl (Nat.ne_of_lt h)))
  · refine (compileFrom_spec u rules 0 []).2.imp fun {r r'} hord a ha b hb => ?_
    rw [← (mem_candidatesOf.mp ha).1, ← (mem_candidatesOf.mp hb).1] at hord
    exact before_total (.inr (.inr (Nat.ne_of_lt hord)))

theorem sorted_before (t : Text) (rules : List BindingRule) :
    (sortBy Candidate.before (candidatesIn u t rules)).Pairwise fun a b => a.before b = true := by
  have htotal := ((sortBy_perm Candidate.before _).pairwise_iff (fun {a b} h => h.symm)).mpr
    (candidates_total u t rules)
  refine ((sortBy_pairwise candidate_orders _).and htotal).imp fun {a b} h => ?_
  exact h.2.resolve_right (by rw [h.1]; decide)

/-- **The accepted candidates are the longest-first choice among all candidates.** -/
theorem accepted_isChoice (t : Text) (rules : List BindingRule) :
    IsChoice (· ∈ candidatesIn u t rules) (fun a b => a.before b = true) Candidate.clash
      (· ∈ acceptedIn u t rules) := by
  have hasymm : ∀ a b : Candidate, a.before b = true → ¬ b.before a = true := fun a b h => by
    rw [candidate_orders.asymm a b h]
    decide
  intro c
  have hchoice : IsChoice _ _ Candidate.clash (· ∈ acceptedIn u t rules) :=
    greedy_isChoice (sorted_before u t rules) hasymm
  exact (hchoice c).trans (and_congr_left' (sortBy_perm _ _).mem_iff)

theorem fits_of_accepted {t : Text} {rules : List BindingRule} {c : Candidate}
    (h : c ∈ acceptedIn u t rules) : c.Fits (tokenizeWithSpans u t).length :=
  fits_of_mem u ((accepted_isChoice u t rules c).mp h).1

theorem accepted_pairwise (t : Text) (rules : List BindingRule) :
    (acceptedIn u t rules).Pairwise (Candidate.clash · · = false) :=
  greedy_pairwise _ List.Pairwise.nil

/-! ## Where the matches stand -/

theorem getD_mem {ts : List Token} {i : ℕ} (h : i < ts.length) : ts.getD i default ∈ ts := by
  rw [← List.getElem_eq_getD (h := h)]
  exact List.getElem_mem h

theorem getD_apart {ts : List Token} (h : Apart ts) {i j : ℕ} (hij : i < j) (hj : j < ts.length) :
    (ts.getD i default).stop < (ts.getD j default).start := by
  rw [← List.getElem_eq_getD (h := hij.trans hj), ← List.getElem_eq_getD (h := hj)]
  exact List.pairwise_iff_getElem.mp h i j _ hj hij

/-- A stretch of text that no letter or number touches. -/
structure Isolated (t : Text) (s : Span) : Prop where
  start_lt : s.start < s.stop
  stop_le : s.stop ≤ t.length
  before : (t.take s.start).getLast?.any u.isLetterOrNumber = false
  after : (t.drop s.stop).head?.any u.isLetterOrNumber = false

theorem accept_isolated {t : Text} {c : Candidate} (h : c.Fits (tokenizeWithSpans u t).length) :
    Isolated u t (c.accept (tokenizeWithSpans u t)).span := by
  have hcount := h.count_pos
  have hend := h.end_le
  have hfirst := isToken_of_mem u (getD_mem (show c.startToken < (tokenizeWithSpans u t).length by omega))
  have hlast := isToken_of_mem u
    (getD_mem (show c.startToken + c.tokenCount - 1 < (tokenizeWithSpans u t).length by omega))
  refine ⟨?_, hlast.stop_le, hfirst.before, hlast.after⟩
  simp only [BindingMatch.span, Candidate.accept]
  rcases Nat.eq_or_lt_of_le hcount with h1 | h1
  · rw [← h1, Nat.add_sub_cancel]
    exact hfirst.start_lt
  · have := getD_apart (tokens_apart u t) (i := c.startToken) (j := c.startToken + c.tokenCount - 1)
      (by omega) (by omega)
    have := hfirst.start_lt
    have := hlast.start_lt
    omega

theorem accept_apart {t : Text} {a b : Candidate} (ha : a.Fits (tokenizeWithSpans u t).length)
    (hb : b.Fits (tokenizeWithSpans u t).length) (h : a.clash b = false) :
    (a.accept (tokenizeWithSpans u t)).stop < (b.accept (tokenizeWithSpans u t)).start ∨
      (b.accept (tokenizeWithSpans u t)).stop < (a.accept (tokenizeWithSpans u t)).start := by
  have := ha.count_pos
  have := ha.end_le
  have := hb.count_pos
  have := hb.end_le
  simp only [Candidate.clash, Bool.and_eq_false_iff, decide_eq_false_iff_not, not_lt] at h
  rcases h with h | h
  · exact .inr (getD_apart (tokens_apart u t) (by omega) (by omega))
  · exact .inl (getD_apart (tokens_apart u t) (by omega) (by omega))

/-- **No letter or number touches a match.** -/
theorem isolated_of_mem {t : Text} {rules : List BindingRule} {m : BindingMatch}
    (h : m ∈ findMatches u t rules) : Isolated u t m.span := by
  obtain ⟨c, hc, rfl⟩ := (mem_findMatches u).mp h
  exact accept_isolated u (fits_of_accepted u hc)

/-- **The matches come in text order, and a character lies between two.** -/
theorem matches_ordered (t : Text) (rules : List BindingRule) :
    (findMatches u t rules).Pairwise fun m m' => m.stop < m'.start := by
  have hapart : (findMatches u t rules).Pairwise fun m m' => m.stop < m'.start ∨ m'.stop < m.start := by
    rw [findMatches_eq, (sortBy_perm _ _).pairwise_iff fun {a b} h => h.symm, List.pairwise_map]
    refine (accepted_pairwise u t rules).imp_of_mem fun {a b} ha hb h => ?_
    exact accept_apart u (fits_of_accepted u ha) (fits_of_accepted u hb) h
  have horders : Orders fun left right : BindingMatch => decide (left.start < right.start) := by
    constructor
    · intro a b
      simp only [decide_eq_true_eq, decide_eq_false_iff_not]
      omega
    · intro a b c
      simp only [decide_eq_false_iff_not]
      omega
  have hsorted : (findMatches u t rules).Pairwise fun m m' => ¬ m'.start < m.start := by
    rw [findMatches_eq]
    exact (sortBy_pairwise horders _).imp fun h => by simpa using h
  refine (hapart.and hsorted).imp_of_mem fun {m m'} hm hm' h => ?_
  have := (isolated_of_mem u hm).start_lt
  have := (isolated_of_mem u hm').start_lt
  simp only [BindingMatch.span] at *
  omega

end Speecher
