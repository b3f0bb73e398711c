import Speecher.Bindings.Android

/-!
# The two ports match alike

The desktop keeps words, compiled rules and candidates apart where Android keeps one list of
matches, trims phrases its own way and leaves ties to a stable sort. `eraseRule` forgets the one
difference that can remain, how a rule's phrase was trimmed.

* `words_eq`: the scanners agree.
* `usable`: the rules both ports keep, with their phrases normalized.
-/

namespace Speecher

variable (u : Unicode)

/-! ## Words -/

theorem wordsFrom_eq (text : Text) :
    ∀ (rest pre current : Text) (tokenStart : ℕ), text = pre ++ (current ++ rest) →
      (current ≠ [] → tokenStart = pre.length) →
      tokenizeFrom u rest (pre.length + current.length) current tokenStart =
        Android.wordsFrom u text rest (pre.length + current.length)
          (if current.isEmpty then none else some pre.length) := by
  intro rest
  induction rest with
  | nil =>
    intro pre current tokenStart htext hs
    cases current with
    | nil => rfl
    | cons d current =>
      rw [tokenizeFrom, Android.wordsFrom, flushToken, hs (List.cons_ne_nil d current), htext]
      simp only [List.isEmpty_cons, Bool.false_eq_true, if_false, Option.toList_some, List.map_cons,
        List.map_nil, extract_length_append]
  | cons c rest ih =>
    intro pre current tokenStart htext hs
    by_cases hc : u.isLetterOrNumber c = true
    · have := ih pre (current ++ [c]) (if current.isEmpty then pre.length + current.length else tokenStart)
        (by rw [htext, List.append_assoc]; rfl)
        (by
          intro _
          cases current with
          | nil => rfl
          | cons d l => exact hs (List.cons_ne_nil d l))
      rw [List.length_append, ← Nat.add_assoc] at this
      rw [tokenizeFrom, Android.wordsFrom, if_pos hc, if_pos hc]
      refine this.trans ?_
      cases current <;> rfl
    · have := ih (pre ++ (current ++ [c])) [] 0 (by rw [htext]; simp) (absurd rfl)
      simp only [List.length_append, List.length_cons, List.length_nil, Nat.zero_add, Nat.add_zero,
        ← Nat.add_assoc] at this
      rw [tokenizeFrom, Android.wordsFrom, if_neg hc, if_neg hc, this]
      refine congrArg (· ++ _) ?_
      cases current with
      | nil => rfl
      | cons d current =>
        rw [flushToken, hs (List.cons_ne_nil d current), htext]
        simp only [List.isEmpty_cons, Bool.false_eq_true, if_false, Option.toList_some, List.map_cons,
          List.map_nil, extract_length_append]

/-- **The ports cut a text into the same words.** -/
theorem words_eq (t : Text) : Android.words u t = tokenizeWithSpans u t :=
  (wordsFrom_eq u t t [] [] 0 rfl (absurd rfl)).symm

theorem normalizedPhrase_eq (t : Text) : Android.normalizedPhrase u t = normalizedPhrase u t := by
  rw [Android.normalizedPhrase, words_eq]
  rfl

/-! ### Characters that are no letters or numbers around a phrase -/

/-- The words found do not depend on where the text stands. -/
theorem texts_tokenizeFrom (rest : Text) :
    ∀ (i i' : ℕ) (current : Text) (s s' : ℕ),
      (tokenizeFrom u rest i current s).map Token.text = (tokenizeFrom u rest i' current s').map Token.text := by
  have hflush : ∀ current (s s' e e' : ℕ),
      (flushToken u current s e).map Token.text = (flushToken u current s' e').map Token.text := by
    intro current s s' e e'
    rw [flushToken, flushToken]
    split <;> rfl
  induction rest with
  | nil => exact fun i i' current s s' => hflush current s s' i i'
  | cons c rest ih =>
    intro i i' current s s'
    rw [tokenizeFrom, tokenizeFrom]
    split
    · exact ih ..
    · rw [List.map_append, List.map_append, hflush current s s' i i', ih (i + 1) (i' + 1) [] 0 0]

theorem normalizedTokens_cons {c : Char} (hc : u.isLetterOrNumber c = false) (t : Text) :
    normalizedTokens u (c :: t) = normalizedTokens u t := by
  rw [normalizedTokens, normalizedTokens, tokenizeWithSpans, tokenizeFrom, if_neg (by rw [hc]; decide)]
  exact texts_tokenizeFrom u t 1 0 [] 0 0

theorem tokenizeFrom_concat {c : Char} (hc : u.isLetterOrNumber c = false) (t : Text) :
    ∀ (i : ℕ) (current : Text) (s : ℕ), tokenizeFrom u (t ++ [c]) i current s = tokenizeFrom u t i current s := by
  induction t with
  | nil =>
    intro i current s
    simp only [List.nil_append, tokenizeFrom, hc, Bool.false_eq_true, if_false]
    exact List.append_nil _
  | cons d t ih =>
    intro i current s
    simp only [List.cons_append, tokenizeFrom, ih]

theorem normalizedTokens_dropWhile {p : Char → Bool} (hp : ∀ c, p c = true → u.isLetterOrNumber c = false)
    (t : Text) : normalizedTokens u (t.dropWhile p) = normalizedTokens u t := by
  induction t with
  | nil => rfl
  | cons c t ih =>
    rw [List.dropWhile_cons]
    split
    · rename_i hc
      rw [ih, normalizedTokens_cons u (hp c hc)]
    · rfl

theorem normalizedTokens_rdropWhile {p : Char → Bool} (hp : ∀ c, p c = true → u.isLetterOrNumber c = false)
    (t : Text) : normalizedTokens u (t.rdropWhile p) = normalizedTokens u t := by
  induction t using List.reverseRecOn with
  | nil => rfl
  | append_singleton t c ih =>
    rw [List.rdropWhile_concat]
    split
    · rename_i hc
      rw [ih, normalizedTokens, normalizedTokens, tokenizeWithSpans, tokenizeWithSpans,
        tokenizeFrom_concat u (hp c hc)]
    · rfl

/-- A phrase keeps its words when it is trimmed. -/
theorem normalizedTokens_stripped {p : Char → Bool} (hp : ∀ c, p c = true → u.isLetterOrNumber c = false)
    (t : Text) : normalizedTokens u (stripped p t) = normalizedTokens u t := by
  rw [stripped, normalizedTokens_rdropWhile u hp, normalizedTokens_dropWhile u hp]

theorem normalizedPhrase_trimmed (t : Text) : normalizedPhrase u (trimmed t) = normalizedPhrase u t := by
  rw [normalizedPhrase, trimmed, normalizedTokens_stripped u u.space]
  rfl

/-- What Kotlin takes for white space is no letter or number either. -/
theorem isLetterOrNumber_of_isWhitespace {c : Char} (h : Android.isWhitespace c = true) :
    u.isLetterOrNumber c = false := by
  by_cases hs : isSpace c = true
  · exact u.space c hs
  · have hsep : 0x1c ≤ c.toNat ∧ c.toNat ≤ 0x1f := by
      simp only [Android.isWhitespace, isSpace, Bool.or_eq_true, Bool.and_eq_true, decide_eq_true_eq] at h hs
      omega
    rw [u.ascii c (by omega)]
    refine Bool.eq_false_iff.mpr fun hw => ?_
    have := toNat_of_isAlphanum hw
    omega

theorem normalizedPhrase_trim (t : Text) : normalizedPhrase u (Android.trim t) = normalizedPhrase u t := by
  rw [normalizedPhrase, Android.trim, normalizedTokens_stripped u fun c hc => isLetterOrNumber_of_isWhitespace u hc]
  rfl

/-! ## Usable rules -/

theorem token_text {t w : Text} (h : w ∈ normalizedTokens u t) : w ≠ [] ∧ ' ' ∉ w := by
  obtain ⟨k, hk, rfl⟩ := List.mem_map.mp h
  have htoken := isToken_of_mem u hk
  rw [htoken.text_eq]
  refine ⟨u.folded_ne_nil _ fun hnil => ?_, u.folded_space _ fun hspace => ?_⟩
  · have := congrArg List.length hnil
    rw [List.extract_eq_take_drop, List.length_take, List.length_drop, List.length_nil] at this
    have := htoken.start_lt
    have := htoken.stop_le
    omega
  · have := htoken.word ' ' hspace
    rw [u.space ' ' (by decide)] at this
    cases this

theorem normalizedPhrase_eq_nil {t : Text} : normalizedPhrase u t = [] ↔ normalizedTokens u t = [] := by
  refine ⟨fun h => ?_, fun h => by rw [normalizedPhrase, h]; rfl⟩
  by_contra hne
  have := List.splitOn_intercalate ' ' (fun _ hw => (token_text u hw).2) hne
  rw [show [' '].intercalate (normalizedTokens u t) = [] from h] at this
  exact (token_text u (this ▸ List.mem_singleton.mpr rfl : [] ∈ normalizedTokens u t)).1 rfl

/-- The words of a phrase are read back from its normal form. -/
theorem splitOn_normalizedPhrase {t : Text} (h : normalizedTokens u t ≠ []) :
    (normalizedPhrase u t).splitOn ' ' = normalizedTokens u t :=
  List.splitOn_intercalate _ (fun _ hw => (token_text u hw).2) h

/-- A rule with its phrase normalized. -/
def eraseRule (rule : BindingRule) : BindingRule := ⟨normalizedPhrase u rule.phrase, rule.replacement⟩

@[simp] theorem eraseRule_phrase (rule : BindingRule) :
    (eraseRule u rule).phrase = normalizedPhrase u rule.phrase := rfl

@[simp] theorem eraseRule_replacement (rule : BindingRule) :
    (eraseRule u rule).replacement = rule.replacement := rfl

theorem eraseRule_trimmed (rule : BindingRule) :
    eraseRule u ⟨trimmed rule.phrase, rule.replacement⟩ = eraseRule u rule := by
  rw [eraseRule, normalizedPhrase_trimmed]
  rfl

theorem eraseRule_trim (rule : BindingRule) :
    eraseRule u ⟨Android.trim rule.phrase, rule.replacement⟩ = eraseRule u rule := by
  rw [eraseRule, normalizedPhrase_trim]
  rfl

/-- Of normalized rules those that can apply: with words, a text that is not blank, and a phrase not
taken before. -/
def usable (blank : Text → Bool) : List BindingRule → List Text → List BindingRule
  | [], _ => []
  | rule :: rest, seen =>
    if rule.phrase.isEmpty || blank rule.replacement || seen.contains rule.phrase then usable blank rest seen
    else rule :: usable blank rest (rule.phrase :: seen)

/-- Blank to the desktop. -/
def qtBlank (text : Text) : Bool := (trimmed text).isEmpty

theorem normalizedTokens_nil : normalizedTokens u [] = [] := rfl

/-- The desktop's two tests for a phrase without words are one. -/
theorem phrase_isEmpty (t : Text) :
    ((trimmed t).isEmpty || (normalizedTokens u (trimmed t)).isEmpty) = (normalizedPhrase u t).isEmpty := by
  rw [← normalizedPhrase_trimmed, Bool.eq_iff_iff]
  simp only [Bool.or_eq_true, List.isEmpty_iff]
  rw [normalizedPhrase_eq_nil]
  refine ⟨fun h => h.elim (fun h => ?_) id, .inr⟩
  rw [h, normalizedTokens_nil]

theorem map_compileFrom (rules : List BindingRule) :
    ∀ index seen, (compileFrom u rules index seen).map (fun c => eraseRule u c.rule) =
      usable qtBlank (rules.map (eraseRule u)) seen := by
  induction rules with
  | nil => exact fun _ _ => rfl
  | cons rule rest ih =>
    intro index seen
    have hjoin : joinWords (normalizedTokens u (trimmed rule.phrase)) = normalizedPhrase u rule.phrase :=
      normalizedPhrase_trimmed u rule.phrase
    have hcond : ((trimmed rule.phrase).isEmpty || (trimmed rule.replacement).isEmpty ||
          (normalizedTokens u (trimmed rule.phrase)).isEmpty ||
          seen.contains (normalizedPhrase u rule.phrase)) =
        ((normalizedPhrase u rule.phrase).isEmpty || qtBlank rule.replacement ||
          seen.contains (normalizedPhrase u rule.phrase)) := by
      rw [← phrase_isEmpty, Bool.or_right_comm (trimmed rule.phrase).isEmpty]
      rfl
    by_cases hskip : ((normalizedPhrase u rule.phrase).isEmpty || qtBlank rule.replacement ||
        seen.contains (normalizedPhrase u rule.phrase)) = true
    · simp only [compileFrom, hjoin, hcond, List.map_cons, usable, eraseRule_phrase, eraseRule_replacement,
        hskip, if_true, ih]
    · simp only [compileFrom, hjoin, hcond, List.map_cons, usable, eraseRule_phrase, eraseRule_replacement,
        hskip, Bool.false_eq_true, if_false, ih, eraseRule_trimmed]

theorem contains_map_fst (seen : List (Text × ℕ)) (w : Text) :
    (seen.map Prod.fst).contains w = (seen.lookup w).isSome := by
  induction seen with
  | nil => rfl
  | cons p seen ih =>
    rw [List.map_cons, List.contains_cons, List.lookup_cons, ih]
    cases h : w == p.1 <;> simp

theorem map_validateFrom (rules : List BindingRule) :
    ∀ row seen, (validateFrom u rules row seen).rules.map (eraseRule u) =
      usable qtBlank (rules.map (eraseRule u)) (seen.map Prod.fst) := by
  induction rules with
  | nil => exact fun _ _ => rfl
  | cons rule rest ih =>
    intro row seen
    have hjoin : joinWords (normalizedTokens u (trimmed rule.phrase)) = normalizedPhrase u rule.phrase :=
      normalizedPhrase_trimmed u rule.phrase
    simp only [validateFrom, List.map_cons, usable, phrase_isEmpty, contains_map_fst, hjoin,
      eraseRule_phrase, eraseRule_replacement]
    by_cases hphrase : (normalizedPhrase u rule.phrase).isEmpty = true
    · simp only [hphrase, if_true, Bool.true_or, ih]
    · by_cases hblank : (trimmed rule.replacement).isEmpty = true
      · simp only [hphrase, hblank, qtBlank, if_true, Bool.false_eq_true, if_false, Bool.or_true, Bool.true_or, ih]
      · cases hseen : seen.lookup (normalizedPhrase u rule.phrase) with
        | some d =>
          simp only [hphrase, hblank, Bool.false_eq_true, if_false, Option.isSome_some, Bool.or_true, if_true,
            ih]
        | none =>
          simp only [hphrase, hblank, qtBlank, Bool.false_eq_true, if_false, Option.isSome_none, Bool.or_false,
            List.map_cons, ih, eraseRule_trimmed]

theorem map_checkFrom (rules : List BindingRule) :
    ∀ index seen, (Android.checkFrom u rules index seen).1.map (eraseRule u) =
      usable Android.isBlank (rules.map (eraseRule u)) (seen.map Prod.fst) := by
  induction rules with
  | nil => exact fun _ _ => rfl
  | cons rule rest ih =>
    intro index seen
    simp only [Android.checkFrom, List.map_cons, usable, contains_map_fst, normalizedPhrase_eq,
      normalizedPhrase_trim, eraseRule_phrase, eraseRule_replacement]
    by_cases hphrase : (normalizedPhrase u rule.phrase).isEmpty = true
    · simp only [hphrase, if_true, Bool.true_or, ih]
    · by_cases hblank : Android.isBlank rule.replacement = true
      · simp only [hphrase, hblank, if_true, Bool.false_eq_true, if_false, Bool.or_true, Bool.true_or, ih]
      · cases hseen : seen.lookup (normalizedPhrase u rule.phrase) with
        | some d =>
          simp only [hphrase, hblank, Bool.false_eq_true, if_false, Option.isSome_some, Bool.or_true, if_true,
            ih]
        | none =>
          simp only [hphrase, hblank, Bool.false_eq_true, if_false, Option.isSome_none, Bool.or_false,
            List.map_cons, ih, eraseRule_trim]

theorem usable_congr {blank blank' : Text → Bool} {rules : List BindingRule}
    (h : ∀ rule ∈ rules, rule.phrase ≠ [] → blank rule.replacement = blank' rule.replacement) :
    ∀ seen, usable blank rules seen = usable blank' rules seen := by
  induction rules with
  | nil => exact fun _ => rfl
  | cons rule rest ih =>
    intro seen
    obtain ⟨hrule, hrest⟩ := List.forall_mem_cons.mp h
    rw [usable, usable, ih hrest, ih hrest]
    by_cases hphrase : rule.phrase = []
    · rw [hphrase]
      rfl
    · rw [hrule hphrase]

/-- What `usable` keeps can be used, and no phrase twice. -/
theorem usable_spec (blank : Text → Bool) (rules : List BindingRule) :
    ∀ seen, (∀ rule ∈ usable blank rules seen,
        rule.phrase ≠ [] ∧ blank rule.replacement = false ∧ rule.phrase ∉ seen) ∧
      (usable blank rules seen).Pairwise fun r r' => r.phrase ≠ r'.phrase := by
  induction rules with
  | nil => exact fun _ => ⟨by simp [usable], List.Pairwise.nil⟩
  | cons rule rest ih =>
    intro seen
    rw [usable]
    split
    · exact ih seen
    · rename_i hskip
      simp only [Bool.or_eq_true, not_or, List.isEmpty_iff, Bool.not_eq_true, List.contains_iff_mem] at hskip
      obtain ⟨hmem, hpair⟩ := ih (rule.phrase :: seen)
      refine ⟨List.forall_mem_cons.mpr ⟨⟨hskip.1.1, hskip.1.2, hskip.2⟩, fun r hr => ?_⟩,
        List.pairwise_cons.mpr ⟨fun r hr => ?_, hpair⟩⟩
      · exact ⟨(hmem r hr).1, (hmem r hr).2.1, fun h => (hmem r hr).2.2 (List.mem_cons_of_mem _ h)⟩
      · exact fun h => (hmem r hr).2.2 (h ▸ List.mem_cons_self)

theorem usable_eq_self {blank : Text → Bool} {rules : List BindingRule}
    (hpair : rules.Pairwise fun r r' => r.phrase ≠ r'.phrase) :
    ∀ seen, (∀ rule ∈ rules, rule.phrase ≠ [] ∧ blank rule.replacement = false ∧ rule.phrase ∉ seen) →
      usable blank rules seen = rules := by
  induction rules with
  | nil => exact fun _ _ => rfl
  | cons rule rest ih =>
    intro seen h
    obtain ⟨hne, hblank, hseen⟩ := h rule List.mem_cons_self
    obtain ⟨hhead, hpair⟩ := List.pairwise_cons.mp hpair
    rw [usable, if_neg, ih hpair]
    · intro r hr
      obtain ⟨hr₁, hr₂, hr₃⟩ := h r (List.mem_cons_of_mem rule hr)
      refine ⟨hr₁, hr₂, fun hmem => ?_⟩
      exact (List.mem_cons.mp hmem).elim (fun he => hhead r hr he.symm) hr₃
    · simp only [Bool.or_eq_true, not_or, List.isEmpty_iff, hblank, List.contains_iff_mem, Bool.false_eq_true,
        not_false_eq_true, and_true]
      exact ⟨hne, hseen⟩

/-- Choosing the usable rules again changes nothing. -/
theorem usable_usable (blank : Text → Bool) (rules : List BindingRule) :
    usable blank (usable blank rules []) [] = usable blank rules [] :=
  usable_eq_self (usable_spec blank rules []).2 [] (usable_spec blank rules []).1

end Speecher
