import Speecher.Bindings.Android
import Speecher.Foundations.KeyedMerge
import Speecher.Settings.AndroidCorrections
import Speecher.Settings.Vocabulary
import Speecher.Transfer.SettingsBundle

/-!
# Vocabulary on Android

`normalizedVocabulary`, the Android port of `normalizeVocabularyEntries`, as its own code has it: words tidied, one a
term, in send order.

* `simplified_eq`: `String.simplified` is `QString::simplified`.
* `tidy_normalizedVocabulary`, `normalizedVocabulary_of_apart`: what the list is, and that words already apart are only
  sorted.
-/

namespace Speecher

/-! ## Simplified texts -/

namespace Android

/-- `simplified`, one character at a time. -/
def simplifiedStep (built : Text) (c : Char) : Text :=
  if !isQtWhitespace c then built ++ [c] else if built.getLast? ≠ some ' ' then built ++ [' '] else built

/-- `String.simplified`. -/
def simplified (text : Text) : Text := (trimQt text).foldl simplifiedStep []

end Android

theorem joinWords_cons_cons (c : Char) (word : Text) (words : List Text) :
    joinWords ((c :: word) :: words) = c :: joinWords (word :: words) := by
  cases words <;> simp [joinWords, List.intercalate]

theorem joinWords_nil_cons {words : List Text} (h : words ≠ []) : joinWords ([] :: words) = ' ' :: joinWords words := by
  cases words with
  | nil => exact absurd rfl h
  | cons word words => simp [joinWords, List.intercalate]

/-- What is built of a text that ends in no space: after a letter the words that follow, the first of which may go on the
word before, and after a space the words alone. -/
theorem foldl_simplifiedStep {text : Text} (hlast : ∀ c ∈ text.getLast?, isSpace c = false) :
    (text ≠ [] → wordsOf text ≠ []) ∧
    (∀ (built : Text) (d : Char), isSpace d = false → text.foldl Android.simplifiedStep (built ++ [d]) =
      built ++ [d] ++
        joinWords ((text.splitOnP isSpace).headD [] :: (text.splitOnP isSpace).tail.filter (!·.isEmpty))) ∧
    ∀ built : Text, text.foldl Android.simplifiedStep (built ++ [' ']) = built ++ [' '] ++ joinWords (wordsOf text) := by
  induction text with
  | nil => simp [joinWords, wordsOf]
  | cons c text ih =>
    obtain ⟨hwords, hletter, hspace⟩ := ih fun d hd => hlast d (List.mem_getLast?_cons hd)
    obtain ⟨first, rest, hsplit⟩ := List.exists_cons_of_ne_nil (List.splitOnP_ne_nil isSpace text)
    have hcons := List.splitOnP_cons_eq_if_modifyHead (p := isSpace) c text
    cases hc : isSpace c with
    | true =>
      have hne : text ≠ [] := by
        rintro rfl
        rw [hlast c rfl] at hc
        cases hc
      rw [hc, if_pos rfl] at hcons
      have hof : wordsOf (c :: text) = wordsOf text := by rw [wordsOf, hcons]; rfl
      refine ⟨fun _ => by rw [hof]; exact hwords hne, fun built d hd => ?_, fun built => ?_⟩
      · have hstep : Android.simplifiedStep (built ++ [d]) c = built ++ [d] ++ [' '] := by
          have hspaces : d ≠ ' ' := fun h => Bool.false_ne_true (hd.symm.trans (by rw [h]; rfl))
          simp [Android.simplifiedStep, Android.isQtWhitespace_eq, hc, hspaces]
        rw [List.foldl_cons, hstep, hspace, hcons, List.headD_cons, List.tail_cons]
        show _ = built ++ [d] ++ joinWords ([] :: wordsOf text)
        rw [joinWords_nil_cons (hwords hne), List.append_assoc _ [' ']]
        rfl
      · have hstep : Android.simplifiedStep (built ++ [' ']) c = built ++ [' '] := by
          simp [Android.simplifiedStep, Android.isQtWhitespace_eq, hc]
        rw [List.foldl_cons, hstep, hspace, hof]
    | false =>
      rw [hc, if_neg Bool.false_ne_true, hsplit, List.modifyHead_cons] at hcons
      rw [hsplit, List.headD_cons, List.tail_cons] at hletter
      have hof : wordsOf (c :: text) = (c :: first) :: rest.filter (!·.isEmpty) := by rw [wordsOf, hcons]; rfl
      have hstep : ∀ built, Android.simplifiedStep built c = built ++ [c] := fun built => by
        simp [Android.simplifiedStep, Android.isQtWhitespace_eq, hc]
      refine ⟨fun _ => by rw [hof]; exact List.cons_ne_nil _ _, fun built d hd => ?_, fun built => ?_⟩
      · rw [List.foldl_cons, hstep, hletter _ c hc, hcons, List.headD_cons, List.tail_cons, joinWords_cons_cons,
          List.append_assoc _ [c]]
        rfl
      · rw [List.foldl_cons, hstep, hletter _ c hc, hof, joinWords_cons_cons, List.append_assoc _ [c]]
        rfl

/-- **The ports simplify alike.** -/
theorem simplified_eq (text : Text) : Android.simplified text = simplified text := by
  rw [Android.simplified, Android.trimQt_eq, simplified]
  show _ = joinWords (wordsOf text)
  rw [← wordsOf_trimmed]
  have hlast := getLast?_of_trimmed (trimmed_trimmed text)
  cases htext : trimmed text with
  | nil => rfl
  | cons c rest =>
    have hc : isSpace c = false := by
      have hne : text.dropWhile isSpace ≠ [] := by
        intro hnil
        rw [trimmed, stripped, hnil] at htext
        cases htext
      have hhead := List.head_dropWhile_not isSpace hne
      obtain ⟨tail, htail⟩ := List.rdropWhile_prefix isSpace (l := text.dropWhile isSpace)
      rw [trimmed, stripped] at htext
      generalize text.dropWhile isSpace = left at htext hne hhead htail
      rw [htext] at htail
      subst htail
      exact Bool.eq_false_iff.mpr fun h => Bool.false_ne_true (hhead.symm.trans h)
    obtain ⟨first, words, hsplit⟩ := List.exists_cons_of_ne_nil (List.splitOnP_ne_nil isSpace rest)
    have hcons := List.splitOnP_cons_eq_if_modifyHead (p := isSpace) c rest
    rw [hc, if_neg Bool.false_ne_true, hsplit, List.modifyHead_cons] at hcons
    have hstep : Android.simplifiedStep [] c = [c] := by
      simp [Android.simplifiedStep, Android.isQtWhitespace_eq, hc]
    have hrest := (foldl_simplifiedStep fun d hd => hlast d (htext ▸ List.mem_getLast?_cons hd)).2.1 [] c hc
    rw [hsplit, List.headD_cons, List.tail_cons, List.nil_append] at hrest
    rw [List.foldl_cons, hstep, hrest, wordsOf, hcons]
    exact (joinWords_cons_cons c first _).symm

/-! ## Tidying a word -/

namespace Android

/-- A word as it is kept. -/
def VocabularyWord.tidied (word : VocabularyWord) : VocabularyWord :=
  { word with
    term := simplified word.term
    context := trim word.context
    source := if (simplified word.source).isEmpty then "manual".toList else simplified word.source
    frequency := max 0 word.frequency
    lastUsedMs := max 0 word.lastUsedMs }

/-- A word with what a later copy of its term adds. -/
def VocabularyWord.merged (first word : VocabularyWord) : VocabularyWord :=
  { first with
    priority := first.priority || word.priority
    frequency := max first.frequency word.frequency
    lastUsedMs := max first.lastUsedMs word.lastUsedMs
    context := if first.context.isEmpty then word.context else first.context }

theorem VocabularyWord.tidied_tidied (word : VocabularyWord) : word.tidied.tidied = word.tidied := by
  have hsource : (if (simplified word.tidied.source).isEmpty then "manual".toList else simplified word.tidied.source) =
      word.tidied.source := by
    have hmanual : simplified "manual".toList = "manual".toList := by decide
    show (if (simplified (if _ then _ else _)).isEmpty then _ else simplified (if _ then _ else _)) = if _ then _ else _
    by_cases h : (simplified word.source).isEmpty = true
    · rw [if_pos h, hmanual]
      rfl
    · rw [if_neg h, simplified_eq, simplified_eq, simplified_simplified, ← simplified_eq, if_neg h]
  have hterm : simplified word.tidied.term = word.tidied.term := by
    show simplified (simplified word.term) = simplified word.term
    rw [simplified_eq, simplified_eq, simplified_simplified]
  have hcontext : trim word.tidied.context = word.tidied.context := stripped_stripped isWhitespace word.context
  have hfrequency : max 0 word.tidied.frequency = word.tidied.frequency := max_eq_right (le_max_left _ _)
  have hused : max 0 word.tidied.lastUsedMs = word.tidied.lastUsedMs := max_eq_right (le_max_left _ _)
  conv_lhs => rw [tidied, hsource, hterm, hcontext, hfrequency, hused]

/-- A word as it is kept, with a term. -/
structure VocabularyWord.Tidied (word : VocabularyWord) : Prop where
  tidied : word.tidied = word
  term : word.term ≠ []

theorem VocabularyWord.Tidied.merged {first word : VocabularyWord} (h : first.Tidied) (h' : word.Tidied) :
    (first.merged word).Tidied := by
  refine ⟨?_, h.term⟩
  obtain ⟨hterm, hcontext, -, -, -, hsource, hfrequency, hused⟩ := VocabularyWord.mk.inj h.tidied
  obtain ⟨-, hcontext', -, -, -, -, -, -⟩ := VocabularyWord.mk.inj h'.tidied
  refine VocabularyWord.mk.injEq .. ▸ ⟨hterm, ?_, rfl, rfl, rfl, hsource, ?_, ?_⟩
  · show trim (if _ then _ else _) = if _ then _ else _
    split
    · exact hcontext'
    · exact hcontext
  · exact max_eq_right ((max_eq_right_iff.mp hfrequency).trans (le_max_left _ _))
  · exact max_eq_right ((max_eq_right_iff.mp hused).trans (le_max_left _ _))

/-! ## The list -/

variable (fold : CaseFolding)

/-- Priority counts for a key term only. -/
def VocabularyWord.first (word : VocabularyWord) : Bool := word.priority && word.keyTerm

/-- What the order compares, first to last. -/
def VocabularyWord.sendKey (word : VocabularyWord) : Bool ×ₗ ℤ ×ₗ ℤ ×ₗ List ℕ :=
  toLex (!word.first, toLex (-word.frequency, toLex (-word.lastUsedMs, codeUnits (foldCase fold word.term))))

/-- Two words are of one term. -/
def sameWord (left right : VocabularyWord) : Bool := sameTerm fold left.term right.term

def normalizedVocabulary (words : List VocabularyWord) : List VocabularyWord :=
  (((words.map VocabularyWord.tidied).filter (!·.term.isEmpty)).foldl
      (gatherInto (sameWord fold) VocabularyWord.merged) []).insertionSort
    fun left right => left.sendKey fold ≤ right.sendKey fold

theorem sameWord_comm (left right : VocabularyWord) : sameWord fold left right = sameWord fold right left := by
  rw [sameWord, sameWord, sameTerm, sameTerm, Bool.eq_iff_iff, decide_eq_true_iff, decide_eq_true_iff]
  exact eq_comm

theorem unique_iff_nodup {words : List VocabularyWord} :
    Unique (sameWord fold) words ↔ (words.map fun word => foldCase fold word.term).Nodup := by
  rw [Unique, List.Nodup, List.pairwise_map]
  simp only [sameWord, sameTerm, decide_eq_false_iff_not, ne_eq]

variable {fold} {words : List VocabularyWord}

variable (fold words) in
/-- **The list is tidied, one word a term**, in send order. -/
theorem tidy_normalizedVocabulary : (∀ word ∈ normalizedVocabulary fold words, word.Tidied) ∧
    Unique (sameWord fold) (normalizedVocabulary fold words) := by
  have hwords : ∀ word ∈ (words.map VocabularyWord.tidied).filter (!·.term.isEmpty), word.Tidied := by
    intro word hword
    obtain ⟨hmem, hterm⟩ := List.mem_filter.mp hword
    obtain ⟨word, -, rfl⟩ := List.mem_map.mp hmem
    exact ⟨word.tidied_tidied, by simpa using hterm⟩
  obtain ⟨htidied, hunique⟩ := gather_apart (sameWord fold) VocabularyWord.merged
    (fun _ _ => VocabularyWord.Tidied.merged) (fun _ _ _ => ⟨rfl, rfl⟩) hwords [] (fun _ hword => nomatch hword) .nil
  have hperm := List.perm_insertionSort (fun left right => left.sendKey fold ≤ right.sendKey fold)
    (((words.map VocabularyWord.tidied).filter (!·.term.isEmpty)).foldl
      (gatherInto (sameWord fold) VocabularyWord.merged) [])
  exact ⟨fun word hword => htidied word (hperm.mem_iff.mp hword), hunique.perm (sameWord_comm fold) hperm.symm⟩

/-- **Tidied words that are apart are only sorted.** -/
theorem normalizedVocabulary_of_apart (htidied : ∀ word ∈ words, word.Tidied) (hunique : Unique (sameWord fold) words) :
    normalizedVocabulary fold words = words.insertionSort fun left right => left.sendKey fold ≤ right.sendKey fold := by
  have hmap : words.map VocabularyWord.tidied = words :=
    (List.map_congr_left fun word hword => (htidied word hword).tidied).trans (List.map_id _)
  have hfilter : words.filter (!·.term.isEmpty) = words :=
    List.filter_eq_self.mpr fun word hword => by simpa using (htidied word hword).term
  rw [normalizedVocabulary, hmap, hfilter, foldl_gatherInto _ _ [] hunique, List.nil_append]

variable (fold words) in
theorem pairwise_normalizedVocabulary :
    (normalizedVocabulary fold words).Pairwise fun left right => left.sendKey fold ≤ right.sendKey fold :=
  List.pairwise_insertionSort _ _

/-- **The list is as the words would be listed again.** -/
theorem normalizedVocabulary_normalizedVocabulary :
    normalizedVocabulary fold (normalizedVocabulary fold words) = normalizedVocabulary fold words := by
  obtain ⟨htidied, hunique⟩ := tidy_normalizedVocabulary fold words
  rw [normalizedVocabulary_of_apart htidied hunique]
  exact (pairwise_normalizedVocabulary fold words).insertionSort_eq

/-- **The list has every term there is.** -/
theorem mem_terms_normalizedVocabulary {term : Text} :
    term ∈ (normalizedVocabulary fold words).map (fun word => foldCase fold word.term) ↔
      ∃ word ∈ words, simplified word.term ≠ [] ∧ foldCase fold (simplified word.term) = term := by
  have hperm := List.perm_insertionSort (fun left right => left.sendKey fold ≤ right.sendKey fold)
    (((words.map VocabularyWord.tidied).filter (!·.term.isEmpty)).foldl
      (gatherInto (sameWord fold) VocabularyWord.merged) [])
  have hsame : ∀ a b : VocabularyWord, sameWord fold a b = true ↔ foldCase fold a.term = foldCase fold b.term :=
    fun a b => decide_eq_true_iff
  rw [normalizedVocabulary, (hperm.map _).mem_iff,
    mem_keys_gathered _ VocabularyWord.merged (fun word => foldCase fold word.term) (fun _ _ => rfl) hsame]
  simp only [List.map_nil, List.not_mem_nil, false_or, List.mem_map, List.mem_filter, Bool.not_eq_true',
    List.isEmpty_eq_false_iff]
  constructor
  · rintro ⟨-, ⟨⟨word, hword, rfl⟩, hne⟩, rfl⟩
    exact ⟨word, hword, hne, rfl⟩
  · rintro ⟨word, hword, hne, rfl⟩
    exact ⟨word.tidied, ⟨⟨word, hword, rfl⟩, hne⟩, rfl⟩

end Android

end Speecher
