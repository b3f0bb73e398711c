import Mathlib.Order.Bounds.Basic
import Speecher.Settings.AndroidVocabulary

/-!
# A vocabulary list merged in parts

Every copy of a term is in its entry: the first copy's spelling, and of all copies the largest counts, the priority if
any has it, and the first context that is not blank. What the list holds under a term depends on the copies of that
term only, and the list's order only on what it holds, so a list may be tidied before more entries join it.

* `vocabulary_merges`: what a tidied list holds, and that it can be tidied in parts, on the desktop and on the phone.
-/

namespace Speecher

/-! ## Code units tell texts apart -/

theorem codeUnits_cons (c : Char) (text : Text) : codeUnits (c :: text) = codeUnits [c] ++ codeUnits text := by
  rw [codeUnits, codeUnits, codeUnits, List.flatMap_cons, List.flatMap_singleton]

theorem codeUnits_bmp {c : Char} (h : c.toNat < 0x10000) : codeUnits [c] = [c.toNat] := by
  rw [codeUnits, List.flatMap_singleton, if_pos h]

theorem codeUnits_astral {c : Char} (h : ¬ c.toNat < 0x10000) : codeUnits [c] =
    [0xd800 + (c.toNat - 0x10000) / 0x400, 0xdc00 + (c.toNat - 0x10000) % 0x400] := by
  rw [codeUnits, List.flatMap_singleton, if_neg h]

/-- A character is no surrogate. -/
theorem toNat_bounds (c : Char) : (c.toNat < 0xd800 ∨ 0xe000 ≤ c.toNat) ∧ c.toNat < 0x110000 := by
  have hvalid : c.toNat < 0xd800 ∨ 0xdfff < c.toNat ∧ c.toNat < 0x110000 := c.valid
  omega

theorem codeUnits_injective : ∀ {text text' : Text}, codeUnits text = codeUnits text' → text = text'
  | [], [], _ => rfl
  | [], c :: _, h => by
    rw [codeUnits_cons] at h
    by_cases hc : c.toNat < 0x10000
    · rw [codeUnits_bmp hc] at h
      cases h
    · rw [codeUnits_astral hc] at h
      cases h
  | c :: _, [], h => by
    rw [codeUnits_cons] at h
    by_cases hc : c.toNat < 0x10000
    · rw [codeUnits_bmp hc] at h
      cases h
    · rw [codeUnits_astral hc] at h
      cases h
  | c :: text, d :: text', h => by
    have hc := toNat_bounds c
    have hd := toNat_bounds d
    have hchar : c.toNat = d.toNat ∧ codeUnits text = codeUnits text' := by
      rw [codeUnits_cons, codeUnits_cons d] at h
      by_cases hc' : c.toNat < 0x10000 <;> by_cases hd' : d.toNat < 0x10000
      · rw [codeUnits_bmp hc', codeUnits_bmp hd'] at h
        exact List.cons.inj h
      · rw [codeUnits_bmp hc', codeUnits_astral hd'] at h
        have hhead := (List.cons.inj h).1
        omega
      · rw [codeUnits_astral hc', codeUnits_bmp hd'] at h
        have hhead := (List.cons.inj h).1
        omega
      · rw [codeUnits_astral hc', codeUnits_astral hd'] at h
        obtain ⟨hhigh, hrest⟩ := List.cons.inj h
        obtain ⟨hlow, hrest⟩ := List.cons.inj hrest
        exact ⟨by omega, hrest⟩
    rw [Char.toNat_inj.mp hchar.1, codeUnits_injective hchar.2]

/-! ## The copies of a term -/

/-- What an entry holds of the copies of its term: the first's, but for the largest counts, the priority of any and the
first context that is not empty. -/
theorem VocabularyEntry.foldl_merged (first : VocabularyEntry) (rest : List VocabularyEntry) :
    rest.foldl merged first = { first with
      starred := (first :: rest).any (·.starred)
      frequency := (rest.map (·.frequency)).foldl max first.frequency
      lastUsedMs := (rest.map (·.lastUsedMs)).foldl max first.lastUsedMs
      context := (((first :: rest).map (·.context)).find? (!·.isEmpty)).getD [] } := by
  induction rest generalizing first with
  | nil =>
    refine VocabularyEntry.ext rfl rfl (by simp) rfl rfl ?_ rfl rfl
    cases hempty : first.context.isEmpty with
    | true => simp [List.isEmpty_iff.mp hempty]
    | false => simp [hempty]
  | cons entry rest ih =>
    rw [List.foldl_cons, ih, merged]
    refine VocabularyEntry.ext rfl rfl ?_ rfl rfl ?_ rfl rfl
    · simp [Bool.or_assoc]
    · cases hempty : first.context.isEmpty with
      | true => simp [hempty]
      | false => simp [hempty]

/-- The largest of some numbers. -/
theorem isGreatest_foldl_max (first : ℤ) (rest : List ℤ) : IsGreatest {n | n ∈ first :: rest} (rest.foldl max first) := by
  induction rest generalizing first with
  | nil =>
    refine ⟨List.mem_singleton_self first, fun n hn => ?_⟩
    exact (List.mem_singleton.mp hn).le
  | cons next rest ih =>
    obtain ⟨hmem, hbound⟩ := ih (max first next)
    rw [List.foldl_cons]
    refine ⟨?_, fun n hn => ?_⟩
    · rcases List.mem_cons.mp hmem with heq | hmem
      · rw [heq]
        rcases max_choice first next with hmax | hmax <;> simp [hmax]
      · exact List.mem_cons_of_mem _ (List.mem_cons_of_mem _ hmem)
    · have hmax : max first next ≤ rest.foldl max (max first next) := hbound List.mem_cons_self
      rcases List.mem_cons.mp hn with rfl | hn
      · exact (le_max_left _ _).trans hmax
      · rcases List.mem_cons.mp hn with rfl | hn
        · exact (le_max_right _ _).trans hmax
        · exact hbound (List.mem_cons_of_mem _ hn)

variable (fold : CaseFolding)

/-- The entries of a list that are copies of a term: the term simplified is that, ignoring case. -/
def copiesOf (entries : List VocabularyEntry) (term : Text) : List VocabularyEntry :=
  entries.filter fun entry => !(simplified entry.term).isEmpty && sameText fold (simplified entry.term) term

/-- What an entry is to hold of the copies of its term. -/
structure MergeOfCopies (copies : List VocabularyEntry) (entry : VocabularyEntry) : Prop where
  first : ∃ first rest, copies = first :: rest ∧ entry.term = simplified first.term ∧
    entry.source = first.tidied.source ∧ entry.keyTerm = first.keyTerm ∧ entry.profiles = listedProfiles first.profiles
  context : entry.context = ((copies.map fun copy => trimmed copy.context).find? (!·.isEmpty)).getD []
  frequency : IsGreatest {n | n ∈ copies.map fun copy => max 0 copy.frequency} entry.frequency
  lastUsedMs : IsGreatest {n | n ∈ copies.map fun copy => max 0 copy.lastUsedMs} entry.lastUsedMs
  starred : entry.starred = copies.any (·.starred)

theorem mergeOfCopies (first : VocabularyEntry) (rest : List VocabularyEntry) :
    MergeOfCopies (first :: rest) ((rest.map VocabularyEntry.tidied).foldl VocabularyEntry.merged first.tidied) := by
  rw [VocabularyEntry.foldl_merged]
  simp only [List.map_cons, List.map_map, List.any_cons, List.any_map]
  refine ⟨⟨first, rest, rfl, rfl, rfl, rfl, rfl⟩, ?_, ?_, ?_, ?_⟩
  · rw [List.map_cons]
    rfl
  · exact isGreatest_foldl_max _ _
  · exact isGreatest_foldl_max _ _
  · rw [List.any_cons]
    rfl

/-- The entries as they are gathered. -/
def prepared (entries : List VocabularyEntry) : List VocabularyEntry :=
  (entries.map VocabularyEntry.tidied).filter (!·.term.isEmpty)

/-- A term ignoring case. -/
def VocabularyEntry.key (entry : VocabularyEntry) : Text := entry.term.map fold.char

theorem byKey_term : ByKey (sameTerm fold) VocabularyEntry.merged (VocabularyEntry.key fold) :=
  ⟨fun _ _ => decide_eq_true_iff, fun _ _ => rfl⟩

theorem normalize_perm (entries : List VocabularyEntry) : (normalizeVocabularyEntries fold entries).Perm
    ((prepared entries).foldl (gatherInto (sameTerm fold) VocabularyEntry.merged) []) :=
  List.perm_insertionSort ..

theorem filter_prepared (entries : List VocabularyEntry) (entry : VocabularyEntry) :
    (prepared entries).filter (VocabularyEntry.key fold · = entry.key fold) =
      (copiesOf fold entries entry.term).map VocabularyEntry.tidied := by
  rw [prepared, List.filter_filter, List.filter_map, copiesOf]
  refine congrArg (List.map VocabularyEntry.tidied) (List.filter_congr fun copy _ => ?_)
  exact Bool.and_comm _ _

theorem prepared_of_tidy {entries : List VocabularyEntry} (h : Tidy fold entries) : prepared entries = entries := by
  have hmap : entries.map VocabularyEntry.tidied = entries :=
    (List.map_congr_left fun entry hentry => (h.tidied entry hentry).1).trans (List.map_id _)
  rw [prepared, hmap]
  exact List.filter_eq_self.mpr fun entry hentry => by simpa using (h.tidied entry hentry).2

/-- Entries of different terms do not stand level. -/
theorem sendsBefore_of_apart {left right : VocabularyEntry} (hnot : sendsBefore fold right left = false)
    (hapart : sameTerm fold left right = false) : sendsBefore fold left right = true := by
  rw [← Bool.not_eq_true, sendsBefore_iff, not_lt] at hnot
  rw [sendsBefore_iff]
  refine lt_of_le_of_ne hnot fun hkey => Bool.false_ne_true (hapart.symm.trans ?_)
  have hunits : codeUnits (left.term.map fold.char) = codeUnits (right.term.map fold.char) := by
    have hlex := congrArg (fun key => (ofLex (ofLex (ofLex key).2).2).2) hkey
    exact hlex
  exact decide_eq_true (codeUnits_injective hunits)

theorem sorted_normalize (entries : List VocabularyEntry) :
    (normalizeVocabularyEntries fold entries).Pairwise fun left right => sendsBefore fold left right = true := by
  have htidy := tidy_normalize fold entries
  refine (htidy.sorted.and htidy.unique).imp fun {left right} ⟨hsorted, hapart⟩ => ?_
  exact sendsBefore_of_apart fold (Bool.not_eq_true' _ ▸ hsorted) hapart

/-- What tidying a list gives: every term once, merged of its copies, in send order, whether or not part of the list was
tidied before. -/
structure Normalizes (entries : List VocabularyEntry) : Prop where
  unique : Unique (sameTerm fold) (normalizeVocabularyEntries fold entries)
  sorted : (normalizeVocabularyEntries fold entries).Pairwise fun left right => sendsBefore fold left right = true
  keeps : ∀ entry ∈ entries, simplified entry.term ≠ [] →
    ∃ kept ∈ normalizeVocabularyEntries fold entries, sameText fold kept.term (simplified entry.term) = true
  merges : ∀ kept ∈ normalizeVocabularyEntries fold entries, MergeOfCopies (copiesOf fold entries kept.term) kept
  inParts : ∀ more, normalizeVocabularyEntries fold (normalizeVocabularyEntries fold entries ++ more) =
    normalizeVocabularyEntries fold (entries ++ more)

theorem normalizes (entries : List VocabularyEntry) : Normalizes fold entries := by
  have hperm := normalize_perm fold entries
  refine ⟨(tidy_normalize fold entries).unique, sorted_normalize fold entries, ?_, ?_, ?_⟩
  · intro entry hentry hterm
    have hprepared : entry.tidied ∈ prepared entries :=
      List.mem_filter.mpr ⟨List.mem_map_of_mem hentry, by simpa [VocabularyEntry.tidied] using hterm⟩
    have hkey := (mem_keys_gathered (sameTerm fold) VocabularyEntry.merged (VocabularyEntry.key fold)
      (byKey_term fold).merged (byKey_term fold).same (prepared entries) []).mpr (.inr (List.mem_map_of_mem hprepared))
    rw [← (hperm.map _).mem_iff] at hkey
    obtain ⟨kept, hkept, hsame⟩ := List.mem_map.mp hkey
    exact ⟨kept, hkept, decide_eq_true hsame⟩
  · intro kept hkept
    obtain ⟨first, rest, hcopies, hfold⟩ := (mem_gathered (byKey_term fold)).mp (hperm.mem_iff.mp hkept)
    rw [filter_prepared] at hcopies
    obtain ⟨first, rest, hlist, rfl, rfl⟩ := List.map_eq_cons_iff.mp hcopies
    rw [hlist, ← hfold]
    exact mergeOfCopies first rest
  · exact fun more => sorted_in_parts (byKey_term fold) (fun l l' => by rw [prepared, List.map_append, List.filter_append]; rfl)
      (fun l => prepared_of_tidy fold (tidy_normalize fold l)) (normalize_perm fold)
      (fun left right h h' => lt_asymm ((sendsBefore_iff fold left right).mp h) ((sendsBefore_iff fold right left).mp h'))
      (sorted_normalize fold) entries more

/-! ## The phone's list -/

namespace Android

/-- What a word holds of the copies of its term. -/
theorem VocabularyWord.foldl_merged (first : VocabularyWord) (rest : List VocabularyWord) :
    rest.foldl merged first = { first with
      priority := (first :: rest).any (·.priority)
      frequency := (rest.map (·.frequency)).foldl max first.frequency
      lastUsedMs := (rest.map (·.lastUsedMs)).foldl max first.lastUsedMs
      context := (((first :: rest).map (·.context)).find? (!·.isEmpty)).getD [] } := by
  induction rest generalizing first with
  | nil =>
    refine VocabularyWord.mk.injEq .. ▸ ⟨rfl, ?_, rfl, rfl, by simp, rfl, rfl, rfl⟩
    cases hempty : first.context.isEmpty with
    | true => simp [List.isEmpty_iff.mp hempty]
    | false => simp [hempty]
  | cons word rest ih =>
    rw [List.foldl_cons, ih, merged]
    refine VocabularyWord.mk.injEq .. ▸ ⟨rfl, ?_, rfl, rfl, ?_, rfl, rfl, rfl⟩
    · cases hempty : first.context.isEmpty with
      | true => simp [hempty]
      | false => simp [hempty]
    · simp [Bool.or_assoc]

/-- The words of a list that are copies of a term. -/
def copiesOf (words : List VocabularyWord) (term : Text) : List VocabularyWord :=
  words.filter fun word => !(simplified word.term).isEmpty && sameTerm fold (simplified word.term) term

/-- What a word is to hold of the copies of its term. -/
structure MergeOfCopies (copies : List VocabularyWord) (word : VocabularyWord) : Prop where
  first : ∃ first rest, copies = first :: rest ∧ word.term = simplified first.term ∧
    word.source = first.tidied.source ∧ word.keyTerm = first.keyTerm ∧ word.profiles = first.profiles
  context : word.context = ((copies.map fun copy => trim copy.context).find? (!·.isEmpty)).getD []
  frequency : IsGreatest {n | n ∈ copies.map fun copy => max 0 copy.frequency} word.frequency
  lastUsedMs : IsGreatest {n | n ∈ copies.map fun copy => max 0 copy.lastUsedMs} word.lastUsedMs
  priority : word.priority = copies.any (·.priority)

theorem mergeOfCopies (first : VocabularyWord) (rest : List VocabularyWord) :
    MergeOfCopies (first :: rest) ((rest.map VocabularyWord.tidied).foldl VocabularyWord.merged first.tidied) := by
  rw [VocabularyWord.foldl_merged]
  simp only [List.map_cons, List.map_map, List.any_cons, List.any_map]
  refine ⟨⟨first, rest, rfl, rfl, rfl, rfl, rfl⟩, ?_, ?_, ?_, ?_⟩
  · rw [List.map_cons]
    rfl
  · exact isGreatest_foldl_max _ _
  · exact isGreatest_foldl_max _ _
  · rw [List.any_cons]
    rfl

/-- The words as they are gathered. -/
def prepared (words : List VocabularyWord) : List VocabularyWord :=
  (words.map VocabularyWord.tidied).filter (!·.term.isEmpty)

/-- A term ignoring case. -/
def VocabularyWord.key (word : VocabularyWord) : Text := foldCase fold word.term

theorem byKey_term : ByKey (sameWord fold) VocabularyWord.merged (VocabularyWord.key fold) :=
  ⟨fun _ _ => decide_eq_true_iff, fun _ _ => rfl⟩

theorem normalized_perm (words : List VocabularyWord) : (normalizedVocabulary fold words).Perm
    ((prepared words).foldl (gatherInto (sameWord fold) VocabularyWord.merged) []) :=
  List.perm_insertionSort ..

theorem filter_prepared (words : List VocabularyWord) (word : VocabularyWord) :
    (prepared words).filter (VocabularyWord.key fold · = word.key fold) =
      (copiesOf fold words word.term).map VocabularyWord.tidied := by
  rw [prepared, List.filter_filter, List.filter_map, copiesOf]
  refine congrArg (List.map VocabularyWord.tidied) (List.filter_congr fun copy _ => ?_)
  exact Bool.and_comm _ _

theorem prepared_of_tidied {words : List VocabularyWord} (h : ∀ word ∈ words, word.Tidied) : prepared words = words := by
  have hmap : words.map VocabularyWord.tidied = words :=
    (List.map_congr_left fun word hword => (h word hword).tidied).trans (List.map_id _)
  rw [prepared, hmap]
  exact List.filter_eq_self.mpr fun word hword => by simpa using (h word hword).term

theorem sorted_normalized (words : List VocabularyWord) :
    (normalizedVocabulary fold words).Pairwise fun left right => left.sendKey fold < right.sendKey fold := by
  refine ((pairwise_normalizedVocabulary fold words).and (tidy_normalizedVocabulary fold words).2).imp
    fun {left right} ⟨hsorted, hapart⟩ => lt_of_le_of_ne hsorted fun hkey => Bool.false_ne_true (hapart.symm.trans ?_)
  have hunits : codeUnits (foldCase fold left.term) = codeUnits (foldCase fold right.term) := by
    have hlex := congrArg (fun key => (ofLex (ofLex (ofLex key).2).2).2) hkey
    exact hlex
  exact decide_eq_true (codeUnits_injective hunits)

/-- What tidying a list on the phone gives. -/
structure Normalizes (words : List VocabularyWord) : Prop where
  unique : Unique (sameWord fold) (normalizedVocabulary fold words)
  sorted : (normalizedVocabulary fold words).Pairwise fun left right => left.sendKey fold < right.sendKey fold
  keeps : ∀ word ∈ words, simplified word.term ≠ [] →
    ∃ kept ∈ normalizedVocabulary fold words, sameTerm fold kept.term (simplified word.term) = true
  merges : ∀ kept ∈ normalizedVocabulary fold words, MergeOfCopies (copiesOf fold words kept.term) kept
  inParts : ∀ more, normalizedVocabulary fold (normalizedVocabulary fold words ++ more) =
    normalizedVocabulary fold (words ++ more)

theorem normalizes (words : List VocabularyWord) : Normalizes fold words := by
  have hperm := normalized_perm fold words
  refine ⟨(tidy_normalizedVocabulary fold words).2, sorted_normalized fold words, ?_, ?_, ?_⟩
  · intro word hword hterm
    obtain ⟨kept, hkept, hsame⟩ := List.mem_map.mp (mem_terms_normalizedVocabulary.mpr ⟨word, hword, hterm, rfl⟩)
    exact ⟨kept, hkept, decide_eq_true hsame⟩
  · intro kept hkept
    obtain ⟨first, rest, hcopies, hfold⟩ := (mem_gathered (byKey_term fold)).mp (hperm.mem_iff.mp hkept)
    rw [filter_prepared] at hcopies
    obtain ⟨first, rest, hlist, rfl, rfl⟩ := List.map_eq_cons_iff.mp hcopies
    rw [hlist, ← hfold]
    exact mergeOfCopies first rest
  · exact fun more => sorted_in_parts (byKey_term fold) (fun l l' => by rw [prepared, List.map_append, List.filter_append]; rfl)
      (fun l => prepared_of_tidied (tidy_normalizedVocabulary fold l).1) (normalized_perm fold)
      (fun _ _ => lt_asymm) (sorted_normalized fold) words more

end Android

/-- **A tidied list has every term once, merged of its copies, in send order, and can be tidied in parts**, on the
desktop and on the phone. -/
theorem vocabulary_merges : (∀ entries, Normalizes fold entries) ∧ ∀ words, Android.Normalizes fold words :=
  ⟨normalizes fold, Android.normalizes fold⟩

end Speecher
