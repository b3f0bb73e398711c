import Mathlib.Order.Lex
import Mathlib.Data.Prod.Lex
import Mathlib.Data.List.Lex
import Mathlib.Data.List.Sort
import Speecher.Bindings.SpacedWords
import Speecher.Settings.AppSettings
import Speecher.Settings.Contradictions
import Speecher.Foundations.KeyedMerge

/-!
# The vocabulary list

`normalizeVocabularyEntries` is the list as it is stored and shown: each term tidied, copies of a term
merged into the first, in the order the terms are sent. No two entries of a list without copies stand
level in that order, so how the sort treats entries that do makes no difference.

* `tidy_normalize`: the list is tidied, one entry a term, in send order.
* `normalize_of_tidy`: a list that is so stays as it is.
-/

namespace Speecher

/-! ## Trimmed texts -/

/-- What is stripped has nothing more to strip. -/
theorem stripped_stripped (p : Char → Bool) (text : Text) : stripped p (stripped p text) = stripped p text := by
  have hdrop : (stripped p text).dropWhile p = stripped p text := by
    cases hs : stripped p text with
    | nil => rfl
    | cons c rest =>
      obtain ⟨tail, htail⟩ := List.rdropWhile_prefix (p := p) (l := text.dropWhile p)
      have hhead : text.dropWhile p = c :: (rest ++ tail) := by
        rw [← htail]
        exact congrArg (· ++ tail) hs
      have hc : ¬ p c = true := by
        have := List.head_dropWhile_not p (l := text) (by rw [hhead]; exact List.cons_ne_nil _ _)
        simpa [hhead] using this
      exact List.dropWhile_cons_of_neg hc
  rw [stripped, hdrop]
  exact List.rdropWhile_idempotent ..

@[simp] theorem trimmed_trimmed (text : Text) : trimmed (trimmed text) = trimmed text := stripped_stripped isSpace text

/-! ## Tidying an entry -/

/-- `QStringList::removeDuplicates`, after the empty ids are gone. -/
def listedProfiles (profiles : List Text) : List Text := (profiles.filter (!·.isEmpty)).eraseDups

/-- An entry as it is stored. -/
def VocabularyEntry.tidied (entry : VocabularyEntry) : VocabularyEntry :=
  { entry with
    term := simplified entry.term
    source := if (simplified entry.source).isEmpty then "manual".toList else simplified entry.source
    frequency := max 0 entry.frequency
    lastUsedMs := max 0 entry.lastUsedMs
    context := trimmed entry.context
    profiles := listedProfiles entry.profiles }

/-- An entry with what a later copy of its term adds. -/
def VocabularyEntry.merged (existing entry : VocabularyEntry) : VocabularyEntry :=
  { existing with
    starred := existing.starred || entry.starred
    frequency := max existing.frequency entry.frequency
    lastUsedMs := max existing.lastUsedMs entry.lastUsedMs
    context := if existing.context.isEmpty then entry.context else existing.context }

theorem eraseDups_of_nodup {l : List Text} (h : l.Nodup) : l.eraseDups = l := by
  induction l with
  | nil => rfl
  | cons a l ih =>
    obtain ⟨ha, hl⟩ := List.nodup_cons.mp h
    rw [List.eraseDups_cons, List.filter_eq_self.mpr fun b hb => ?_, ih hl]
    have : b ≠ a := fun hba => ha (hba ▸ hb)
    simpa using this

theorem nodup_eraseDups (n : ℕ) (l : List Text) (h : l.length ≤ n) : l.eraseDups.Nodup := by
  induction n generalizing l with
  | zero => rw [List.eq_nil_of_length_eq_zero (Nat.le_zero.mp h)]; exact List.nodup_nil
  | succ n ih =>
    cases l with
    | nil => exact List.nodup_nil
    | cons a l =>
      rw [List.length_cons] at h
      rw [List.eraseDups_cons, List.nodup_cons]
      refine ⟨fun ha => ?_, ih _ ((List.length_filter_le ..).trans (by omega))⟩
      simpa using (List.mem_filter.mp (List.mem_eraseDups.mp ha)).2

theorem listedProfiles_listedProfiles (profiles : List Text) :
    listedProfiles (listedProfiles profiles) = listedProfiles profiles := by
  have hfilter : (listedProfiles profiles).filter (!·.isEmpty) = listedProfiles profiles :=
    List.filter_eq_self.mpr fun id hid => (List.mem_filter.mp (List.mem_eraseDups.mp hid)).2
  rw [listedProfiles, hfilter]
  exact eraseDups_of_nodup (nodup_eraseDups _ _ le_rfl)

@[simp] theorem tidied_tidied (entry : VocabularyEntry) : entry.tidied.tidied = entry.tidied := by
  have hsource : (if (simplified entry.tidied.source).isEmpty then "manual".toList
      else simplified entry.tidied.source) = entry.tidied.source := by
    have hmanual : simplified "manual".toList = "manual".toList := by decide
    show (if (simplified (if _ then _ else _)).isEmpty then _ else simplified (if _ then _ else _)) = if _ then _ else _
    by_cases h : (simplified entry.source).isEmpty = true
    · rw [if_pos h, hmanual]
      rfl
    · rw [if_neg h, simplified_simplified, if_neg h]
  conv_lhs => rw [VocabularyEntry.tidied, hsource]
  simp [VocabularyEntry.tidied, listedProfiles_listedProfiles]

theorem tidied_merged {existing entry : VocabularyEntry} (h : existing.tidied = existing)
    (h' : entry.tidied = entry) : (existing.merged entry).tidied = existing.merged entry := by
  rw [VocabularyEntry.ext_iff] at h h' ⊢
  obtain ⟨hterm, hsource, -, hfrequency, hused, hcontext, hprofiles, -⟩ := h
  obtain ⟨-, -, -, hfrequency', hused', hcontext', -, -⟩ := h'
  refine ⟨hterm, hsource, rfl, ?_, ?_, ?_, hprofiles, rfl⟩
  · have h₁ : 0 ≤ existing.frequency := max_eq_right_iff.mp hfrequency
    exact max_eq_right (h₁.trans (le_max_left _ _))
  · have h₁ : 0 ≤ existing.lastUsedMs := max_eq_right_iff.mp hused
    exact max_eq_right (h₁.trans (le_max_left _ _))
  · show trimmed (if _ then _ else _) = if _ then _ else _
    split
    · exact hcontext'
    · exact hcontext

/-! ## The list -/

/-- The code units of a text. -/
def codeUnits (text : Text) : List ℕ :=
  text.flatMap fun c =>
    if c.toNat < 0x10000 then [c.toNat]
    else [0xd800 + (c.toNat - 0x10000) / 0x400, 0xdc00 + (c.toNat - 0x10000) % 0x400]

variable (fold : CaseFolding)

/-- Priority counts for a key term only. -/
def VocabularyEntry.first (entry : VocabularyEntry) : Bool := entry.starred && entry.keyTerm

/-- Send order. -/
def sendsBefore (left right : VocabularyEntry) : Bool :=
  if left.first ≠ right.first then left.first
  else if left.frequency ≠ right.frequency then right.frequency < left.frequency
  else if left.lastUsedMs ≠ right.lastUsedMs then right.lastUsedMs < left.lastUsedMs
  else codeUnits (left.term.map fold.char) < codeUnits (right.term.map fold.char)

def sameTerm (left right : VocabularyEntry) : Bool := sameText fold left.term right.term

/-- The list with one entry more. -/
def mergedInto (normalized : List VocabularyEntry) (entry : VocabularyEntry) : List VocabularyEntry :=
  match normalized.findIdx? fun existing => sameTerm fold existing entry with
  | some i => normalized.modify i (·.merged entry)
  | none => normalized ++ [entry]

def normalizeVocabularyEntries (entries : List VocabularyEntry) : List VocabularyEntry :=
  (((entries.map VocabularyEntry.tidied).filter (!·.term.isEmpty)).foldl (mergedInto fold) []).insertionSort
    fun left right => (!sendsBefore fold right left) = true

/-- The profiles of a term that are there. -/
def offeredVocabularyProfiles (ids : List Text) (profiles : List WritingProfileSettings) : List Text :=
  ids.filter fun id => !(offeredWritingProfile id profiles []).isEmpty

/-! ## Tidied lists -/

theorem sameTerm_comm (left right : VocabularyEntry) : sameTerm fold left right = sameTerm fold right left :=
  sameText_comm fold _ _

/-- What send order compares. -/
def sendKey (entry : VocabularyEntry) : Bool ×ₗ ℤ ×ₗ ℤ ×ₗ List ℕ :=
  toLex (!entry.first, toLex (-entry.frequency, toLex (-entry.lastUsedMs, codeUnits (entry.term.map fold.char))))

theorem sendsBefore_iff (left right : VocabularyEntry) :
    sendsBefore fold left right = true ↔ sendKey fold left < sendKey fold right := by
  rw [sendsBefore, sendKey, sendKey, Prod.Lex.toLex_lt_toLex, Prod.Lex.toLex_lt_toLex, Prod.Lex.toLex_lt_toLex]
  by_cases hfirst : left.first = right.first
  · by_cases hfrequency : left.frequency = right.frequency
    · by_cases hused : left.lastUsedMs = right.lastUsedMs
      · simp [hfirst, hfrequency, hused]
      · simp [hfirst, hfrequency, hused]
    · simp [hfirst, hfrequency]
  · cases hl : left.first <;> cases hr : right.first <;> simp_all

theorem not_sendsBefore_iff (left right : VocabularyEntry) :
    (!sendsBefore fold right left) = true ↔ sendKey fold left ≤ sendKey fold right := by
  rw [Bool.not_eq_true', ← Bool.not_eq_true, sendsBefore_iff, not_lt]

/-- A list as it is stored: tidied entries, one a term, in send order. -/
structure Tidy (entries : List VocabularyEntry) : Prop where
  tidied : ∀ entry ∈ entries, entry.tidied = entry ∧ entry.term ≠ []
  unique : Unique (sameTerm fold) entries
  sorted : entries.Pairwise fun left right => (!sendsBefore fold right left) = true

variable {fold}

theorem Tidy.sublist {entries entries' : List VocabularyEntry} (h : Tidy fold entries)
    (hl : entries'.Sublist entries) : Tidy fold entries' where
  tidied entry hentry := h.tidied entry (hl.subset hentry)
  unique := h.unique.sublist hl
  sorted := List.Pairwise.sublist hl h.sorted

variable (fold)

/-- The entries gathered so far are tidied, one a term. -/
theorem gathered {entries : List VocabularyEntry} (h : ∀ entry ∈ entries, entry.tidied = entry ∧ entry.term ≠ [])
    (normalized : List VocabularyEntry) (hn : ∀ entry ∈ normalized, entry.tidied = entry ∧ entry.term ≠ [])
    (hu : Unique (sameTerm fold) normalized) :
    (∀ entry ∈ entries.foldl (mergedInto fold) normalized, entry.tidied = entry ∧ entry.term ≠ []) ∧
      Unique (sameTerm fold) (entries.foldl (mergedInto fold) normalized) :=
  gather_apart (sameTerm fold) VocabularyEntry.merged (fun _ _ ha hb => ⟨tidied_merged ha.1 hb.1, ha.2⟩)
    (fun _ _ _ => ⟨rfl, rfl⟩) h normalized hn hu

/-- **The list is tidied, one entry a term, in send order.** -/
theorem tidy_normalize (entries : List VocabularyEntry) : Tidy fold (normalizeVocabularyEntries fold entries) := by
  have hentries : ∀ entry ∈ (entries.map VocabularyEntry.tidied).filter (!·.term.isEmpty),
      entry.tidied = entry ∧ entry.term ≠ [] := by
    intro entry hentry
    obtain ⟨hmem, hterm⟩ := List.mem_filter.mp hentry
    obtain ⟨entry, -, rfl⟩ := List.mem_map.mp hmem
    exact ⟨tidied_tidied entry, by simpa using hterm⟩
  obtain ⟨htidied, hunique⟩ := gathered fold hentries [] (fun entry hentry => nomatch hentry) .nil
  have hperm := List.perm_insertionSort (fun left right => (!sendsBefore fold right left) = true)
    (((entries.map VocabularyEntry.tidied).filter (!·.term.isEmpty)).foldl (mergedInto fold) [])
  have : Std.Total fun left right => (!sendsBefore fold right left) = true := by
    refine ⟨fun a b => ?_⟩
    rw [not_sendsBefore_iff, not_sendsBefore_iff]
    exact le_total _ _
  have : IsTrans VocabularyEntry fun left right => (!sendsBefore fold right left) = true := by
    refine ⟨fun a b c hab hbc => ?_⟩
    rw [not_sendsBefore_iff] at hab hbc ⊢
    exact hab.trans hbc
  exact ⟨fun entry hentry => htidied entry (hperm.mem_iff.mp hentry),
    hunique.perm (sameTerm_comm fold) hperm.symm, List.pairwise_insertionSort _ _⟩

theorem foldl_mergedInto {entries : List VocabularyEntry} (normalized : List VocabularyEntry)
    (h : Unique (sameTerm fold) (normalized ++ entries)) :
    entries.foldl (mergedInto fold) normalized = normalized ++ entries :=
  foldl_gatherInto (sameTerm fold) VocabularyEntry.merged normalized h

/-- **A list that is so stays as it is.** -/
theorem normalize_of_tidy {entries : List VocabularyEntry} (h : Tidy fold entries) :
    normalizeVocabularyEntries fold entries = entries := by
  have hmap : entries.map VocabularyEntry.tidied = entries :=
    (List.map_congr_left fun entry hentry => (h.tidied entry hentry).1).trans (List.map_id _)
  have hfilter : entries.filter (!·.term.isEmpty) = entries :=
    List.filter_eq_self.mpr fun entry hentry => by simpa using (h.tidied entry hentry).2
  rw [normalizeVocabularyEntries, hmap, hfilter, foldl_mergedInto fold [] h.unique, List.nil_append]
  exact h.sorted.insertionSort_eq

end Speecher
