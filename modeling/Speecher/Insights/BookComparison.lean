import Mathlib.Algebra.Order.Archimedean.Real.Basic
import Mathlib.Analysis.SpecialFunctions.Log.Basic
import Speecher.Foundations.NearestPoint
import Speecher.Foundations.RunSearch

/-!
# The book a word count is compared to

`compareToBook` picks the book, and the plain share of it, closest to a count: the distance is that of the logarithms,
with a cost for the shares that read less easily. Counts below the first share of the first book have no comparison,
and counts above five times the last book are whole multiples of it. `nextChange` searches for the next count with
another comparison.

* `compareToBook_between`: the counts compared alike are one unbroken run.
* `nextChange_spec`: so the search finds the next change, and nothing when there is none.
-/

namespace Speecher

namespace BookComparisons

structure Book where
  title : String
  words : ℕ

structure Share where
  of' : ℝ
  cost : ℝ

structure BookComparison where
  book : String := ""
  times : ℝ := 0
  bookWords : ℕ := 0

/-- The books and the shares of them that counts are compared to. -/
structure BookTable where
  first : Book
  books : List Book
  last : Book
  firstShare : Share
  shares : List Share
  first_mem : books.head? = some first
  last_mem : books.getLast? = some last
  firstShare_mem : shares.head? = some firstShare
  words_pos : ∀ book ∈ books, 0 < book.words
  longest : ∀ book ∈ books, book.words ≤ last.words
  of_pos : ∀ share ∈ shares, 0 < share.of'
  of_le : ∀ share ∈ shares, share.of' ≤ 5

variable (table : BookTable)

/-- Halves go up. -/
noncomputable def roundHalfUp (value : ℝ) : ℤ := ⌊value + 1 / 2⌋

/-- How far a count is from a share of a book. -/
noncomputable def score (words : ℤ) (it : Book × Share) : ℝ :=
  |Real.log (words / (it.1.words * it.2.of'))| + it.2.cost

/-- The best of the shares of every book, the first of several. -/
noncomputable def closest (words : ℤ) : Option (Book × Share) :=
  table.books.foldl
    (fun best book => table.shares.foldl (fun best share => better (score words) best (book, share)) best) none

open Classical in
noncomputable def compareToBook (words : ℤ) : BookComparison :=
  if (words : ℝ) < table.first.words * table.firstShare.of' then {}
  else if (words : ℝ) > table.last.words * 5 then
    ⟨table.last.title, roundHalfUp (words / table.last.words), table.last.words⟩
  else (closest table words).elim {} fun best => ⟨best.1.title, best.2.of', best.1.words⟩

/-- The greatest of 64 bits. -/
def most : ℤ := 2 ^ 63 - 1

open Classical in
/-- The next count that compares differently. Every result is checked to fit, and each loop takes so many steps. -/
noncomputable def nextChange (fuel : ℕ) (words : ℤ) : Option ℤ :=
  if words < 0 ∨ words = most then some 0
  else RunSearch.search most (fun other => compareToBook table other = compareToBook table words) fuel words

def kBooks : List Book :=
  [⟨"the Gettysburg Address", 272⟩, ⟨"The Raven", 1088⟩, ⟨"the Declaration of Independence", 1321⟩,
    ⟨"The Tell-Tale Heart", 2146⟩, ⟨"An Occurrence at Owl Creek Bridge", 3763⟩, ⟨"Macbeth", 17121⟩,
    ⟨"Romeo and Juliet", 24545⟩, ⟨"Hamlet", 30557⟩, ⟨"The Great Gatsby", 47094⟩,
    ⟨"the first Harry Potter book", 76944⟩, ⟨"The Hobbit", 95356⟩, ⟨"To Kill a Mockingbird", 100388⟩,
    ⟨"The Fellowship of the Ring", 187790⟩, ⟨"Moby-Dick", 209117⟩, ⟨"War and Peace", 561304⟩]

noncomputable def kShares : List Share :=
  [⟨1 / 4, 0.2⟩, ⟨1 / 3, 0.2⟩, ⟨1 / 2, 0⟩, ⟨3 / 4, 0.2⟩, ⟨1, 0⟩, ⟨2, 0⟩, ⟨3, 0.2⟩, ⟨4, 0.2⟩]

/-- The table of the program. -/
noncomputable def kTable : BookTable where
  first := ⟨"the Gettysburg Address", 272⟩
  books := kBooks
  last := ⟨"War and Peace", 561304⟩
  firstShare := ⟨1 / 4, 0.2⟩
  shares := kShares
  first_mem := rfl
  last_mem := rfl
  firstShare_mem := rfl
  words_pos := by simp [kBooks]
  longest := by simp [kBooks]
  of_pos := by simp [kShares]
  of_le := by
    simp only [kShares, List.forall_mem_cons, List.not_mem_nil, false_imp_iff, implies_true, and_true]
    norm_num

/-! ## Shares of books as points on a line -/

/-- Every share of every book, in the order they are tried. -/
def candidates : List (Book × Share) := table.books.flatMap fun book => table.shares.map fun share => (book, share)

/-- The words of a share of a book. -/
noncomputable def size (it : Book × Share) : ℝ := it.1.words * it.2.of'

noncomputable def place (it : Book × Share) : ℝ := Real.log (size it)

def cost (it : Book × Share) : ℝ := it.2.cost

variable {table}

theorem mem_candidates {it : Book × Share} :
    it ∈ candidates table ↔ it.1 ∈ table.books ∧ it.2 ∈ table.shares := by
  obtain ⟨book, share⟩ := it
  simp [candidates]

theorem size_pos {it : Book × Share} (h : it ∈ candidates table) : 0 < size it := by
  obtain ⟨hbook, hshare⟩ := mem_candidates.mp h
  have hwords : (0 : ℝ) < it.1.words := Nat.cast_pos.mpr (table.words_pos it.1 hbook)
  exact mul_pos hwords (table.of_pos it.2 hshare)

theorem last_mem_books : table.last ∈ table.books := List.mem_of_mem_getLast? table.last_mem

/-- No share of a book is longer than five times the last. -/
theorem size_le {it : Book × Share} (h : it ∈ candidates table) : size it ≤ table.last.words * 5 := by
  obtain ⟨hbook, hshare⟩ := mem_candidates.mp h
  have hwords : (it.1.words : ℝ) ≤ table.last.words := Nat.cast_le.mpr (table.longest it.1 hbook)
  exact mul_le_mul hwords (table.of_le it.2 hshare) (table.of_pos it.2 hshare).le (Nat.cast_nonneg _)

variable (table) in
theorem candidates_ne_nil : candidates table ≠ [] := by
  have hmem : (table.first, table.firstShare) ∈ candidates table :=
    mem_candidates.mpr ⟨List.mem_of_mem_head? table.first_mem, List.mem_of_mem_head? table.firstShare_mem⟩
  exact List.ne_nil_of_mem hmem

/-- **The closest is the nearest point to the count's logarithm.** -/
theorem closest_eq {words : ℤ} (h : 0 < words) :
    closest table words = firstMin (distanceTo place cost (Real.log words)) (candidates table) := by
  have hflat : closest table words = firstMin (score words) (candidates table) := by
    rw [closest, firstMin, candidates, List.foldl_flatMap]
    congr 1
    funext best book
    rw [List.foldl_map]
  rw [hflat]
  refine firstMin_congr fun it hit => ?_
  have hwords : (words : ℝ) ≠ 0 := Int.cast_ne_zero.mpr h.ne'
  rw [score, distanceTo, place, ← Real.log_div hwords (size_pos hit).ne']
  rfl

/-! ## Runs -/

/-- A count below the first share of the first book. -/
def Below (table : BookTable) (words : ℤ) : Prop := (words : ℝ) < table.first.words * table.firstShare.of'

/-- A count above five times the last book. -/
def Above (table : BookTable) (words : ℤ) : Prop := (words : ℝ) > table.last.words * 5

theorem pos_of_not_below {words : ℤ} (h : ¬ Below table words) : 0 < words := by
  have hmem : (table.first, table.firstShare) ∈ candidates table :=
    mem_candidates.mpr ⟨List.mem_of_mem_head? table.first_mem, List.mem_of_mem_head? table.firstShare_mem⟩
  have hreal : (0 : ℝ) < words := (size_pos hmem).trans_le (not_lt.mp h)
  exact Int.cast_pos.mp hreal

theorem compareToBook_below {words : ℤ} (h : Below table words) : compareToBook table words = {} := if_pos h

theorem compareToBook_above {words : ℤ} (h : ¬ Below table words) (ha : Above table words) :
    compareToBook table words =
      ⟨table.last.title, roundHalfUp (words / table.last.words), table.last.words⟩ :=
  (if_neg h).trans (if_pos ha)

/-- The comparison to a share of a book. -/
noncomputable def comparisonTo (it : Book × Share) : BookComparison := ⟨it.1.title, it.2.of', it.1.words⟩

theorem compareToBook_closest {words : ℤ} (h : ¬ Below table words) (ha : ¬ Above table words) :
    ∃ it ∈ candidates table, firstMin (distanceTo place cost (Real.log words)) (candidates table) = some it ∧
      compareToBook table words = comparisonTo it := by
  obtain ⟨front, it, back, -, hfound, -⟩ :=
    firstMin_split (distanceTo place cost (Real.log words)) (candidates_ne_nil table)
  refine ⟨it, mem_of_firstMin hfound, hfound, ?_⟩
  have hclosest := (closest_eq (pos_of_not_below h)).trans hfound
  have hcompare : compareToBook table words =
      (closest table words).elim {} fun best => ⟨best.1.title, best.2.of', best.1.words⟩ :=
    (if_neg h).trans (if_neg ha)
  rw [hcompare, hclosest]
  rfl

/-- Comparisons alike are to shares of one length. -/
theorem place_eq_of_comparisonTo {it it' : Book × Share} (h : comparisonTo it = comparisonTo it') :
    place it = place it' := by
  have htimes : it.2.of' = it'.2.of' := congrArg BookComparison.times h
  have hwords : it.1.words = it'.1.words := congrArg BookComparison.bookWords h
  rw [place, place, size, size, htimes, hwords]

theorem bookWords_pos {words : ℤ} (h : ¬ Below table words) : 0 < (compareToBook table words).bookWords := by
  by_cases ha : Above table words
  · rw [compareToBook_above h ha]
    exact table.words_pos _ last_mem_books
  · obtain ⟨it, hit, -, hcompare⟩ := compareToBook_closest h ha
    rw [hcompare]
    exact table.words_pos _ (mem_candidates.mp hit).1

theorem last_words_pos (table : BookTable) : (0 : ℝ) < table.last.words :=
  Nat.cast_pos.mpr (table.words_pos _ last_mem_books)

/-- A count above five times the last book is at least five times it, rounded. -/
theorem five_le_round {words : ℤ} (h : Above table words) : 5 ≤ roundHalfUp (words / table.last.words) := by
  have hfive : (5 : ℝ) ≤ words / table.last.words := by
    rw [le_div_iff₀ (last_words_pos table), mul_comm]
    exact le_of_lt h
  refine Int.le_floor.mpr ?_
  push_cast
  linarith

theorem round_mono {a b : ℤ} (h : a ≤ b) :
    roundHalfUp (a / table.last.words) ≤ roundHalfUp (b / table.last.words) := by
  refine Int.floor_le_floor (add_le_add_left ?_ _)
  have hcast : (a : ℝ) ≤ b := Int.cast_le.mpr h
  exact div_le_div_of_nonneg_right hcast (last_words_pos table).le

/-- A count that a multiple of five ends the table for is compared to five times the last book. -/
theorem place_of_above {it : Book × Share} (hit : it ∈ candidates table) {words : ℤ} (hb : ¬ Below table words)
    (ha : Above table words) (h : comparisonTo it = compareToBook table words) :
    roundHalfUp (words / table.last.words) = 5 ∧ comparisonTo it = ⟨table.last.title, 5, table.last.words⟩ ∧
      ∀ other ∈ candidates table, place other ≤ place it := by
  rw [compareToBook_above hb ha] at h
  have htimes : it.2.of' = roundHalfUp (words / table.last.words) := congrArg BookComparison.times h
  have hwords : it.1.words = table.last.words := congrArg BookComparison.bookWords h
  have hle := table.of_le it.2 (mem_candidates.mp hit).2
  have hround : roundHalfUp (words / table.last.words) = 5 := by
    rw [htimes] at hle
    have hle' : roundHalfUp (words / table.last.words) ≤ 5 := by exact_mod_cast hle
    exact le_antisymm hle' (five_le_round ha)
  have hfive : it.2.of' = 5 := by rw [htimes, hround]; norm_num
  refine ⟨hround, ?_, fun other hother => ?_⟩
  · rw [h, hround]
    norm_num
  · refine Real.log_le_log (size_pos hother) ((size_le hother).trans_eq ?_)
    rw [size, hwords, hfive]

/-- **The counts that are compared alike are one unbroken run.** -/
theorem compareToBook_between {a b c : ℤ} (hab : a ≤ b) (hbc : b ≤ c)
    (h : compareToBook table a = compareToBook table c) : compareToBook table b = compareToBook table a := by
  have hab' : (a : ℝ) ≤ b := Int.cast_le.mpr hab
  have hbc' : (b : ℝ) ≤ c := Int.cast_le.mpr hbc
  by_cases hbelowA : Below table a
  · have hbelowC : Below table c := by
      by_contra hnot
      have hpos := bookWords_pos hnot
      rw [← h, compareToBook_below hbelowA] at hpos
      exact absurd hpos (lt_irrefl 0)
    rw [compareToBook_below hbelowA, compareToBook_below (lt_of_le_of_lt hbc' hbelowC)]
  have hbelowB : ¬ Below table b := fun hb => hbelowA (lt_of_le_of_lt hab' hb)
  have hbelowC : ¬ Below table c := fun hc => hbelowB (lt_of_le_of_lt hbc' hc)
  by_cases haboveA : Above table a
  · have haboveB : Above table b := lt_of_lt_of_le haboveA hab'
    have haboveC : Above table c := lt_of_lt_of_le haboveB hbc'
    rw [compareToBook_above hbelowA haboveA, compareToBook_above hbelowC haboveC] at h
    have hround : roundHalfUp (a / table.last.words) = roundHalfUp (c / table.last.words) :=
      Int.cast_injective (congrArg BookComparison.times h)
    have hsame : roundHalfUp (b / table.last.words) = roundHalfUp (a / table.last.words) :=
      le_antisymm ((round_mono hbc).trans_eq hround.symm) (round_mono hab)
    rw [compareToBook_above hbelowA haboveA, compareToBook_above hbelowB haboveB, hsame]
  obtain ⟨it, hit, hfoundA, hcompareA⟩ := compareToBook_closest hbelowA haboveA
  have hlogAB : Real.log a ≤ Real.log b := Real.log_le_log (Int.cast_pos.mpr (pos_of_not_below hbelowA)) hab'
  have hlogBC : Real.log b ≤ Real.log c := Real.log_le_log (Int.cast_pos.mpr (pos_of_not_below hbelowB)) hbc'
  by_cases haboveC : Above table c
  · obtain ⟨hround, hlast, hright⟩ :=
      place_of_above hit hbelowC haboveC (hcompareA.symm.trans h)
    by_cases haboveB : Above table b
    · have hsame : roundHalfUp (b / table.last.words) = 5 :=
        le_antisymm ((round_mono hbc).trans_eq hround) (five_le_round haboveB)
      rw [hcompareA, hlast, compareToBook_above hbelowB haboveB, hsame]
      norm_num
    · obtain ⟨it', -, hfoundB, hcompareB⟩ := compareToBook_closest hbelowB haboveB
      have hkept := nearest_right (candidates_ne_nil table) hlogAB hfoundA hright
      rw [hcompareA, hcompareB, Option.some.inj (hfoundB.symm.trans hkept)]
  · have haboveB : ¬ Above table b := fun hb => haboveC (lt_of_lt_of_le hb hbc')
    obtain ⟨itC, -, hfoundC, hcompareC⟩ := compareToBook_closest hbelowC haboveC
    obtain ⟨itB, -, hfoundB, hcompareB⟩ := compareToBook_closest hbelowB haboveB
    have hplace : place it = place itC :=
      place_eq_of_comparisonTo (hcompareA.symm.trans (h.trans hcompareC))
    have hkept := nearest_between (candidates_ne_nil table) hlogAB hlogBC hfoundA hfoundC hplace
    rw [hcompareA, hcompareB, Option.some.inj (hfoundB.symm.trans hkept)]

/-! ## The next change -/

/-- **The search ends within 64 bits and finds the next count that compares differently, or nothing where none does up
to the greatest.** -/
theorem nextChange_spec (table : BookTable) :
    (∀ a b c : ℤ, a ≤ b → b ≤ c → compareToBook table a = compareToBook table c →
      compareToBook table b = compareToBook table a) ∧
    ∀ words : ℤ, -most - 1 ≤ words → words ≤ most →
      ∃ result, nextChange table 64 words = some result ∧
        (result = 0 ↔ words < 0 ∨
          ∀ n, words < n → n ≤ most → compareToBook table n = compareToBook table words) ∧
        (result ≠ 0 →
          IsLeast {n | words < n ∧ n ≤ most ∧ compareToBook table n ≠ compareToBook table words} result) := by
  refine ⟨fun a b c hab hbc h => compareToBook_between hab hbc h, fun words hlow hhigh => ?_⟩
  by_cases hend : words < 0 ∨ words = most
  · refine ⟨0, if_pos hend, iff_of_true rfl ?_, fun hne => absurd rfl hne⟩
    exact hend.imp_right fun heq n hn hle => absurd (heq ▸ hn) (not_lt.mpr hle)
  · obtain ⟨hneg, hmost⟩ := not_or.mp hend
    classical
    have hrun : ∀ a b c, a ≤ b → b ≤ c → compareToBook table a = compareToBook table words →
        compareToBook table c = compareToBook table words → compareToBook table b = compareToBook table words :=
      fun a b c hab hbc ha hc => (compareToBook_between hab hbc (ha.trans hc.symm)).trans ha
    obtain ⟨result, hsearch, hzero, hleast⟩ :=
      RunSearch.search_spec (not_lt.mp hneg) (lt_of_le_of_ne hhigh hmost) hrun rfl (by norm_num [most] : most < 2 ^ 63)
    refine ⟨result, (if_neg hend).trans hsearch, ?_, hleast⟩
    rw [hzero]
    exact (or_iff_right hneg).symm

end BookComparisons

end Speecher
