import Speecher.Bindings.Words
import Speecher.Foundations.Blocks

/-!
# Words between white space

`wordsOf` is the words of a text between white space and `simplified` those words with single spaces between them. A
text without them has none (`wordsOf_trimmed`), and the words of a text of words are those (`splitOnP_joinWords`).
-/

namespace Speecher

/-- `QString::simplified`: the words between white space, single spaces between them. -/
def simplified (text : Text) : Text := joinWords ((text.splitOnP isSpace).filter (!·.isEmpty))

/-- A text's words between white space. -/
def IsWord (word : Text) : Prop := word ≠ [] ∧ ∀ c ∈ word, isSpace c = false

theorem splitOnP_joinWords (words : List Text) (h : ∀ word ∈ words, IsWord word) :
    ((joinWords words).splitOnP isSpace).filter (!·.isEmpty) = words := by
  induction words with
  | nil => rfl
  | cons word words ih =>
    have hcons : ∀ rest : List Text, (word :: rest).filter (!·.isEmpty) = word :: rest.filter (!·.isEmpty) :=
      fun rest => List.filter_cons_of_pos (by simp [(h word List.mem_cons_self).1])
    have hspace := (h word List.mem_cons_self).2
    cases words with
    | nil =>
      have hjoin : joinWords [word] = word := by simp [joinWords, List.intercalate]
      rw [hjoin, List.splitOnP_eq_singleton hspace, hcons, List.filter_nil]
    | cons next words =>
      have hjoin : joinWords (word :: next :: words) = word ++ ' ' :: joinWords (next :: words) := by
        simp [joinWords, List.intercalate]
      rw [hjoin, List.splitOnP_append_cons_of_forall_mem hspace ' ' rfl, hcons,
        ih fun w hw => h w (List.mem_cons_of_mem _ hw)]

theorem isWord_of_mem_splitOnP {text word : Text} (h : word ∈ (text.splitOnP isSpace).filter (!·.isEmpty)) :
    IsWord word := by
  obtain ⟨hmem, hne⟩ := List.mem_filter.mp h
  exact ⟨by simpa using hne, eq_false_of_mem_splitOnP hmem⟩

@[simp] theorem simplified_simplified (text : Text) : simplified (simplified text) = simplified text := by
  rw [simplified, simplified, splitOnP_joinWords _ fun word hword => isWord_of_mem_splitOnP hword]

/-- The words of a text, between white space. -/
def wordsOf (text : Text) : List Text := (text.splitOnP isSpace).filter (!·.isEmpty)

theorem wordsOf_append_cons (text rest : Text) {c : Char} (hc : isSpace c = true) :
    wordsOf (text ++ c :: rest) = wordsOf text ++ wordsOf rest := by
  rw [wordsOf, List.splitOnP_append_cons _ _ hc, List.filter_append, wordsOf, wordsOf]

theorem wordsOf_spaces {spaces : Text} (h : ∀ c ∈ spaces, isSpace c = true) (text : Text) :
    wordsOf (spaces ++ text) = wordsOf text := by
  induction spaces with
  | nil => rfl
  | cons c spaces ih =>
    have hcons := wordsOf_append_cons [] (spaces ++ text) (h c List.mem_cons_self)
    rw [List.cons_append, ← List.nil_append (c :: (spaces ++ text)), hcons, ih fun d hd => h d (List.mem_cons_of_mem c hd)]
    rfl

theorem wordsOf_append_spaces {spaces : Text} (h : ∀ c ∈ spaces, isSpace c = true) (text : Text) :
    wordsOf (text ++ spaces) = wordsOf text := by
  cases spaces with
  | nil => rw [List.append_nil]
  | cons c spaces =>
    rw [wordsOf_append_cons _ _ (h c List.mem_cons_self), ← List.append_nil spaces,
      wordsOf_spaces (fun d hd => h d (List.mem_cons_of_mem c hd)), show wordsOf [] = [] from rfl, List.append_nil]

/-- A text has the words of what is left between its outer spaces. -/
theorem wordsOf_trimmed (text : Text) : wordsOf (trimmed text) = wordsOf text := by
  have hfront : ∀ c ∈ text.takeWhile isSpace, isSpace c = true := fun c hc => List.mem_takeWhile_imp hc
  have hback : ∀ c ∈ (text.dropWhile isSpace).rtakeWhile isSpace, isSpace c = true := fun c hc =>
    List.mem_rtakeWhile_imp hc
  have hends : text.takeWhile isSpace ++ (trimmed text ++ (text.dropWhile isSpace).rtakeWhile isSpace) = text := by
    rw [trimmed, stripped, List.rdropWhile_append_rtakeWhile, List.takeWhile_append_dropWhile]
  conv_rhs => rw [← hends, wordsOf_spaces hfront, wordsOf_append_spaces hback]

theorem wordsOf_joinWords (parts : List Text) : wordsOf (joinWords parts) = parts.flatMap wordsOf := by
  induction parts with
  | nil => rfl
  | cons part parts ih =>
    cases parts with
    | nil => simp [joinWords]
    | cons next parts =>
      have hjoin : joinWords (part :: next :: parts) = part ++ ' ' :: joinWords (next :: parts) := by
        simp [joinWords, List.intercalate]
      rw [hjoin, wordsOf_append_cons _ _ (by decide), ih]
      rfl

theorem isWord_of_mem_wordsOf {text word : Text} (h : word ∈ wordsOf text) : IsWord word := isWord_of_mem_splitOnP h

theorem wordsOf_simplified (text : Text) : wordsOf (simplified text) = wordsOf text :=
  splitOnP_joinWords _ fun _ h => isWord_of_mem_wordsOf h

theorem wordsOf_eq_nil_iff {text : Text} : wordsOf text = [] ↔ trimmed text = [] := by
  rw [← wordsOf_trimmed]
  constructor
  · intro hnone
    by_contra hne
    obtain ⟨c, rest, htext⟩ := List.exists_cons_of_ne_nil hne
    have hc : isSpace c = false := isSpace_head_trimmed text c (by rw [htext]; rfl)
    obtain ⟨first, words, hwords⟩ := List.exists_cons_of_ne_nil (List.splitOnP_ne_nil isSpace rest)
    rw [htext, wordsOf, List.splitOnP_cons_eq_if_modifyHead, hc, if_neg Bool.false_ne_true, hwords] at hnone
    simp at hnone
  · intro htrimmed
    rw [htrimmed]
    rfl

theorem simplified_eq_nil_iff {text : Text} : simplified text = [] ↔ wordsOf text = [] := by
  constructor
  · intro hnone
    rw [← wordsOf_simplified, hnone]
    rfl
  · intro hnone
    rw [simplified, show (text.splitOnP isSpace).filter (!·.isEmpty) = [] from hnone]
    rfl

end Speecher
