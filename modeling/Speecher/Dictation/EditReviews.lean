import Mathlib.Algebra.Ring.Nat
import Mathlib.Data.List.Chain
import Speecher.Dictation.SelectionEditPresentation
import Speecher.Foundations.CommonSubsequence

/-!
# What a selection edit's review shows

The runs of a comparison are the revised text and, the spaces around its words apart, the original; they keep as many
words as can be kept, and a stretch that changed is one removed run and one added run at most, in this order
(`diff_shows`). A folded review leaves out kept words only (`fold_shows`).

The table is filled with the lengths of longest common subsequences (`diffTable_eq`). So the walk loses no kept word,
and never removes a word right behind an added one: the words left share no more with one revised word less
(`walk_isChain`).
-/

namespace Speecher

namespace SelectionEdit

/-! ## Words -/

theorem addPiece_spec (read : List Text × Text) (piece : Text) (h : read.1 ≠ [] → read.2 = []) :
    (addPiece read piece).1.flatten ++ (addPiece read piece).2 = read.1.flatten ++ read.2 ++ piece ∧
      ((addPiece read piece).1 ≠ [] → (addPiece read piece).2 = []) := by
  obtain ⟨words, leading⟩ := read
  rw [addPiece]
  by_cases hpiece : trimmed piece ≠ []
  · rw [if_pos hpiece]
    simp
  · rw [if_neg hpiece]
    by_cases hwords : words = []
    · rw [if_pos hwords]
      simp [hwords]
    · rw [if_neg hwords]
      obtain rfl := h hwords
      obtain ⟨init, last, rfl⟩ := (List.eq_nil_or_concat words).resolve_left hwords
      simp

theorem foldl_addPiece (pieces : List Text) :
    (pieces.foldl addPiece ([], [])).1.flatten ++ (pieces.foldl addPiece ([], [])).2 = pieces.flatten ∧
      ((pieces.foldl addPiece ([], [])).1 ≠ [] → (pieces.foldl addPiece ([], [])).2 = []) := by
  induction pieces using List.reverseRecOn with
  | nil => exact ⟨rfl, fun _ => rfl⟩
  | append_singleton pieces piece ih =>
    rw [List.foldl_append, List.foldl_cons, List.foldl_nil, List.flatten_append, List.flatten_singleton, ← ih.1]
    exact addPiece_spec _ piece ih.2

/-- The words of a text are the text. -/
theorem flatten_words (B : WordBoundaries) (text : Text) : (words B text).flatten = text := by
  obtain ⟨hflatten, -⟩ := foldl_addPiece (B.pieces text)
  rw [B.flatten_pieces] at hflatten
  rw [words]
  by_cases hleading : ((B.pieces text).foldl addPiece ([], [])).2 ≠ []
  · rw [if_pos hleading, List.flatten_append, List.flatten_singleton, hflatten]
  · rw [if_neg hleading]
    rwa [not_not.mp hleading, List.append_nil] at hflatten

/-! ## The ends -/

theorem sharedHead_spec (xs ys : List Text) :
    sharedHead xs ys ≤ xs.length ∧ sharedHead xs ys ≤ ys.length ∧
      xs.take (sharedHead xs ys) = ys.take (sharedHead xs ys) := by
  induction xs generalizing ys with
  | nil => exact ⟨Nat.zero_le _, Nat.zero_le _, rfl⟩
  | cons x xs ih =>
    cases ys with
    | nil => exact ⟨Nat.zero_le _, Nat.zero_le _, rfl⟩
    | cons y ys =>
      rw [sharedHead]
      by_cases hxy : x = y
      · obtain ⟨hxs, hys, htake⟩ := ih ys
        rw [if_pos hxy, List.take_succ_cons, List.take_succ_cons, hxy, htake]
        exact ⟨Nat.succ_le_succ hxs, Nat.succ_le_succ hys, rfl⟩
      · rw [if_neg hxy]
        exact ⟨Nat.zero_le _, Nat.zero_le _, rfl⟩

/-- Behind their shared head, two lists share a tail. -/
theorem sharedTail_spec (xs ys : List Text) :
    sharedHead xs.reverse ys.reverse ≤ xs.length ∧ sharedHead xs.reverse ys.reverse ≤ ys.length ∧
      xs.drop (xs.length - sharedHead xs.reverse ys.reverse) =
        ys.drop (ys.length - sharedHead xs.reverse ys.reverse) := by
  obtain ⟨hxs, hys, htake⟩ := sharedHead_spec xs.reverse ys.reverse
  rw [List.length_reverse] at hxs hys
  refine ⟨hxs, hys, ?_⟩
  rw [List.take_reverse, List.take_reverse] at htake
  exact List.reverse_injective htake

/-- A list is its head, its stretch between and its tail. -/
theorem stretch_spec (words : List Text) {head tail : ℕ} (h : head + tail ≤ words.length) :
    words.take head ++ stretch (head, tail) words ++ words.drop (words.length - tail) = words := by
  have hdrop : words.drop (words.length - tail) = (words.drop head).drop (words.length - head - tail) := by
    rw [List.drop_drop]
    congr 1
    omega
  rw [stretch, hdrop, List.append_assoc, List.take_append_drop, List.take_append_drop]

/-! ## The table -/

section Table

variable {beforeKeys afterKeys : List Text}

/-- What a cell of the table is to hold. -/
def cell (beforeKeys afterKeys : List Text) (i j : ℕ) : ℕ := common (beforeKeys.drop i) (afterKeys.drop j)

theorem cell_outside {i j : ℕ} (h : beforeKeys.length ≤ i ∨ afterKeys.length ≤ j) : cell beforeKeys afterKeys i j = 0 := by
  rcases h with h | h
  · rw [cell, List.drop_of_length_le h, common_nil_left]
  · rw [cell, List.drop_of_length_le h, common_nil_right]

theorem cell_le (i j : ℕ) : cell beforeKeys afterKeys i j ≤ min beforeKeys.length afterKeys.length := by
  rw [cell, le_min_iff]
  exact ⟨(common_le_left _ _).trans (List.drop_sublist _ _).length_le,
    (common_le_right _ _).trans (List.drop_sublist _ _).length_le⟩

/-- A cell from the three behind it. -/
theorem cell_eq {i j : ℕ} (hi : i < beforeKeys.length) (hj : j < afterKeys.length) :
    cell beforeKeys afterKeys i j =
      if beforeKeys[i]? = afterKeys[j]? then cell beforeKeys afterKeys (i + 1) (j + 1) + 1
      else max (cell beforeKeys afterKeys (i + 1) j) (cell beforeKeys afterKeys i (j + 1)) := by
  have hiff : beforeKeys[i]? = afterKeys[j]? ↔ beforeKeys[i] = afterKeys[j] := by
    rw [List.getElem?_eq_getElem hi, List.getElem?_eq_getElem hj, Option.some_inj]
  simp only [cell]
  rw [List.drop_eq_getElem_cons hi, List.drop_eq_getElem_cons hj]
  by_cases heq : beforeKeys[i] = afterKeys[j]
  · rw [if_pos (hiff.mpr heq), heq, common_cons_self]
  · rw [if_neg (mt hiff.mp heq), common_cons_ne heq]

/-- A table too small for a cell to hold more than 16 bits. -/
def Fits (beforeKeys afterKeys : List Text) : Prop := min beforeKeys.length afterKeys.length < 2 ^ 16

theorem Fits.quint16_cell (hfits : Fits beforeKeys afterKeys) {i j n : ℕ} (h : n = cell beforeKeys afterKeys i j) :
    quint16 n = n := by
  rw [quint16, Nat.mod_eq_of_lt]
  exact h ▸ (cell_le i j).trans_lt hfits

/-- A row is filled from the one behind it. -/
theorem fillRow_spec (hfits : Fits beforeKeys afterKeys) {i j : ℕ} {shared : Table} (hi : i < beforeKeys.length)
    (hj : j ≤ afterKeys.length) (hbehind : ∀ k, shared (i + 1) k = cell beforeKeys afterKeys (i + 1) k)
    (hrow : ∀ k, j ≤ k → shared i k = cell beforeKeys afterKeys i k) :
    (∀ k, fillRow beforeKeys afterKeys i j shared i k = cell beforeKeys afterKeys i k) ∧
      ∀ i', i' ≠ i → fillRow beforeKeys afterKeys i j shared i' = shared i' := by
  induction j generalizing shared with
  | zero => exact ⟨fun k => hrow k (Nat.zero_le k), fun _ _ => rfl⟩
  | succ j ih =>
    rw [fillRow]
    have hcell := cell_eq hi (Nat.lt_of_succ_le hj)
    have hvalue : (if beforeKeys[i]? = afterKeys[j]? then quint16 (shared (i + 1) (j + 1) + 1)
        else max (shared (i + 1) j) (shared i (j + 1))) = cell beforeKeys afterKeys i j := by
      rw [hbehind, hbehind, hrow (j + 1) le_rfl, hcell]
      by_cases heq : beforeKeys[i]? = afterKeys[j]?
      · rw [if_pos heq, if_pos heq]
        rw [if_pos heq] at hcell
        exact hfits.quint16_cell hcell.symm
      · rw [if_neg heq, if_neg heq]
    rw [hvalue]
    obtain ⟨hfilled, hothers⟩ := @ih
      (Function.update shared i (Function.update (shared i) j (cell beforeKeys afterKeys i j))) (Nat.le_of_succ_le hj)
      (fun k => by rw [Function.update_of_ne (Nat.succ_ne_self i)]; exact hbehind k)
      fun k hk => by
        rw [Function.update_self]
        rcases hk.eq_or_lt with rfl | hk
        · rw [Function.update_self]
        · rw [Function.update_of_ne hk.ne', hrow k hk]
    refine ⟨hfilled, fun i' hi' => ?_⟩
    rw [hothers i' hi', Function.update_of_ne hi']

/-- The table is filled from its last row. -/
theorem fillTable_spec (hfits : Fits beforeKeys afterKeys) {i : ℕ} {shared : Table} (hi : i ≤ beforeKeys.length)
    (hbehind : ∀ i' k, i ≤ i' → shared i' k = cell beforeKeys afterKeys i' k)
    (hbeside : ∀ i' k, afterKeys.length ≤ k → shared i' k = 0) (i' k : ℕ) :
    fillTable beforeKeys afterKeys i shared i' k = cell beforeKeys afterKeys i' k := by
  induction i generalizing shared with
  | zero => exact hbehind i' k (Nat.zero_le i')
  | succ i ih =>
    obtain ⟨hfilled, hothers⟩ := fillRow_spec hfits (Nat.lt_of_succ_le hi) le_rfl (fun k => hbehind (i + 1) k le_rfl)
      fun k hk => (hbeside i k hk).trans (cell_outside (.inr hk)).symm
    rw [fillTable]
    refine ih (Nat.le_of_succ_le hi) (fun i' k hi' => ?_) fun i' k hk => ?_
    · rcases hi'.eq_or_lt with rfl | hlt
      · exact hfilled k
      · rw [hothers i' hlt.ne', hbehind i' k hlt]
    · by_cases heq : i' = i
      · rw [heq, hfilled, cell_outside (.inr hk)]
      · rw [hothers i' heq, hbeside i' k hk]

end Table

/-! ## The walk -/

section Walk

variable {shared : Table} {i j : ℕ} {before after : List Text} {x y : Text}

/-- From a cell on, a table tells what the words from there on share. -/
def Filled (shared : Table) (i j : ℕ) (before after : List Text) : Prop :=
  ∀ k l, shared (i + k) (j + l) = cell (comparable before) (comparable after) k l

theorem Filled.left (h : Filled shared i j (x :: before) after) : Filled shared (i + 1) j before after := by
  intro k l
  rw [Nat.add_right_comm, Nat.add_assoc, h]
  rfl

theorem Filled.right (h : Filled shared i j before (y :: after)) : Filled shared i (j + 1) before after := by
  intro k l
  rw [Nat.add_right_comm j, Nat.add_assoc j, h]
  rfl

theorem Filled.below (h : Filled shared i j (x :: before) after) :
    shared (i + 1) j = common (comparable before) (comparable after) := h.left 0 0

theorem Filled.beside (h : Filled shared i j before (y :: after)) :
    shared i (j + 1) = common (comparable before) (comparable after) := h.right 0 0

/-- The kept and the added words are the revised ones. -/
theorem walk_revised (shared : Table) (i j : ℕ) (before after : List Text) :
    ((walk shared i j before after).filter (·.1 ≠ .removed)).map Prod.snd = after := by
  fun_induction walk shared i j before after with
  | case1 => rfl
  | case2 i j word before ih => rw [List.filter_cons_of_neg (by simp), ih]
  | case3 i j word after ih => rw [List.filter_cons_of_pos (by simp), List.map_cons, ih]
  | case4 i j x before y after heq ih => rw [List.filter_cons_of_pos (by simp), List.map_cons, ih]
  | case5 i j x before y after hne hle ih => rw [List.filter_cons_of_neg (by simp), ih]
  | case6 i j x before y after hne hlt ih => rw [List.filter_cons_of_pos (by simp), List.map_cons, ih]

/-- The kept and the removed words are the original ones, the spaces around them apart. -/
theorem walk_original (shared : Table) (i j : ℕ) (before after : List Text) :
    ((walk shared i j before after).filter (·.1 ≠ .added)).map (trimmed ·.2) = comparable before := by
  fun_induction walk shared i j before after with
  | case1 => rfl
  | case2 i j word before ih => rw [List.filter_cons_of_pos (by simp), List.map_cons, ih]; rfl
  | case3 i j word after ih => rw [List.filter_cons_of_neg (by simp), ih]
  | case4 i j x before y after heq ih => rw [List.filter_cons_of_pos (by simp), List.map_cons, ih, ← heq]; rfl
  | case5 i j x before y after hne hle ih => rw [List.filter_cons_of_pos (by simp), List.map_cons, ih]; rfl
  | case6 i j x before y after hne hlt ih => rw [List.filter_cons_of_neg (by simp), ih]

/-- The walk omits nothing. -/
theorem walk_ne_omitted (shared : Table) (i j : ℕ) (before after : List Text) :
    ∀ step ∈ walk shared i j before after, step.1 ≠ .omitted := by
  fun_induction walk shared i j before after with
  | case1 => nofun
  | case2 i j word before ih => exact List.forall_mem_cons.mpr ⟨nofun, ih⟩
  | case3 i j word after ih => exact List.forall_mem_cons.mpr ⟨nofun, ih⟩
  | case4 i j x before y after heq ih => exact List.forall_mem_cons.mpr ⟨nofun, ih⟩
  | case5 i j x before y after hne hle ih => exact List.forall_mem_cons.mpr ⟨nofun, ih⟩
  | case6 i j x before y after hne hlt ih => exact List.forall_mem_cons.mpr ⟨nofun, ih⟩

/-- As many words are kept as can be. -/
theorem countP_walk (h : Filled shared i j before after) :
    (walk shared i j before after).countP (·.1 = .kept) = common (comparable before) (comparable after) := by
  fun_induction walk shared i j before after with
  | case1 => exact (common_nil_left _).symm
  | case2 i j word before ih =>
    rw [List.countP_cons_of_neg (by simp), ih h.left]
    exact (common_nil_right _).trans (common_nil_right _).symm
  | case3 i j word after ih =>
    rw [List.countP_cons_of_neg (by simp), ih h.right]
    exact (common_nil_left _).trans (common_nil_left _).symm
  | case4 i j x before y after heq ih =>
    have hkept := ih h.left.right
    simp only [comparable, List.map_cons] at hkept ⊢
    rw [List.countP_cons_of_pos (by simp), hkept, heq, common_cons_self]
  | case5 i j x before y after hne hle ih =>
    rw [h.below, h.beside] at hle
    have hkept := ih h.left
    simp only [comparable, List.map_cons] at hkept hle ⊢
    rw [List.countP_cons_of_neg (by simp), hkept, common_cons_ne hne, max_eq_left hle]
  | case6 i j x before y after hne hlt ih =>
    rw [h.below, h.beside] at hlt
    have hkept := ih h.right
    simp only [comparable, List.map_cons] at hkept hlt ⊢
    rw [List.countP_cons_of_neg (by simp), hkept, common_cons_ne hne, max_eq_right (Nat.le_of_not_le hlt)]

/-- A word is removed first only where what is left shares no less without it. -/
theorem common_of_walk_removed (h : Filled shared i j before after)
    (hwalk : ∀ step ∈ (walk shared i j before after).head?, step.1 = .removed) (hbefore : before ≠ []) :
    common (comparable before) (comparable after) = common (comparable before).tail (comparable after) := by
  cases before with
  | nil => exact absurd rfl hbefore
  | cons x before =>
    cases after with
    | nil => exact (common_nil_right _).trans (common_nil_right _).symm
    | cons y after =>
      rw [walk] at hwalk
      by_cases heq : trimmed x = trimmed y
      · rw [if_pos heq] at hwalk
        cases hwalk _ rfl
      · rw [if_neg heq] at hwalk
        by_cases hle : shared (i + 1) j ≥ shared i (j + 1)
        · rw [h.below, h.beside] at hle
          simp only [comparable, List.map_cons, List.tail_cons] at hle ⊢
          rw [common_cons_ne heq, max_eq_left hle]
        · rw [if_neg hle] at hwalk
          cases hwalk _ rfl

/-- No word is removed right behind an added one. -/
theorem walk_isChain (h : Filled shared i j before after) :
    (walk shared i j before after).IsChain fun s t => ¬(s.1 = .added ∧ t.1 = .removed) := by
  fun_induction walk shared i j before after with
  | case1 => exact .nil
  | case2 i j word before ih => exact (ih h.left).cons fun _ _ hall => nomatch hall.1
  | case3 i j word after ih =>
    refine (ih h.right).cons fun step hstep hall => ?_
    have hmem := List.mem_of_mem_head? hstep
    have hnone := walk_original shared i (j + 1) [] after
    rw [comparable, List.map_nil, List.map_eq_nil_iff, List.filter_eq_nil_iff] at hnone
    exact hnone step hmem (by rw [hall.2]; rfl)
  | case4 i j x before y after heq ih => exact (ih h.left.right).cons fun _ _ hall => nomatch hall.1
  | case5 i j x before y after hne hle ih => exact (ih h.left).cons fun _ _ hall => nomatch hall.1
  | case6 i j x before y after hne hlt ih =>
    refine (ih h.right).cons fun step hstep hall => ?_
    -- The word removed next was of no use, so the one added was not needed to keep as many.
    have huseless := common_of_walk_removed h.right
      (fun step' hstep' => Option.mem_unique hstep' hstep ▸ hall.2) (List.cons_ne_nil x before)
    rw [h.below, h.beside] at hlt
    have hmono : common (comparable before) (comparable after) ≤ common (comparable before) (comparable (y :: after)) :=
      common_mono (List.Sublist.refl _) (List.sublist_cons_self _ _)
    exact hlt (huseless.trans_le hmono)

end Walk

/-! ## Runs -/

theorem add_concat (runs : List EditRun) (last : EditRun) (step : Kind × Text) :
    add (runs ++ [last]) step =
      if last.kind = step.1 then runs ++ [{ last with text := last.text ++ step.2 }]
      else runs ++ [last] ++ [⟨step.1, step.2, []⟩] := by
  rw [add, List.getLast?_concat, List.dropLast_concat]

/-- The last run grows by a step of its kind; any other step is a run of its own. -/
theorem add_cases (runs : List EditRun) (step : Kind × Text) :
    (∃ init last, runs = init ++ [last] ∧ last.kind = step.1 ∧
        add runs step = init ++ [{ last with text := last.text ++ step.2 }]) ∨
      ((∀ last ∈ runs.getLast?, last.kind ≠ step.1) ∧ add runs step = runs ++ [⟨step.1, step.2, []⟩]) := by
  rcases List.eq_nil_or_concat runs with rfl | ⟨init, last, rfl⟩
  · exact .inr ⟨nofun, rfl⟩
  · rw [List.concat_eq_append, add_concat]
    by_cases hkind : last.kind = step.1
    · exact .inl ⟨init, last, rfl, hkind, if_pos hkind⟩
    · refine .inr ⟨fun last' hlast => ?_, if_neg hkind⟩
      rw [List.getLast?_concat, Option.mem_some_iff] at hlast
      exact hlast ▸ hkind

section Runs

variable (steps : List (Kind × Text))

/-- The runs of some kinds hold the words of these kinds. -/
theorem flatten_runs (p : Kind → Bool) :
    (((steps.foldl add []).filter (p ·.kind)).map EditRun.text).flatten =
      ((steps.filter (p ·.1)).map Prod.snd).flatten := by
  induction steps using List.reverseRecOn with
  | nil => rfl
  | append_singleton steps step ih =>
    rw [List.foldl_append, List.foldl_cons, List.foldl_nil, List.filter_append, List.map_append, List.flatten_append, ← ih]
    rcases add_cases (steps.foldl add []) step with ⟨init, last, hruns, hkind, hadd⟩ | ⟨-, hadd⟩
    · rw [hadd, hruns]
      by_cases hp : p step.1 = true
      · simp [hkind, hp]
      · simp [hkind, hp]
    · rw [hadd, List.filter_append, List.map_append, List.flatten_append]
      by_cases hp : p step.1 = true <;> simp [hp]

/-- The kinds of the runs are those of the steps, repetitions left out. -/
theorem kinds_runs : let kinds := (steps.foldl add []).map EditRun.kind
    kinds.getLast? = steps.getLast?.map Prod.fst ∧ (∀ kind ∈ kinds, ∃ step ∈ steps, kind = step.1) ∧
      (steps.IsChain (fun s t => ¬(s.1 = .added ∧ t.1 = .removed)) →
        kinds.IsChain fun kind kind' => kind ≠ kind' ∧ ¬(kind = .added ∧ kind' = .removed)) := by
  induction steps using List.reverseRecOn with
  | nil => exact ⟨rfl, nofun, fun _ => .nil⟩
  | append_singleton steps step ih =>
    obtain ⟨hlast, hmem, hchain⟩ := ih
    rw [List.foldl_append, List.foldl_cons, List.foldl_nil]
    rcases add_cases (steps.foldl add []) step with ⟨init, last, hruns, hkind, hadd⟩ | ⟨hother, hadd⟩
    · have hkinds : (add (steps.foldl add []) step).map EditRun.kind = (steps.foldl add []).map EditRun.kind := by
        rw [hadd, hruns, List.map_append, List.map_append]
        rfl
      rw [hkinds]
      refine ⟨?_, fun kind h => ?_, fun h => hchain h.left_of_append⟩
      · rw [hruns, List.map_append, List.map_singleton, List.getLast?_concat, List.getLast?_concat, hkind]
        rfl
      · obtain ⟨step', hstep', heq⟩ := hmem kind h
        exact ⟨step', List.mem_append_left _ hstep', heq⟩
    · rw [hadd, List.map_append, List.map_singleton]
      refine ⟨?_, fun kind h => ?_, fun h => ?_⟩
      · rw [List.getLast?_concat, List.getLast?_concat]
        rfl
      · rcases List.mem_append.mp h with h | h
        · obtain ⟨step', hstep', heq⟩ := hmem kind h
          exact ⟨step', List.mem_append_left _ hstep', heq⟩
        · exact ⟨step, List.mem_concat_self, List.mem_singleton.mp h⟩
      · obtain ⟨hbefore, -, hbetween⟩ := List.isChain_append.mp h
        refine List.isChain_append.mpr ⟨hchain hbefore, .singleton _, ?_⟩
        intro kind hkind kind' hkind'
        rw [List.head?_cons, Option.mem_some_iff] at hkind'
        subst hkind'
        refine ⟨?_, ?_⟩
        · rw [List.getLast?_map, Option.mem_def, Option.map_eq_some_iff] at hkind
          obtain ⟨run, hrun, rfl⟩ := hkind
          exact hother run hrun
        · rw [hlast, Option.mem_def, Option.map_eq_some_iff] at hkind
          obtain ⟨step', hstep', rfl⟩ := hkind
          exact hbetween step' hstep' step rfl

end Runs

/-! ## The comparison -/

section Diff

variable {before after : List Text}

theorem sharedEnds_spec (before after : List Text) : let ends := sharedEnds (comparable before) (comparable after)
    ends.1 + ends.2 ≤ before.length ∧ ends.1 + ends.2 ≤ after.length ∧
      comparable (before.take ends.1) = comparable (after.take ends.1) ∧
      comparable (before.drop (before.length - ends.2)) = comparable (after.drop (after.length - ends.2)) := by
  obtain ⟨hbefore, hafter, htake⟩ := sharedHead_spec (comparable before) (comparable after)
  obtain ⟨htailBefore, htailAfter, hdrop⟩ := sharedTail_spec
    ((comparable before).drop (sharedHead (comparable before) (comparable after)))
    ((comparable after).drop (sharedHead (comparable before) (comparable after)))
  simp only [sharedEnds]
  generalize sharedHead (comparable before) (comparable after) = head at *
  generalize sharedHead ((comparable before).drop head).reverse ((comparable after).drop head).reverse = tail at *
  rw [List.length_drop] at htailBefore htailAfter
  simp only [comparable, List.length_map, ← List.map_take, ← List.map_drop, List.length_drop, List.drop_drop] at *
  rw [show head + (before.length - head - tail) = before.length - tail by omega,
    show head + (after.length - head - tail) = after.length - tail by omega] at hdrop
  exact ⟨by omega, by omega, htake, hdrop⟩

theorem fits_of_le {between revised : List Text}
    (h : ¬(between.length + 1) * (revised.length + 1) > kMaxDiffCells) :
    Fits (comparable between) (comparable revised) := by
  rw [Fits, comparable, comparable, List.length_map, List.length_map]
  by_contra hlarge
  have hmin := Nat.le_of_not_lt hlarge
  have hcells : 2 ^ 16 * 2 ^ 16 ≤ (between.length + 1) * (revised.length + 1) :=
    Nat.mul_le_mul (by omega) (by omega)
  exact h (Nat.lt_of_lt_of_le (by decide) hcells)

/-- **The table** holds what is left to share, in 16 bits. -/
theorem diffTable_eq {between revised : List Text}
    (h : ¬(between.length + 1) * (revised.length + 1) > kMaxDiffCells) (i j : ℕ) :
    diffTable between revised i j = cell (comparable between) (comparable revised) i j := by
  refine fillTable_spec (fits_of_le h) (by simp [comparable]) (fun i' k hi' => ?_) (fun _ _ _ => rfl) i j
  refine (cell_outside (.inl ?_)).symm
  simpa [comparable] using hi'

/-- What the steps of a comparison are: its shared head, a walk through its table, and its shared tail. -/
theorem diffSteps_cases {steps : List (Kind × Text)} (h : diffSteps before after = some steps) :
    ∃ head between revised beforeTail afterTail : List Text, ∃ beforeHead : List Text,
      before = beforeHead ++ between ++ beforeTail ∧ after = head ++ revised ++ afterTail ∧
      comparable beforeHead = comparable head ∧ comparable beforeTail = comparable afterTail ∧
      ¬(between.length + 1) * (revised.length + 1) > kMaxDiffCells ∧
      steps = head.map (.kept, ·) ++ walk (diffTable between revised) 0 0 between revised ++
        afterTail.map (.kept, ·) := by
  obtain ⟨hbefore, hafter, hhead, htail⟩ := sharedEnds_spec before after
  rw [diffSteps] at h
  generalize sharedEnds (comparable before) (comparable after) = ends at *
  by_cases hcells : ((stretch ends before).length + 1) * ((stretch ends after).length + 1) > kMaxDiffCells
  · rw [if_pos hcells] at h
    cases h
  · rw [if_neg hcells, Option.some.injEq] at h
    exact ⟨_, _, _, _, _, _, (stretch_spec before hbefore).symm, (stretch_spec after hafter).symm, hhead, htail, hcells,
      h.symm⟩

/-- A list of kept words. -/
theorem filter_kept (p : Kind × Text → Bool) (h : ∀ word, p (.kept, word) = true) (words : List Text) :
    (words.map (Kind.kept, ·)).filter p = words.map (.kept, ·) := by
  rw [List.filter_eq_self, List.forall_mem_map]
  exact fun word _ => h word

theorem diffSteps_revised {steps : List (Kind × Text)} (h : diffSteps before after = some steps) :
    (steps.filter (·.1 ≠ .removed)).map Prod.snd = after := by
  obtain ⟨head, between, revised, beforeTail, afterTail, beforeHead, -, hafter, -, -, -, rfl⟩ := diffSteps_cases h
  rw [List.filter_append, List.filter_append, filter_kept _ (fun _ => rfl), filter_kept _ (fun _ => rfl), List.map_append,
    List.map_append, walk_revised, List.map_map, List.map_map, hafter]
  exact congrArg₂ (· ++ ·) (congrArg (· ++ revised) (List.map_id head)) (List.map_id afterTail)

theorem diffSteps_original {steps : List (Kind × Text)} (h : diffSteps before after = some steps) :
    (steps.filter (·.1 ≠ .added)).map (trimmed ·.2) = comparable before := by
  obtain ⟨head, between, revised, beforeTail, afterTail, beforeHead, hbefore, -, hhead, htail, -, rfl⟩ := diffSteps_cases h
  rw [List.filter_append, List.filter_append, filter_kept _ (fun _ => rfl), filter_kept _ (fun _ => rfl), List.map_append,
    List.map_append, walk_original, List.map_map, List.map_map, hbefore, comparable, comparable, List.map_append,
    List.map_append]
  exact congrArg₂ (· ++ ·) (congrArg (· ++ _) hhead.symm) htail.symm

theorem filled_diffTable {between revised : List Text}
    (h : ¬(between.length + 1) * (revised.length + 1) > kMaxDiffCells) :
    Filled (diffTable between revised) 0 0 between revised := by
  intro k l
  rw [Nat.zero_add, Nat.zero_add]
  exact diffTable_eq h k l

theorem countP_kept (words : List Text) : (words.map (Kind.kept, ·)).countP (·.1 = .kept) = words.length := by
  rw [List.countP_map]
  exact List.countP_eq_length.mpr fun _ _ => rfl

/-- As many words are kept as both texts share in order. -/
theorem countP_diffSteps {steps : List (Kind × Text)} (h : diffSteps before after = some steps) :
    steps.countP (·.1 = .kept) = common (comparable before) (comparable after) := by
  obtain ⟨head, between, revised, beforeTail, afterTail, beforeHead, hbefore, hafter, hhead, htail, hcells, rfl⟩ :=
    diffSteps_cases h
  have hkeys : common (comparable before) (comparable after) =
      head.length + (common (comparable between) (comparable revised) + afterTail.length) := by
    simp only [hbefore, hafter, comparable, List.map_append, List.append_assoc] at hhead htail ⊢
    rw [hhead, htail, common_append_left, common_append_right, List.length_map, List.length_map]
  rw [List.countP_append, List.countP_append, countP_kept, countP_kept, countP_walk (filled_diffTable hcells), hkeys,
    Nat.add_assoc]

theorem isChain_kept (words : List Text) :
    (words.map (Kind.kept, ·)).IsChain fun s t => ¬(s.1 = .added ∧ t.1 = .removed) := by
  induction words with
  | nil => exact .nil
  | cons word words ih => exact ih.cons fun _ _ hall => nomatch hall.1

/-- No word is removed right behind an added one. -/
theorem diffSteps_isChain {steps : List (Kind × Text)} (h : diffSteps before after = some steps) :
    steps.IsChain fun s t => ¬(s.1 = .added ∧ t.1 = .removed) := by
  obtain ⟨head, between, revised, beforeTail, afterTail, beforeHead, -, -, -, -, hcells, rfl⟩ := diffSteps_cases h
  have hwalk := walk_isChain (filled_diffTable hcells)
  refine ((isChain_kept head).append hwalk ?_).append (isChain_kept afterTail) ?_
  · rintro s hs t - ⟨hadded, -⟩
    obtain ⟨word, -, rfl⟩ := List.mem_map.mp (List.mem_of_mem_getLast? hs)
    cases hadded
  · rintro s - t ht ⟨-, hremoved⟩
    obtain ⟨word, -, rfl⟩ := List.mem_map.mp (List.mem_of_mem_head? ht)
    cases hremoved

theorem diffSteps_ne_omitted {steps : List (Kind × Text)} (h : diffSteps before after = some steps) :
    ∀ step ∈ steps, step.1 ≠ .omitted := by
  obtain ⟨head, between, revised, beforeTail, afterTail, beforeHead, -, -, -, -, -, rfl⟩ := diffSteps_cases h
  intro step hstep
  rw [List.mem_append, List.mem_append, List.mem_map, List.mem_map] at hstep
  rcases hstep with (⟨word, -, rfl⟩ | hstep) | ⟨word, -, rfl⟩
  · nofun
  · exact walk_ne_omitted _ _ _ _ _ step hstep
  · nofun

end Diff

/-! ## What changed -/

/-- Kinds that take turns, no removed one behind an added one, none of them kept or omitted: two at most. -/
theorem sublist_of_isChain {kinds : List Kind}
    (hchain : kinds.IsChain fun kind kind' => kind ≠ kind' ∧ ¬(kind = .added ∧ kind' = .removed))
    (hkept : .kept ∉ kinds) (homitted : .omitted ∉ kinds) : kinds.Sublist [.removed, .added] := by
  have hchanged : ∀ kind ∈ kinds, kind = .removed ∨ kind = .added := by
    intro kind hkind
    cases kind with
    | kept => exact absurd hkind hkept
    | removed => exact .inl rfl
    | added => exact .inr rfl
    | omitted => exact absurd hkind homitted
  match kinds, hchain with
  | [], _ => exact List.nil_sublist _
  | [kind], _ => rcases hchanged kind List.mem_cons_self with rfl | rfl <;> decide
  | [kind, kind'], hchain =>
    obtain ⟨hne, hnot⟩ := List.isChain_pair.mp hchain
    rcases hchanged kind List.mem_cons_self with rfl | rfl
    · rcases hchanged kind' (List.mem_cons_of_mem _ List.mem_cons_self) with rfl | rfl
      · exact absurd rfl hne
      · exact List.Sublist.refl _
    · rcases hchanged kind' (List.mem_cons_of_mem _ List.mem_cons_self) with rfl | rfl
      · exact absurd ⟨rfl, rfl⟩ hnot
      · exact absurd rfl hne
  | kind :: kind' :: kind'' :: kinds, hchain =>
    obtain ⟨⟨hne, hnot⟩, hrest⟩ := List.isChain_cons_cons.mp hchain
    obtain ⟨⟨hne', hnot'⟩, -⟩ := List.isChain_cons_cons.mp hrest
    have h₁ := hchanged kind List.mem_cons_self
    have h₂ := hchanged kind' (List.mem_cons_of_mem _ List.mem_cons_self)
    have h₃ := hchanged kind'' (List.mem_cons_of_mem _ (List.mem_cons_of_mem _ List.mem_cons_self))
    rcases h₂ with rfl | rfl
    · rcases h₁ with rfl | rfl
      · exact absurd rfl hne
      · exact absurd ⟨rfl, rfl⟩ hnot
    · rcases h₃ with rfl | rfl
      · exact absurd ⟨rfl, rfl⟩ hnot'
      · exact absurd rfl hne'

variable (B : WordBoundaries) (u : Scripts)

/-- What a folded review shows of a run, the `index`th of `size`: all of it, or of a kept one the words beside the
changes before and behind it. -/
inductive FoldsRun (size index : ℕ) (run : EditRun) : List EditRun → Prop
  | whole : FoldsRun size index run [run]
  | folded (first hidden last : List Text) (shownFirst shownLast : List EditRun) (hkind : run.kind = .kept)
      (hwords : words B run.text = first ++ hidden ++ last)
      (hfirst : first.length = if index = 0 then 0 else kFoldContextWords)
      (hlast : last.length = if index + 1 = size then 0 else kFoldContextWords)
      (hshownFirst : shownFirst = if first = [] then [] else [⟨.kept, first.flatten, []⟩])
      (hshownLast : shownLast = if last = [] then [] else [⟨.kept, last.flatten, []⟩]) :
      FoldsRun size index run (shownFirst ++ [⟨.omitted, "…".toList, [' ']⟩] ++ shownLast)

/-- A folded review shows each run so. -/
def Folds (runs folded : List EditRun) : Prop :=
  ∃ parts : List (List EditRun), folded = parts.flatten ∧ parts.length = runs.length ∧
    ∀ index run, runs[index]? = some run → ∃ part, parts[index]? = some part ∧ FoldsRun B runs.length index run part

theorem foldRun_folds (size : ℕ) (run : EditRun) (index : ℕ) (h : index < size) :
    FoldsRun B size index run (foldRun B size run index) := by
  rw [foldRun]
  have hlast : (if index = size - 1 then 0 else kFoldContextWords) =
      if index + 1 = size then 0 else kFoldContextWords := by
    by_cases heq : index + 1 = size
    · rw [if_pos heq, if_pos (by omega)]
    · rw [if_neg heq, if_neg (by omega)]
  rw [hlast]
  generalize hhead : (if index = 0 then 0 else kFoldContextWords) = head
  generalize htail : (if index + 1 = size then 0 else kFoldContextWords) = tail
  by_cases hwhole : (decide (run.kind ≠ .kept) || decide ((words B run.text).length < head + tail + kFoldMinimumWords)) = true
  · rw [if_pos hwhole]
    exact .whole
  · rw [if_neg hwhole]
    rw [Bool.or_eq_true, decide_eq_true_eq, decide_eq_true_eq, not_or, not_not, Nat.not_lt] at hwhole
    obtain ⟨hkind, hlong⟩ := hwhole
    refine .folded ((words B run.text).take head) (((words B run.text).drop head).take ((words B run.text).length - head - tail))
      ((words B run.text).drop ((words B run.text).length - tail)) _ _ hkind ?_ ?_ ?_ ?_ ?_
    · exact (stretch_spec _ (by omega)).symm
    · rw [List.length_take, hhead]
      omega
    · rw [List.length_drop, htail]
      omega
    · by_cases hzero : head = 0
      · rw [if_neg (by omega), if_pos (by rw [hzero, List.take_zero])]
      · rw [if_pos (by omega), if_neg]
        rw [← List.length_eq_zero_iff, List.length_take]
        omega
    · by_cases hzero : tail = 0
      · rw [if_neg (by omega), if_pos (by rw [hzero, Nat.sub_zero, List.drop_length])]
      · rw [if_pos (by omega), if_neg]
        rw [← List.length_eq_zero_iff, List.length_drop]
        omega

/-- A review is folded, if it is, by leaving out kept words. -/
theorem fold_folds (runs : List EditRun) : fold B u runs = [] ∨ Folds B runs (fold B u runs) := by
  rw [fold]
  by_cases hshort : (runs.map fun run => countWords u.toUnicode (words B run.text)).sum ≤ kFoldAboveWords
  · rw [if_pos hshort]
    exact .inl rfl
  · rw [if_neg hshort]
    dsimp only
    split
    · exact .inl rfl
    · refine .inr ⟨runs.zipIdx.map fun entry => foldRun B runs.length entry.1 entry.2, List.flatMap_def, ?_, ?_⟩
      · rw [List.length_map, List.length_zipIdx]
      · intro index run hrun
        refine ⟨foldRun B runs.length run index, ?_, foldRun_folds B _ _ _ (List.getElem?_eq_some_iff.mp hrun).1⟩
        rw [List.getElem?_map, List.getElem?_zipIdx, hrun]
        simp

/-- The stretch of a text's words that the comparison's table is about. -/
def between (words other : List Text) : List Text := stretch (sharedEnds (comparable words) (comparable other)) words

/-- The table of the comparison of two texts. -/
def comparedTable (text revision : Text) : Table :=
  diffTable (between (words B text) (words B revision)) (between (words B revision) (words B text))

/-- The review of a comparison, given word by word, shows what changed; `shown` is what counts of an original word. -/
structure Shows (shown : Text → Text) (text revision : Text) (steps : List (Kind × Text)) : Prop where
  revised : (((steps.foldl add []).filter (·.kind ≠ .removed)).map EditRun.text).flatten = revision
  original : (steps.filter (·.1 ≠ .added)).map (fun step => shown step.2) = (words B text).map shown
  kept : IsGreatest (commonLengths (comparable (words B text)) (comparable (words B revision)))
    (steps.countP (·.1 = .kept))
  changed : ∀ changes : List EditRun, changes.IsInfix (steps.foldl add []) → (∀ run ∈ changes, run.kind ≠ .kept) →
    (changes.map EditRun.kind).Sublist [.removed, .added]
  cells : ∀ i j, comparedTable B text revision i j < 2 ^ 16 ∧ comparedTable B text revision i j =
    cell (comparable (between (words B text) (words B revision))) (comparable (between (words B revision) (words B text))) i j
  folded : fold B u (separateMarks u (steps.foldl add [])) = [] ∨
    Folds B (separateMarks u (steps.foldl add [])) (fold B u (separateMarks u (steps.foldl add [])))

theorem sharedHead_comm (xs ys : List Text) : sharedHead xs ys = sharedHead ys xs := by
  induction xs generalizing ys with
  | nil => cases ys <;> rfl
  | cons x xs ih =>
    cases ys with
    | nil => rfl
    | cons y ys =>
      rw [sharedHead, sharedHead]
      by_cases heq : x = y
      · rw [if_pos heq, if_pos heq.symm, ih]
      · rw [if_neg heq, if_neg (Ne.symm heq)]

theorem sharedEnds_comm (xs ys : List Text) : sharedEnds xs ys = sharedEnds ys xs := by
  rw [sharedEnds, sharedEnds, sharedHead_comm xs ys, sharedHead_comm (xs.drop _).reverse]

/-- **The review shows exactly what changed**, the spaces around the words apart. -/
theorem diff_shows {text revision : Text} {steps : List (Kind × Text)}
    (h : diffSteps (words B text) (words B revision) = some steps) : Shows B u trimmed text revision steps := by
  have hcells : ¬((between (words B text) (words B revision)).length + 1) *
      ((between (words B revision) (words B text)).length + 1) > kMaxDiffCells := by
    intro hlong
    rw [between, between, sharedEnds_comm (comparable (words B revision))] at hlong
    rw [diffSteps, if_pos hlong] at h
    cases h
  obtain ⟨-, hkinds, hchain⟩ := kinds_runs steps
  refine ⟨?_, diffSteps_original h, ?_, fun changes hat hchanged => ?_, fun i j => ?_, fold_folds B u _⟩
  · rw [flatten_runs steps (· ≠ .removed), diffSteps_revised h, flatten_words]
  · rw [countP_diffSteps h]
    exact common_isGreatest _ _
  · obtain ⟨pre, post, hruns⟩ := hat.map EditRun.kind
    have hkindsChain := hchain (diffSteps_isChain h)
    rw [← hruns] at hkindsChain
    refine sublist_of_isChain hkindsChain.left_of_append.right_of_append ?_ ?_
    · rw [List.mem_map]
      rintro ⟨run, hrun, hkept⟩
      exact hchanged run hrun hkept
    · intro homitted
      obtain ⟨step, hstep, heq⟩ := hkinds _ ((hat.map EditRun.kind).subset homitted)
      exact diffSteps_ne_omitted h step hstep heq.symm
  · have hcell := diffTable_eq hcells i j
    exact ⟨hcell.trans_lt ((cell_le i j).trans_lt (fits_of_le hcells)), hcell⟩

/-- Boundaries around every character. -/
def WordBoundaries.byCharacter : WordBoundaries where
  pieces text := text.map ([·])
  flatten_pieces text := by induction text with
    | nil => rfl
    | cons c text ih => rw [List.map_cons, List.flatten_cons, ih, List.singleton_append]

/-- A platform that knows basic words only. -/
def Scripts.basic : Scripts := { Unicode.basic with writtenWithoutSpaces := fun _ => false }

/-- A word that changed. -/
theorem shows_replaced : Shows .byCharacter .basic trimmed "a b".toList "a c".toList
    [(.kept, "a ".toList), (.removed, "b".toList), (.added, "c".toList)] :=
  diff_shows .byCharacter .basic (by decide +kernel)

/-- The spaces before the first word count for nothing, either. -/
theorem not_shows_leadingSpaces :
    diffSteps (words .byCharacter "  a".toList) (words .byCharacter "a".toList) = some [(.kept, "a".toList)] ∧
      ¬Shows .byCharacter .basic (·.rdropWhile isSpace) "  a".toList "a".toList [(.kept, "a".toList)] :=
  ⟨by decide +kernel, fun h => absurd h.original (by decide +kernel)⟩

end SelectionEdit

end Speecher
