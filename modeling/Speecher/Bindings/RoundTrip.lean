import Speecher.Bindings.Placeholders

/-!
# A refiner that changes nothing

Refinement is given the transcript with a placeholder for each match. When it returns exactly
that, the placeholders should be found again and the replacements put in. They are, except in two
cases: an underscore next to a match makes the placeholder part of a longer identifier, so it is
taken for a changed one; and the text around the matches, joined where they were cut out, can read
as a placeholder itself. `restore_process_iff` says that these are the only cases.

`substitute_markers` is the scan of the placeholder text: a marker that nothing glues is found, a
glued one stays, and no match starts anywhere else.
-/

namespace Speecher

open Pattern Piece

variable (u : Unicode)

/-! ## What processing yields -/

theorem process_boundText (t : Text) (rules : List BindingRule) :
    (process u t rules).boundText =
      replaceMatches t (findMatches u t rules) fun _ m => m.rule.replacement := by
  rw [process]
  split
  · rename_i h
    rw [List.isEmpty_iff.mp h]
    rfl
  · rfl

theorem process_placeholderText (t : Text) (rules : List BindingRule) :
    (process u t rules).placeholderText =
      replaceMatches t (findMatches u t rules) fun index _ => placeholder index := by
  rw [process]
  split
  · rename_i h
    rw [List.isEmpty_iff.mp h]
    rfl
  · rfl

theorem process_placeholders (t : Text) (rules : List BindingRule) :
    (process u t rules).placeholders =
      (findMatches u t rules).mapIdx fun index m => ⟨placeholder index, m.rule.replacement⟩ := by
  rw [process]
  split
  · rename_i h
    rw [List.isEmpty_iff.mp h]
    rfl
  · rfl

/-! ## Placeholders are told apart -/

theorem digit_of_mem_toDigits {c : Char} {n : ℕ} (h : c ∈ Nat.toDigits 10 n) : digit c = true :=
  Nat.isDigit_of_mem_toDigits (by decide) (by decide) h

theorem wordChar_of_mem_stem : ∀ c ∈ placeholderStem, wordChar c = true :=
  List.all_eq_true.mp (by decide)

theorem wordChar_of_mem_placeholder {c : Char} {n : ℕ} (h : c ∈ placeholder n) : wordChar c = true := by
  rcases List.mem_append.mp h with h | h
  · exact wordChar_of_mem_stem c h
  · exact wordChar_of_digit (digit_of_mem_toDigits h)

theorem placeholder_ne_nil (n : ℕ) : placeholder n ≠ [] :=
  List.append_ne_nil_of_left_ne_nil (List.cons_ne_nil _ _) _

theorem placeholder_injective {m n : ℕ} (h : placeholder m = placeholder n) : m = n := by
  have : Nat.toDigits 10 m = Nat.toDigits 10 n := List.append_cancel_left h
  simpa using congrArg (Nat.ofDigitChars 10 · 0) this

/-- Each match's placeholder stands for its replacement. -/
theorem replacementsByPlaceholder_mapIdx {found : List BindingMatch} {m : BindingMatch} {i : ℕ}
    (h : found[i]? = some m) :
    replacementsByPlaceholder (found.mapIdx fun index m => ⟨placeholder index, m.rule.replacement⟩)
      (placeholder i) = some m.rule.replacement := by
  rw [replacementsByPlaceholder]
  cases hf : List.find? _ _ with
  | none =>
    have hi : i < found.length := List.getElem?_eq_some_iff.mp h |>.1
    have := List.find?_eq_none.mp hf ⟨placeholder i, m.rule.replacement⟩ (by
      rw [List.mem_reverse, List.mem_mapIdx]
      exact ⟨i, hi, by rw [(List.getElem?_eq_some_iff.mp h).2]⟩)
    exact absurd (decide_eq_true rfl) this
  | some p =>
    obtain ⟨j, hj, rfl⟩ := List.mem_mapIdx.mp (List.mem_reverse.mp (List.mem_of_find?_eq_some hf))
    have hsome := List.find?_some hf
    obtain rfl : j = i := placeholder_injective (of_decide_eq_true hsome)
    rw [Option.map_some, ← Option.some.inj ((List.getElem?_eq_getElem hj).symm.trans h)]

/-! ## The text around a match -/

/-- An underscore stands next to a match. -/
def TouchesUnderscore (t : Text) (m : BindingMatch) : Prop :=
  (t.take m.start).getLast? = some '_' ∨ (t.drop m.stop).head? = some '_'

instance (t : Text) (m : BindingMatch) : Decidable (TouchesUnderscore t m) :=
  inferInstanceAs (Decidable (_ ∨ _))

/-- The transcript with its matches cut out. -/
def cutMatches (t : Text) (found : List BindingMatch) : Text := replaceMatches t found fun _ _ => []

theorem eq_underscore {c : Char} (hw : wordChar c = true) (hu : u.isLetterOrNumber c = false) : c = '_' := by
  simp only [wordChar, Bool.or_eq_true, decide_eq_true_eq] at hw
  refine hw.resolve_left fun h => ?_
  rw [u.ascii c (by have := toNat_of_isAlphanum h; omega), h] at hu
  cases hu

theorem any_wordChar {o : Option Char} (h : o.any u.isLetterOrNumber = false) :
    o.any wordChar = decide (o = some '_') := by
  cases o with
  | none => rfl
  | some c =>
    simp only [Option.any_some] at h ⊢
    by_cases hc : c = '_'
    · rw [hc]
      rfl
    · rw [decide_eq_false fun h => hc (Option.some.inj h)]
      exact Bool.eq_false_iff.mpr fun hw => hc (eq_underscore u hw h)

/-- `SPEECHER_BINDING_` does not run across the start of another. -/
theorem stem_prefix {g x y : Text} (hg : g ≠ [])
    (h : placeholderStem ++ x = g ++ (placeholderStem ++ y)) :
    placeholderStem <+: g := by
  rcases List.append_eq_append_iff.mp h with ⟨a, rfl, -⟩ | ⟨c, hc, hy⟩
  · exact List.prefix_append _ _
  · cases c with
    | nil => exact ⟨[], by rw [List.append_nil] at hc ⊢; exact hc⟩
    | cons d c =>
      have hd : d = 'S' := (List.cons.inj hy).1.symm
      have : d ∈ placeholderStem.tail := by
        rw [hc, List.tail_append_of_ne_nil hg]
        exact List.mem_append_right _ List.mem_cons_self
      rw [hd] at this
      exact absurd this (by decide)

/-- No placeholder starts in a stretch of a text without placeholders, the text ending there or a
placeholder following. -/
theorem run_in_gap {t g rest : Text} (hclean : ¬ speecherBinding <:+: t) (hg : g <:+: t)
    (hrest : rest = [] ∨ ∃ y, rest = placeholderStem ++ y) {b : Option Char} :
    ∀ v c w, g = v ++ c :: w →
      ∀ k, exactPlaceholderRegex.run (behind b v) (c :: (w ++ rest)) ≠ some (k + 1) := by
  intro v c w hv k hk
  obtain ⟨-, ds, t', -, -, ht, -, -⟩ := exactPlaceholder_matches.mp (matches_of_run hk)
  have hpre : placeholderStem <+: c :: w := by
    rcases hrest with rfl | ⟨y, rfl⟩
    · rw [List.append_nil] at ht
      exact ⟨_, ht.symm⟩
    · rw [← List.cons_append] at ht
      exact stem_prefix (List.cons_ne_nil c w) ht.symm
  have hstem : speecherBinding <:+: placeholderStem := ⟨[], ['_'], rfl⟩
  have hcw : c :: w <:+: g := ⟨v, [], by rw [hv, List.append_nil]⟩
  exact hclean (hstem.trans (hpre.isInfix.trans (hcw.trans hg)))

/-- No placeholder starts inside a placeholder. -/
theorem run_in_placeholder {n : ℕ} {rest : Text} {b : Option Char}
    (hglued : b.any wordChar = true ∨ rest.head?.any wordChar = true ∧ rest.head?.any digit = false) :
    ∀ v c w, placeholder n = v ++ c :: w →
      ∀ k, exactPlaceholderRegex.run (behind b v) (c :: (w ++ rest)) ≠ some (k + 1) := by
  intro v c w hv k hk
  obtain ⟨hb, ds, t', -, hds, ht, hedge, -⟩ := exactPlaceholder_matches.mp (matches_of_run hk)
  cases v with
  | cons d v =>
    -- Inside the placeholder the character behind is one of its own.
    rw [behind_eq (List.cons_ne_nil d v), List.getLast?_eq_some_getLast (List.cons_ne_nil d v),
      Option.any_some] at hb
    have hmem : (d :: v).getLast (List.cons_ne_nil d v) ∈ placeholder n := by
      rw [hv]
      exact List.mem_append_left _ (List.getLast_mem _)
    rw [wordChar_of_mem_placeholder hmem] at hb
    cases hb
  | nil =>
    rcases hglued with hbehind | ⟨hw, hd⟩
    · rw [show behind b [] = b from rfl, hbehind] at hb
      cases hb
    · -- The digits end within the placeholder, and a digit or the glued character follows.
      rw [List.nil_append] at hv
      rw [← List.cons_append, ← hv, placeholder, List.append_assoc] at ht
      have ht := List.append_cancel_left ht
      rcases List.append_eq_append_iff.mp ht with ⟨a, rfl, ha⟩ | ⟨a, ha, rfl⟩
      · cases a with
        | nil =>
          rw [List.nil_append] at ha
          rw [ha, hedge] at hw
          cases hw
        | cons e a =>
          rw [ha] at hd
          simp only [List.cons_append, List.head?_cons, Option.any_some] at hd
          rw [hds e (List.mem_append_right _ List.mem_cons_self)] at hd
          cases hd
      · cases a with
        | nil =>
          rw [List.nil_append, hw] at hedge
          cases hedge
        | cons e a =>
          simp only [List.cons_append, List.head?_cons, Option.any_some] at hedge
          rw [wordChar_of_digit (digit_of_mem_toDigits (n := n) (ha ▸ by simp))] at hedge
          cases hedge

/-! ## The scan of the placeholder text -/

/-- The matches with the numbers of their placeholders. -/
abbrev Numbered := List (BindingMatch × ℕ)

/-- Matches that stand apart in a text, with no letter or number next to them. -/
structure Stands (t : Text) (l : Numbered) : Prop where
  isolated : ∀ p ∈ l, Isolated u t p.1.span
  apart : l.Pairwise fun p p' => p.1.stop < p'.1.start

/-- The text from `cursor` on, each match rewritten. -/
def rewrite (t : Text) (cursor : ℕ) (new : BindingMatch × ℕ → Text) (l : Numbered) : Text :=
  splice id t cursor (l.map fun p => (p.1.span, new p))

theorem rewrite_cons (t : Text) (cursor : ℕ) (new : BindingMatch × ℕ → Text) (p : BindingMatch × ℕ)
    (l : Numbered) : rewrite t cursor new (p :: l) =
      t.extract cursor p.1.start ++ (new p ++ rewrite t p.1.stop new l) :=
  List.append_assoc ..

theorem head?_rewrite {t : Text} {l : Numbered} {cursor : ℕ} {new : BindingMatch × ℕ → Text}
    (hl : ∀ p ∈ l.head?, cursor < p.1.start ∧ p.1.start ≤ t.length) :
    (rewrite t cursor new l).head? = (t.drop cursor).head? := by
  cases l with
  | nil => rfl
  | cons p l =>
    obtain ⟨hlt, hle⟩ := hl p rfl
    simp only [rewrite, List.map_cons, splice, id_eq, List.append_assoc, List.extract_eq_take_drop,
      BindingMatch.span]
    rw [List.head?_append_of_ne_nil, List.head?_take, if_neg (by omega)]
    simp only [ne_eq, List.take_eq_nil_iff, List.drop_eq_nil_iff]
    omega

theorem behind_gap {t : Text} {cursor start : ℕ} {b : Option Char} (hle : start ≤ t.length)
    (h : cursor = 0 ∧ b = none ∨ cursor < start) :
    behind b (t.extract cursor start) = (t.take start).getLast? := by
  rcases h with ⟨rfl, rfl⟩ | hlt
  · rw [List.extract_eq_take_drop, List.drop_zero, Nat.sub_zero, behind, Option.or_none]
  · have hne : t.extract cursor start ≠ [] := by
      simp only [List.extract_eq_take_drop, ne_eq, List.take_eq_nil_iff, List.drop_eq_nil_iff]
      omega
    rw [behind_eq hne, ← drop_take_eq_extract, List.getLast?_drop, if_neg]
    rw [List.length_take]
    omega

/-- **The scan finds the markers that nothing glues, and nothing else.** -/
theorem substitute_markers {t : Text} (hclean : ¬ speecherBinding <:+: t)
    (f : List Char → Option (List Char)) :
    ∀ (l : Numbered) (cursor : ℕ) (b : Option Char), Stands u t l →
      (cursor = 0 ∧ b = none ∨ ∀ p ∈ l.head?, cursor < p.1.start) →
      substitute f (exactPlaceholderRegex.pieces b (rewrite t cursor (placeholder ·.2) l)) =
        rewrite t cursor
          (fun p => if TouchesUnderscore t p.1 then placeholder p.2
            else (f (placeholder p.2)).getD (placeholder p.2)) l := by
  intro l
  induction l with
  | nil =>
    intro cursor b _ _
    have hgap := run_in_gap (g := t.drop cursor) (b := b) hclean (List.drop_suffix _ _).isInfix (.inl rfl)
    have := pieces_append (t := []) hgap
    rw [List.append_nil, pieces_nil] at this
    simp only [rewrite, List.map_nil, splice, id_eq]
    rw [this, substitute_kept]
    exact List.append_nil _
  | cons p l ih =>
    intro cursor b hstands hcursor
    obtain ⟨hiso, hisol⟩ := List.forall_mem_cons.mp hstands.isolated
    obtain ⟨hap, hapl⟩ := List.pairwise_cons.mp hstands.apart
    have hrest := ih p.1.stop (placeholder p.2).getLast? ⟨hisol, hapl⟩
      (.inr fun p' hp' => hap p' (List.mem_of_mem_head? hp'))
    have hhead : (rewrite t p.1.stop (placeholder ·.2) l).head? = (t.drop p.1.stop).head? :=
      head?_rewrite fun p' hp' => ⟨hap p' (List.mem_of_mem_head? hp'),
        (hisol p' (List.mem_of_mem_head? hp')).start_lt.le.trans (hisol p' (List.mem_of_mem_head? hp')).stop_le⟩
    have hbehind : behind b (t.extract cursor p.1.start) = (t.take p.1.start).getLast? :=
      behind_gap (hiso.start_lt.le.trans hiso.stop_le)
        (hcursor.imp_right fun h => h p rfl)
    have hwithin : t.extract cursor p.1.start <:+: t := by
      rw [List.extract_eq_take_drop]
      exact (List.take_prefix _ _).isInfix.trans (List.drop_suffix _ _).isInfix
    have hmarker : placeholder p.2 ++ rewrite t p.1.stop (placeholder ·.2) l = [] ∨
        ∃ y, placeholder p.2 ++ rewrite t p.1.stop (placeholder ·.2) l = placeholderStem ++ y :=
      .inr ⟨_, List.append_assoc ..⟩
    rw [rewrite_cons, rewrite_cons, pieces_append (run_in_gap hclean hwithin hmarker), substitute_kept,
      hbehind]
    refine congrArg (t.extract cursor p.1.start ++ ·) ?_
    have hbefore := any_wordChar u hiso.before
    have hafter := any_wordChar u hiso.after
    simp only [BindingMatch.span] at hbefore hafter
    by_cases htouch : TouchesUnderscore t p.1
    · rw [if_pos htouch, pieces_append (run_in_placeholder ?_), substitute_kept,
        behind_eq (placeholder_ne_nil _), hrest]
      rcases htouch with h | h
      · exact .inl (hbefore.trans (decide_eq_true h))
      · refine .inr ⟨?_, ?_⟩ <;> rw [hhead, h] <;> rfl
    · obtain ⟨hb, ha⟩ := not_or.mp htouch
      have hrun := run_exactPlaceholder (Nat.toDigits 10 p.2) (hbefore.trans (decide_eq_false hb))
        Nat.toDigits_ne_nil (fun c => digit_of_mem_toDigits)
        (hhead ▸ hafter.trans (decide_eq_false ha))
      rw [if_neg htouch, pieces_hit_append (placeholder_ne_nil _) hrun, substitute, hrest]

/-! ## The round trip -/

theorem rewrite_congr {t : Text} {new new' : BindingMatch × ℕ → Text} {l : Numbered}
    (h : ∀ p ∈ l, new p = new' p) (cursor : ℕ) : rewrite t cursor new l = rewrite t cursor new' l := by
  rw [rewrite, rewrite, List.map_congr_left fun p hp => by rw [h p hp]]

theorem replaceMatches_eq (t : Text) (found : List BindingMatch) (replacement : ℕ → BindingMatch → Text) :
    replaceMatches t found replacement = rewrite t 0 (fun p => replacement p.2 p.1) found.zipIdx := by
  rw [replaceMatches, List.mapIdx_eq_zipIdx_map]
  rfl

theorem infix_rewrite {t : Text} {new : BindingMatch × ℕ → Text} {p : BindingMatch × ℕ} {l : Numbered} :
    ∀ cursor : ℕ, p ∈ l → new p <:+: rewrite t cursor new l := by
  induction l with
  | nil => exact fun _ h => absurd h List.not_mem_nil
  | cons q l ih =>
    intro cursor hp
    rw [rewrite_cons]
    rcases List.mem_cons.mp hp with rfl | hp
    · exact ⟨_, _, List.append_assoc ..⟩
    · obtain ⟨v, v', hv⟩ := ih q.1.stop hp
      exact ⟨t.extract cursor q.1.start ++ new q ++ v, v', by simp only [List.append_assoc, ← hv]⟩

theorem stands_zipIdx (t : Text) (rules : List BindingRule) :
    Stands u t (findMatches u t rules).zipIdx := by
  refine ⟨fun p hp => isolated_of_mem u (List.fst_mem_of_mem_zipIdx hp), ?_⟩
  have hordered := matches_ordered u t rules
  rw [← List.zipIdx_map_fst 0 (findMatches u t rules)] at hordered
  exact List.pairwise_map.mp hordered

/-- The placeholder text scanned with a rewriting of the placeholders. -/
theorem substitute_placeholderText {t : Text} (rules : List BindingRule)
    (hclean : ¬ speecherBinding <:+: t) (f : List Char → Option (List Char)) :
    substitute f (exactPlaceholderRegex.pieces none (process u t rules).placeholderText) =
      rewrite t 0 (fun p => if TouchesUnderscore t p.1 then placeholder p.2
        else (f (placeholder p.2)).getD (placeholder p.2)) (findMatches u t rules).zipIdx := by
  rw [process_placeholderText, replaceMatches_eq]
  exact substitute_markers u hclean f _ 0 none (stands_zipIdx u t rules) (.inl ⟨rfl, rfl⟩)

/-- **An unchanged refinement is restored exactly when no underscore touches a match and the text
around the matches, joined, reads as no placeholder.** -/
theorem restore_process_iff (t : Text) (rules : List BindingRule) (hclean : placeholderLikeRuns t = []) :
    let p := process u t rules
    let restored := restorePlaceholders u p.placeholderText p.placeholders t
    let cut := cutMatches t (findMatches u t rules)
    (restored.ok = true ∧ restored.text = p.boundText) ↔
      (∀ m ∈ findMatches u t rules, ¬ TouchesUnderscore t m) ∧ placeholderLikeRuns cut = [] ∧
        ∀ i ∈ spokenPlaceholderIndexes u cut, i ∈ spokenPlaceholderIndexes u t := by
  intro p restored cut
  have hlit : ¬ speecherBinding <:+: t := fun h => placeholderLikeRuns_ne_nil h hclean
  have hknown : ∀ q ∈ (findMatches u t rules).zipIdx,
      replacementsByPlaceholder p.placeholders (placeholder q.2) = some q.1.rule.replacement := fun q hq => by
    rw [show p.placeholders = _ from process_placeholders u t rules]
    exact replacementsByPlaceholder_mapIdx (List.mem_zipIdx_iff_getElem?.mp hq)
  have hresidue : residueText p.placeholderText p.placeholders =
      rewrite t 0 (fun q => if TouchesUnderscore t q.1 then placeholder q.2 else [])
        (findMatches u t rules).zipIdx := by
    rw [residueText_eq, substitute_placeholderText u rules hlit]
    refine rewrite_congr (fun q hq => ?_) 0
    rw [hknown q hq]
    rfl
  have hrestored : restoredText p.placeholderText p.placeholders =
      rewrite t 0 (fun q => if TouchesUnderscore t q.1 then placeholder q.2 else q.1.rule.replacement)
        (findMatches u t rules).zipIdx := by
    rw [restoredText_eq, substitute_placeholderText u rules hlit]
    refine rewrite_congr (fun q hq => ?_) 0
    rw [hknown q hq]
    rfl
  have hcut : (∀ m ∈ findMatches u t rules, ¬ TouchesUnderscore t m) →
      residueText p.placeholderText p.placeholders = cut := fun h => by
    rw [hresidue, show cut = _ from replaceMatches_eq t _ _]
    exact rewrite_congr (fun q hq => if_neg (h q.1 (List.fst_mem_of_mem_zipIdx hq))) 0
  rw [restore_ok_iff, hclean]
  constructor
  · rintro ⟨⟨-, hruns, hindexes⟩, -⟩
    have hfree : ∀ m ∈ findMatches u t rules, ¬ TouchesUnderscore t m := by
      intro m hm htouch
      -- A marker that something glues is left, and it is placeholder-like.
      obtain ⟨i, hi, rfl⟩ := List.mem_iff_getElem.mp hm
      have hq : ((findMatches u t rules)[i], i) ∈ (findMatches u t rules).zipIdx :=
        List.mem_zipIdx_iff_getElem?.mpr (List.getElem?_eq_getElem hi)
      have hin : placeholder i <:+: residueText p.placeholderText p.placeholders := by
        rw [hresidue]
        have hin := @infix_rewrite t (fun q => if TouchesUnderscore t q.1 then placeholder q.2 else []) _ _ 0 hq
        rwa [if_pos htouch] at hin
      have hlike : speecherBinding <:+: placeholder i := ⟨[], '_' :: Nat.toDigits 10 i, rfl⟩
      obtain ⟨w, hw⟩ := List.exists_mem_of_ne_nil _ (placeholderLikeRuns_ne_nil (hlike.trans hin))
      exact List.not_mem_nil (hruns w hw)
    rw [hcut hfree] at hruns hindexes
    exact ⟨hfree, List.eq_nil_iff_forall_not_mem.mpr fun w hw => List.not_mem_nil (hruns w hw), hindexes⟩
  · rintro ⟨hfree, hruns, hindexes⟩
    have hok : restored.ok = true := by
      refine (restore_ok_iff u).mpr ?_
      rw [hcut hfree, hclean, hruns]
      exact ⟨fun _ _ => List.not_mem_nil, fun _ h => h, hindexes⟩
    refine ⟨⟨fun _ _ => List.not_mem_nil, ?_, ?_⟩, ?_⟩
    · rw [hcut hfree, hruns]
      exact fun _ h => h
    · rw [hcut hfree]
      exact hindexes
    · rw [show restored.text = _ from restore_text u hok, hrestored,
        show p.boundText = _ from process_boundText u t rules, replaceMatches_eq]
      exact rewrite_congr (fun q hq => if_neg (hfree q.1 (List.fst_mem_of_mem_zipIdx hq))) 0

/-- The snippet of "my email" comes back to "send my email, please". -/
theorem restore_process_email :
    let p := process .basic "send my email, please".toList [⟨"my email".toList, "a@b.c".toList⟩]
    let restored := restorePlaceholders .basic p.placeholderText p.placeholders "send my email, please".toList
    restored.ok = true ∧ restored.text = p.boundText :=
  (restore_process_iff .basic "send my email, please".toList [⟨"my email".toList, "a@b.c".toList⟩]
    (by decide)).mpr (by decide)

/-- An underscore after the match makes the placeholder part of a longer identifier, and words on
both sides of a match read as a placeholder once it is cut out: both are refused. -/
theorem restore_process_refused :
    (placeholderLikeRuns "foo_".toList = [] ∧
      let p := process .basic "foo_".toList [⟨"foo".toList, "bar".toList⟩]
      (restorePlaceholders .basic p.placeholderText p.placeholders "foo_".toList).ok = false) ∧
    (placeholderLikeRuns "speecher foo binding 0".toList = [] ∧
      let p := process .basic "speecher foo binding 0".toList [⟨"foo".toList, "bar".toList⟩]
      (restorePlaceholders .basic p.placeholderText p.placeholders "speecher foo binding 0".toList).ok = false) := by
  decide

end Speecher
