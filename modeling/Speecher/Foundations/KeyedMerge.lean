import Mathlib.Data.List.Nodup
import Mathlib.Data.List.Perm.Basic
import Mathlib.Data.List.Sort
import Speecher.Foundations.Keyed

/-!
# Merging lists by a key

Items of one key are versions of one thing. `gatherInto` puts an item into a list, into the version kept of it where
there is one, so that a list gathered so has one item a thing (`gather_apart`), and one that has is as it was
(`foldl_gatherInto`). `mergedBy` takes a second list's version of every item both lists have, and the second list's other
items after; `changes` says what is new in the merged list and what is another version.

* `find?_gathered`: what is gathered under a key is the items of that key, merged in order, so that gathering again what
  was gathered, in any order, and more is gathering all of it (`gather_regathered`).
* `mergeOf_mergedBy`: what is in the merged list.
* `map_mergedBy_again`: merging a list in twice is merging it in once, whatever is done to each item in between, as long
  as that keeps what it did.
* `changes_isEmpty_iff`: nothing is new or changed when the items are the same, in any order.
-/

namespace Speecher

/-! ## Gathering -/

section Gathering

variable {α : Type*} (same : α → α → Bool) (merged : α → α → α)

/-- A list with one item more, merged into the first that passes for it. -/
def gatherInto (kept : List α) (a : α) : List α :=
  match kept.findIdx? fun b => same b a with
  | some i => kept.modify i (merged · a)
  | none => kept ++ [a]

/-- The items of a gathered list are apart, and keep what merging keeps. -/
theorem gather_apart {P : α → Prop} (hmerged : ∀ a b, P a → P b → P (merged a b))
    (hsame : ∀ a b c, same (merged a b) c = same a c ∧ same c (merged a b) = same c a) {l : List α} (hl : ∀ a ∈ l, P a)
    (kept : List α) (hkept : ∀ a ∈ kept, P a) (hunique : Unique same kept) :
    (∀ a ∈ l.foldl (gatherInto same merged) kept, P a) ∧ Unique same (l.foldl (gatherInto same merged) kept) := by
  induction l generalizing kept with
  | nil => exact ⟨hkept, hunique⟩
  | cons a l ih =>
    have ha := hl a List.mem_cons_self
    refine ih (fun b hb => hl b (List.mem_cons_of_mem _ hb)) _ ?_ ?_
    · intro b hb
      rw [gatherInto] at hb
      split at hb
      · obtain ⟨i, hi, rfl⟩ := List.getElem_of_mem hb
        rw [List.length_modify] at hi
        rw [List.getElem_modify]
        split
        · exact hmerged _ _ (hkept _ (List.getElem_mem hi)) ha
        · exact hkept _ (List.getElem_mem hi)
      · rcases List.mem_append.mp hb with hb | hb
        · exact hkept b hb
        · exact List.mem_singleton.mp hb ▸ ha
    · rw [gatherInto]
      split
      · rename_i i _
        refine List.pairwise_iff_getElem.mpr fun j k hj hk hjk => ?_
        rw [List.length_modify] at hj hk
        have happly : ∀ b c, same (if i = j then merged b a else b) (if i = k then merged c a else c) = same b c := by
          intro b c
          split_ifs <;> simp only [hsame]
        rw [List.getElem_modify, List.getElem_modify, happly]
        exact List.pairwise_iff_getElem.mp hunique j k hj hk hjk
      · rename_i hfind
        exact hunique.append fun b hb => List.findIdx?_eq_none_iff.mp hfind b hb

/-- Items that are apart are gathered one after the other. -/
theorem foldl_gatherInto {l : List α} (kept : List α) (h : Unique same (kept ++ l)) :
    l.foldl (gatherInto same merged) kept = kept ++ l := by
  induction l generalizing kept with
  | nil => rw [List.foldl_nil, List.append_nil]
  | cons a l ih =>
    have hnone : kept.findIdx? (fun b => same b a) = none :=
      List.findIdx?_eq_none_iff.mpr fun b hb => (List.pairwise_append.mp h).2.2 b hb a List.mem_cons_self
    rw [List.foldl_cons, gatherInto, hnone, ih _ (by rwa [List.append_assoc]), List.append_assoc]
    rfl

/-- **A gathered list has the keys of what was gathered.** -/
theorem mem_keys_gathered {κ : Type*} (key : α → κ) (hkey : ∀ a b, key (merged a b) = key a)
    (hsame : ∀ a b, same a b = true ↔ key a = key b) (l kept : List α) {k : κ} :
    k ∈ (l.foldl (gatherInto same merged) kept).map key ↔ k ∈ kept.map key ∨ k ∈ l.map key := by
  induction l generalizing kept with
  | nil => simp
  | cons a l ih =>
    have hstep : (gatherInto same merged kept a).map key = kept.map key ∧ key a ∈ kept.map key ∨
        (gatherInto same merged kept a).map key = kept.map key ++ [key a] := by
      rw [gatherInto]
      split
      · rename_i i hfind
        obtain ⟨hi, hfound, -⟩ := List.findIdx?_eq_some_iff_getElem.mp hfind
        refine .inl ⟨List.ext_getElem (by simp) fun j hj _ => ?_, ?_⟩
        · rw [List.getElem_map, List.getElem_map, List.getElem_modify]
          split
          · exact hkey _ _
          · rfl
        · exact (hsame _ _).mp hfound ▸ List.mem_map_of_mem (List.getElem_mem hi)
      · exact .inr (by rw [List.map_append, List.map_singleton])
    rw [List.foldl_cons, ih, List.map_cons, List.mem_cons]
    rcases hstep with ⟨hkeys, hmem⟩ | hkeys
    · rw [hkeys]
      constructor
      · exact Or.imp_right .inr
      · rintro (h | rfl | h)
        exacts [.inl h, .inl hmem, .inr h]
    · rw [hkeys, List.mem_append, List.mem_singleton, or_assoc]

/-! A gathered list is determined by what it holds under each key. -/

/-- An item put to what is there already. -/
def mergeTo (there : Option α) (a : α) : Option α := some (there.elim a (merged · a))

theorem foldl_mergeTo_some (a : α) (l : List α) : l.foldl (mergeTo merged) (some a) = some (l.foldl merged a) := by
  induction l generalizing a with
  | nil => rfl
  | cons b l ih => exact ih (merged a b)

variable {κ : Type*} [DecidableEq κ] (key : α → κ) {same merged} {l l' : List α}

/-- Items pass for each other by their key, which merging keeps. -/
structure ByKey (same : α → α → Bool) (merged : α → α → α) (key : α → κ) : Prop where
  same : ∀ a b, same a b = true ↔ key a = key b
  merged : ∀ a b, key (merged a b) = key a

theorem gatherInto_cons (b : α) (kept : List α) (a : α) : gatherInto same merged (b :: kept) a =
    if same b a then merged b a :: kept else b :: gatherInto same merged kept a := by
  rw [gatherInto, List.findIdx?_cons]
  by_cases hsame : same b a = true
  · rw [if_pos hsame, if_pos hsame]
    rfl
  · rw [if_neg hsame, if_neg hsame, gatherInto]
    cases kept.findIdx? fun b => same b a with
    | none => rfl
    | some i => rfl

variable {key}

theorem find?_gatherInto (h : ByKey same merged key) (kept : List α) (a : α) (k : κ) :
    (gatherInto same merged kept a).find? (key · = k) =
      if key a = k then mergeTo merged (kept.find? (key · = k)) a else kept.find? (key · = k) := by
  induction kept with
  | nil =>
    show [a].find? (key · = k) = _
    by_cases hk : key a = k <;> simp [hk, mergeTo]
  | cons b kept ih =>
    rw [gatherInto_cons]
    by_cases hsame : same b a = true
    · have hab : key b = key a := (h.same b a).mp hsame
      rw [if_pos hsame]
      by_cases hk : key a = k
      · have hb : key b = k := hab.trans hk
        simp [hk, hb, h.merged, mergeTo]
      · have hb : ¬ key b = k := fun hb => hk (hab ▸ hb)
        simp [hk, hb, h.merged]
    · rw [if_neg hsame]
      by_cases hb : key b = k
      · have hk : ¬ key a = k := fun hk => hsame ((h.same b a).mpr (hb.trans hk.symm))
        simp [hb, hk]
      · rw [List.find?_cons_of_neg (by simpa using hb), ih, List.find?_cons_of_neg (by simpa using hb)]

/-- **What is gathered under a key** is the items of that key, merged in order. -/
theorem find?_gathered (h : ByKey same merged key) (l kept : List α) (k : κ) :
    (l.foldl (gatherInto same merged) kept).find? (key · = k) =
      (l.filter (key · = k)).foldl (mergeTo merged) (kept.find? (key · = k)) := by
  induction l generalizing kept with
  | nil => rfl
  | cons a l ih =>
    rw [List.foldl_cons, ih, find?_gatherInto h]
    by_cases hk : key a = k
    · rw [if_pos hk, List.filter_cons_of_pos (by simpa using hk), List.foldl_cons]
    · rw [if_neg hk, List.filter_cons_of_neg (by simpa using hk)]

omit [DecidableEq κ] in
theorem ByKey.unique_iff (h : ByKey same merged key) : Unique same l ↔ (l.map key).Nodup := by
  rw [Unique, List.Nodup, List.pairwise_map]
  exact List.Pairwise.iff fun a b => by rw [Bool.eq_false_iff, ne_eq, h.same]

omit [DecidableEq κ] in
theorem ByKey.nodup_gathered (h : ByKey same merged key) (l : List α) :
    ((l.foldl (gatherInto same merged) []).map key).Nodup := by
  refine h.unique_iff.mp (gather_apart same merged (P := fun _ => True) (fun _ _ _ _ => trivial) (fun a b c => ?_)
    (fun _ _ => trivial) [] (fun _ hb => nomatch hb) .nil).2
  have hleft : same (merged a b) c = true ↔ same a c = true := by rw [h.same, h.same, h.merged]
  have hright : same c (merged a b) = true ↔ same c a = true := by rw [h.same, h.same, h.merged]
  exact ⟨Bool.eq_iff_iff.mpr hleft, Bool.eq_iff_iff.mpr hright⟩

theorem find?_eq_some_iff_mem (hl : (l.map key).Nodup) {a : α} : l.find? (key · = key a) = some a ↔ a ∈ l := by
  refine ⟨List.mem_of_find?_eq_some, fun ha => ?_⟩
  cases hfind : l.find? (key · = key a) with
  | none => exact absurd (List.find?_eq_none.mp hfind a ha) (by simp)
  | some b =>
    have hb : key b = key a := by simpa using List.find?_some hfind
    rw [List.inj_on_of_nodup_map hl (List.mem_of_find?_eq_some hfind) ha hb]

/-- Lists of items apart by key that hold the same under each key hold the same. -/
theorem perm_of_find? (hl : (l.map key).Nodup) (hl' : (l'.map key).Nodup)
    (h : ∀ k, l.find? (key · = k) = l'.find? (key · = k)) : l.Perm l' := by
  refine (List.perm_ext_iff_of_nodup (.of_map key hl) (.of_map key hl')).mpr fun a => ?_
  rw [← find?_eq_some_iff_mem hl, ← find?_eq_some_iff_mem hl', h]

theorem find?_of_perm (hl : (l.map key).Nodup) (hperm : l'.Perm l) (k : κ) :
    l'.find? (key · = k) = l.find? (key · = k) := by
  have hl' : (l'.map key).Nodup := (hperm.map key).nodup_iff.mpr hl
  refine Option.ext fun a => ?_
  by_cases hk : key a = k
  · rw [← hk, find?_eq_some_iff_mem hl, find?_eq_some_iff_mem hl', hperm.mem_iff]
  · have hnone : ∀ m : List α, m.find? (key · = k) ≠ some a := fun m hm => hk (by simpa using List.find?_some hm)
    exact iff_of_false (hnone l') (hnone l)

theorem filter_of_nodup (hl : (l.map key).Nodup) (k : κ) :
    l.filter (key · = k) = (l.find? (key · = k)).toList := by
  induction l with
  | nil => rfl
  | cons a l ih =>
    obtain ⟨ha, hl⟩ := List.nodup_cons.mp hl
    by_cases hk : key a = k
    · have hnone : l.find? (key · = k) = none :=
        List.find?_eq_none.mpr fun b hb hb' => ha ((hk.trans (of_decide_eq_true hb').symm) ▸ List.mem_map_of_mem hb)
      rw [List.filter_cons_of_pos (by simpa using hk), ih hl, hnone, List.find?_cons_of_pos (by simpa using hk)]
      rfl
    · rw [List.filter_cons_of_neg (by simpa using hk), ih hl, List.find?_cons_of_neg (by simpa using hk)]

/-- **Gathering again what was gathered, in any order, and more is gathering all of it.** -/
theorem gather_regathered (h : ByKey same merged key) (hperm : l'.Perm (l.foldl (gatherInto same merged) []))
    (more : List α) : ((l' ++ more).foldl (gatherInto same merged) []).Perm
      ((l ++ more).foldl (gatherInto same merged) []) := by
  refine perm_of_find? (h.nodup_gathered _) (h.nodup_gathered _) fun k => ?_
  have hgathered := h.nodup_gathered l
  have hbefore : (l'.filter (key · = k)).foldl (mergeTo merged) none =
      (l.filter (key · = k)).foldl (mergeTo merged) none := by
    have hnodup : (l'.map key).Nodup := (hperm.map key).nodup_iff.mpr hgathered
    rw [filter_of_nodup hnodup, find?_of_perm hgathered hperm, find?_gathered h]
    show (Option.toList (List.foldl (mergeTo merged) none _)).foldl (mergeTo merged) none = _
    cases (l.filter (key · = k)).foldl (mergeTo merged) none with
    | none => rfl
    | some a => rfl
  rw [find?_gathered h, find?_gathered h, List.filter_append, List.filter_append, List.foldl_append, List.foldl_append]
  exact congrArg (List.foldl (mergeTo merged) · _) hbefore

/-- An item of a gathered list is the first of its key, with the others merged in. -/
theorem mem_gathered (h : ByKey same merged key) {a : α} : a ∈ l.foldl (gatherInto same merged) [] ↔
    ∃ first rest, l.filter (key · = key a) = first :: rest ∧ rest.foldl merged first = a := by
  rw [← find?_eq_some_iff_mem (h.nodup_gathered l), find?_gathered h, List.find?_nil]
  cases hl : l.filter (key · = key a) with
  | nil => exact iff_of_false (fun hnone => nomatch hnone) fun ⟨_, _, hcons, _⟩ => nomatch hcons
  | cons first rest =>
    have hfold : (first :: rest).foldl (mergeTo merged) none = some (rest.foldl merged first) :=
      foldl_mergeTo_some merged first rest
    rw [hfold, Option.some.injEq]
    refine ⟨fun ha => ⟨first, rest, rfl, ha⟩, fun ⟨first', rest', hcons, ha⟩ => ?_⟩
    obtain ⟨rfl, rfl⟩ := List.cons.inj hcons
    exact ha

/-- **A list may be gathered and sorted in parts**, where the order tells apart what is gathered. -/
theorem sorted_in_parts (h : ByKey same merged key) {sorted prepared : List α → List α} {before : α → α → Prop}
    (happend : ∀ l l', prepared (l ++ l') = prepared l ++ prepared l') (hself : ∀ l, prepared (sorted l) = sorted l)
    (hperm : ∀ l, (sorted l).Perm ((prepared l).foldl (gatherInto same merged) []))
    (hasymm : ∀ a b, before a b → ¬before b a) (hsorted : ∀ l, (sorted l).Pairwise before) (l more : List α) :
    sorted (sorted l ++ more) = sorted (l ++ more) := by
  have hgathered : (sorted (sorted l ++ more)).Perm (sorted (l ++ more)) := by
    refine (hperm _).trans (.trans ?_ (hperm _).symm)
    rw [happend, happend, hself]
    exact gather_regathered h (hperm l) (prepared more)
  exact hgathered.eq_of_pairwise (fun a b _ _ hab hba => absurd hba (hasymm a b hab)) (hsorted _) (hsorted _)

end Gathering

/-! ## Merging -/

section Merging

variable {α κ : Type*} [DecidableEq κ] (key : α → κ) (replaced : α → α → α)

/-- The last item of a key. -/
def lastOf (items : List α) (k : κ) : Option α := items.reverse.find? fun it => key it = k

/-- An item, in the other list's version where that has one. -/
def updated (others : List α) (item : α) : α := ((lastOf key others (key item)).map (replaced item)).getD item

/-- A list with each item another list also has replaced, then the other's other items. -/
def mergedBy (items others : List α) : List α :=
  items.map (updated key replaced others) ++ others.filter fun it => key it ∉ items.map key

variable {key replaced} {items others : List α} {item it : α} {k : κ}

theorem lastOf_some (h : lastOf key items k = some item) : item ∈ items ∧ key item = k := by
  refine ⟨List.mem_reverse.mp (List.mem_of_find?_eq_some h), ?_⟩
  simpa using List.find?_some h

theorem lastOf_none : lastOf key items k = none ↔ k ∉ items.map key := by
  simp [lastOf, List.find?_eq_none]

theorem lastOf_of_mem (hnodup : (items.map key).Nodup) (hitem : item ∈ items) : lastOf key items (key item) = some item := by
  cases h : lastOf key items (key item) with
  | none => exact absurd (List.mem_map_of_mem hitem) (lastOf_none.mp h)
  | some it =>
    obtain ⟨hit, hkey⟩ := lastOf_some h
    rw [List.inj_on_of_nodup_map hnodup hit hitem hkey]

theorem updated_of_some (h : lastOf key others (key item) = some it) : updated key replaced others item = replaced item it := by
  rw [updated, h]
  rfl

theorem updated_of_none (h : lastOf key others (key item) = none) : updated key replaced others item = item := by
  rw [updated, h]
  rfl

/-- A replaced item stays under its key. -/
def KeepsKey (key : α → κ) (replaced : α → α → α) : Prop := ∀ item it, key item = key it → key (replaced item it) = key item

variable (hkey : KeepsKey key replaced)

include hkey

theorem key_updated : key (updated key replaced others item) = key item := by
  cases h : lastOf key others (key item) with
  | none => rw [updated_of_none h]
  | some it => rw [updated_of_some h, hkey item it (lastOf_some h).2.symm]

theorem keys_mergedBy : (mergedBy key replaced items others).map key =
    items.map key ++ (others.map key).filter fun k => k ∉ items.map key := by
  rw [mergedBy, List.map_append, List.map_map, List.filter_map]
  refine congrArg₂ (· ++ ·) (List.map_congr_left fun item _ => key_updated hkey) rfl

theorem nodup_mergedBy (hitems : (items.map key).Nodup) (hothers : (others.map key).Nodup) :
    ((mergedBy key replaced items others).map key).Nodup := by
  rw [keys_mergedBy hkey]
  refine hitems.append (hothers.filter _) fun k hk hk' => ?_
  exact absurd hk (of_decide_eq_true (List.mem_filter.mp hk').2)

/-- The merged list has the keys of both. -/
theorem mem_keys_mergedBy : k ∈ (mergedBy key replaced items others).map key ↔ k ∈ items.map key ∨ k ∈ others.map key := by
  rw [keys_mergedBy hkey, List.mem_append, List.mem_filter]
  by_cases hk : k ∈ items.map key <;> simp [hk]

omit hkey in
/-- Where an item of the merged list comes from. -/
theorem mem_mergedBy : it ∈ mergedBy key replaced items others ↔
    (∃ item ∈ items, updated key replaced others item = it) ∨ it ∈ others ∧ key it ∉ items.map key := by
  rw [mergedBy, List.mem_append, List.mem_map, List.mem_filter, decide_eq_true_eq]

omit hkey in
theorem mergedBy_of_subset (h : ∀ it ∈ others, key it ∈ items.map key) :
    mergedBy key replaced items others = items.map (updated key replaced others) := by
  rw [mergedBy, List.filter_eq_nil_iff.mpr fun it hit => by simpa using h it hit, List.append_nil]

/-- What a merged list is to hold: every item it is merged of, one both lists have in a version made of both, and another
of the second list's as `alone` has it. -/
structure MergeOf (key : α → κ) (version : α → α → α) (alone : α → α) (items others merged : List α) : Prop where
  keeps : ∀ item ∈ items, key item ∈ merged.map key
  leaves : ∀ item ∈ items, key item ∉ others.map key → item ∈ merged
  takes : ∀ item ∈ items, ∀ it ∈ others, key item = key it → version item it ∈ merged
  adds : ∀ it ∈ others, key it ∉ items.map key → alone it ∈ merged

omit [DecidableEq κ] hkey in
theorem MergeOf.perm {version : α → α → α} {alone : α → α} {merged merged' : List α}
    (h : MergeOf key version alone items others merged) (hperm : merged.Perm merged') :
    MergeOf key version alone items others merged' where
  keeps item hitem := (hperm.map key).mem_iff.mp (h.keeps item hitem)
  leaves item hitem hnone := hperm.mem_iff.mp (h.leaves item hitem hnone)
  takes item hitem it hit hsame := hperm.mem_iff.mp (h.takes item hitem it hit hsame)
  adds it hit hnone := hperm.mem_iff.mp (h.adds it hit hnone)

/-- **A merged list is a merge.** What is done to its items after is done to the versions of the second list's. -/
theorem mergeOf_mergedBy (hothers : (others.map key).Nodup) (after : α → α) (hafter : ∀ item, key (after item) = key item)
    (hitems : ∀ item ∈ items, after item = item) :
    MergeOf key (fun item it => after (replaced item it)) after items others
      ((mergedBy key replaced items others).map after) where
  keeps item hitem := by
    rw [List.map_map, show key ∘ after = key from funext hafter, mem_keys_mergedBy hkey]
    exact .inl (List.mem_map_of_mem hitem)
  leaves item hitem hnone := by
    rw [← hitems item hitem]
    refine List.mem_map_of_mem (mem_mergedBy.mpr (.inl ⟨item, hitem, ?_⟩))
    rw [updated_of_none (lastOf_none.mpr hnone)]
  takes item hitem it hit hsame := by
    refine List.mem_map_of_mem (mem_mergedBy.mpr (.inl ⟨item, hitem, ?_⟩))
    rw [updated_of_some (hsame ▸ lastOf_of_mem hothers hit)]
  adds it hit hnone := List.mem_map_of_mem (mem_mergedBy.mpr (.inr ⟨hit, hnone⟩))

/-- An item of the merged list is in the second list's version already. -/
theorem after_updated_again (hothers : (others.map key).Nodup) (after : α → α) (hafter : ∀ item, key (after item) = key item)
    (htwice : ∀ item, after (after item) = after item)
    (hreplaced : ∀ item it, key item = key it → after (replaced (after (replaced item it)) it) = after (replaced item it))
    (hself : ∀ it, after (replaced (after it) it) = after it) (hit : it ∈ mergedBy key replaced items others) :
    after (updated key replaced others (after it)) = after it := by
  rcases mem_mergedBy.mp hit with ⟨item, -, rfl⟩ | ⟨hmem, -⟩
  · cases h : lastOf key others (key item) with
    | none =>
      rw [updated_of_none h, updated_of_none (by rw [hafter, h]), htwice]
    | some other =>
      have hother := (lastOf_some h).2.symm
      have hagain : lastOf key others (key (after (replaced item other))) = some other := by
        rw [hafter, hkey item other hother, h]
      rw [updated_of_some h, updated_of_some hagain, hreplaced item other hother]
  · have hitself : lastOf key others (key (after it)) = some it := by rw [hafter, lastOf_of_mem hothers hmem]
    rw [updated_of_some hitself, hself]

/-- **Merging in twice is merging in once**, also where the merged items are put in another order. -/
theorem map_mergedBy_again (hothers : (others.map key).Nodup) (after : α → α) (hafter : ∀ item, key (after item) = key item)
    (htwice : ∀ item, after (after item) = after item)
    (hreplaced : ∀ item it, key item = key it → after (replaced (after (replaced item it)) it) = after (replaced item it))
    (hself : ∀ it, after (replaced (after it) it) = after it) {merged : List α}
    (hmerged : merged.Perm (mergedBy key replaced items others)) :
    (mergedBy key replaced (merged.map after) others).map after = merged.map after := by
  have hkeys : (merged.map after).map key = merged.map key := by
    rw [List.map_map, show key ∘ after = key from funext hafter]
  have hsubset : ∀ it ∈ others, key it ∈ (merged.map after).map key := fun it hit => by
    rw [hkeys, (hmerged.map key).mem_iff, mem_keys_mergedBy hkey]
    exact .inr (List.mem_map_of_mem hit)
  rw [mergedBy_of_subset hsubset, List.map_map, List.map_map]
  exact List.map_congr_left fun it hit =>
    after_updated_again hkey hothers after hafter htwice hreplaced hself (hmerged.mem_iff.mp hit)

end Merging

/-! ## What changes -/

section Changing

variable {α κ ν β : Type*} [DecidableEq κ] [DecidableEq β] (key : α → κ) (name : α → ν) (setting : α → β)

/-- The items that are added and those that are updated, by name. -/
structure Changes (ν : Type*) where
  added : List ν
  updated : List ν
  deriving DecidableEq

def Changes.isEmpty (changes : Changes ν) : Bool := changes.added.isEmpty && changes.updated.isEmpty

omit [DecidableEq κ] [DecidableEq β] in
theorem Changes.isEmpty_append (left right : Changes ν) :
    (Changes.mk (left.added ++ right.added) (left.updated ++ right.updated)).isEmpty = true ↔
      left.isEmpty = true ∧ right.isEmpty = true := by
  simp only [Changes.isEmpty, Bool.and_eq_true, List.isEmpty_iff, List.append_eq_nil_iff]
  exact and_and_and_comm

/-- The merged items not there by key, and those whose setting differs, by name. -/
def changes (items merged : List α) : Changes ν :=
  ⟨(merged.filter fun it => (lastOf key items (key it)).isNone).map name,
    (merged.filter fun it => (lastOf key items (key it)).any fun before => setting before ≠ setting it).map name⟩

variable {key name setting} {items merged : List α}

theorem changes_isEmpty : (changes key name setting items merged).isEmpty = true ↔
    ∀ it ∈ merged, ∃ before, lastOf key items (key it) = some before ∧ setting before = setting it := by
  rw [Changes.isEmpty, changes, Bool.and_eq_true, List.isEmpty_iff, List.isEmpty_iff, List.map_eq_nil_iff,
    List.map_eq_nil_iff, List.filter_eq_nil_iff, List.filter_eq_nil_iff, ← forall₂_and]
  refine forall₂_congr fun it _ => ?_
  cases lastOf key items (key it) with
  | none => simp
  | some before => simp

variable (name setting) in
/-- **Nothing changes when the settings are the same**, in any order. -/
theorem changes_isEmpty_iff (hsetting : ∀ a b, setting a = setting b → key a = key b) (hitems : (items.map key).Nodup)
    (hmerged : (merged.map key).Nodup) (hsubset : ∀ item ∈ items, key item ∈ merged.map key) :
    (changes key name setting items merged).isEmpty = true ↔ (merged.map setting).Perm (items.map setting) := by
  have hnodup : ∀ {l : List α}, (l.map key).Nodup → (l.map setting).Nodup := fun h =>
    List.pairwise_map.mpr ((List.pairwise_map.mp h).imp fun hne heq => hne (hsetting _ _ heq))
  rw [changes_isEmpty]
  constructor
  · intro h
    refine (List.perm_ext_iff_of_nodup (hnodup hmerged) (hnodup hitems)).mpr fun value => ?_
    simp only [List.mem_map]
    constructor
    · rintro ⟨it, hit, rfl⟩
      obtain ⟨before, hbefore, heq⟩ := h it hit
      exact ⟨before, (lastOf_some hbefore).1, heq⟩
    · rintro ⟨item, hitem, rfl⟩
      obtain ⟨it, hit, hkey⟩ := List.mem_map.mp (hsubset item hitem)
      obtain ⟨before, hbefore, heq⟩ := h it hit
      obtain ⟨hmem, hsame⟩ := lastOf_some hbefore
      rw [← List.inj_on_of_nodup_map hitems hmem hitem (hsame.trans hkey), heq]
      exact ⟨it, hit, rfl⟩
  · intro h it hit
    obtain ⟨item, hitem, heq⟩ := List.mem_map.mp (h.mem_iff.mp (List.mem_map_of_mem hit))
    rw [← hsetting _ _ heq, lastOf_of_mem hitems hitem]
    exact ⟨item, rfl, heq⟩

end Changing

end Speecher
