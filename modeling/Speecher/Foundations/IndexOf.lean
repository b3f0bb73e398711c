import Mathlib.Data.List.Basic
import Mathlib.Tactic.Common

/-!
# Where a list holds another

`indexOf` is the first place where a list holds another, `indexFrom` the first from a place on and `lastIndexOf` the last. A list that holds
another somewhere holds it first no later (`exists_indexOf`), more behind it changes nothing of that (`indexOf_append`),
and where it holds it once from a place on, it holds it where it is known to (`eq_of_indexFrom_last`).
-/

namespace Speecher

/-- Where a list first holds another. -/
def indexOf {α : Type*} [DecidableEq α] (part : List α) : List α → Option ℕ
  | [] => if part = [] then some 0 else none
  | a :: rest => if part <+: a :: rest then some 0 else (indexOf part rest).map (· + 1)

theorem indexOf_add_length_le {α : Type*} [DecidableEq α] {part l : List α} {n : ℕ} (h : indexOf part l = some n) :
    n + part.length ≤ l.length := by
  induction l generalizing n with
  | nil =>
    rw [indexOf] at h
    split_ifs at h with hpart
    cases h
    simp [hpart]
  | cons a rest ih =>
    rw [indexOf] at h
    split_ifs at h with hpart
    · cases h
      simpa using hpart.length_le
    · obtain ⟨m, hm, rfl⟩ := Option.map_eq_some_iff.mp h
      have := ih hm
      simp only [List.length_cons]
      omega

section IndexOf

variable {α : Type*} [DecidableEq α] {part l : List α} {n : ℕ}

/-- Where a list first holds another, it holds it there and nowhere before. -/
theorem indexOf_spec (h : indexOf part l = some n) : part <+: l.drop n ∧ ∀ m < n, ¬ part <+: l.drop m := by
  induction l generalizing n with
  | nil =>
    rw [indexOf] at h
    split_ifs at h with hpart
    cases h
    exact ⟨hpart ▸ List.nil_prefix, nofun⟩
  | cons a rest ih =>
    rw [indexOf] at h
    split_ifs at h with hpart
    · cases h
      exact ⟨hpart, nofun⟩
    · obtain ⟨m, hm, rfl⟩ := Option.map_eq_some_iff.mp h
      obtain ⟨hat, hbefore⟩ := ih hm
      refine ⟨hat, fun k hk => ?_⟩
      cases k with
      | zero => exact hpart
      | succ k => exact hbefore k (Nat.lt_of_succ_lt_succ hk)

theorem not_prefix_of_indexOf_eq_none (h : indexOf part l = none) (n : ℕ) : ¬ part <+: l.drop n := by
  induction l generalizing n with
  | nil =>
    rw [indexOf] at h
    split_ifs at h with hpart
    rw [List.drop_nil, List.prefix_nil]
    exact hpart
  | cons a rest ih =>
    rw [indexOf] at h
    split_ifs at h with hpart
    cases n with
    | zero => exact hpart
    | succ n => exact ih (Option.map_eq_none_iff.mp h) n

/-- A list that holds another somewhere holds it first no later. -/
theorem exists_indexOf (h : part <+: l.drop n) : ∃ m ≤ n, indexOf part l = some m := by
  cases hfirst : indexOf part l with
  | none => exact absurd h (not_prefix_of_indexOf_eq_none hfirst n)
  | some m => exact ⟨m, Nat.le_of_not_lt fun hlt => (indexOf_spec hfirst).2 n hlt h, rfl⟩

omit [DecidableEq α] in
/-- What lies within a list is not changed by what follows it. -/
theorem prefix_drop_append_iff {rest : List α} (h : n + part.length ≤ l.length) :
    part <+: (l ++ rest).drop n ↔ part <+: l.drop n := by
  rw [List.prefix_iff_eq_take, List.prefix_iff_eq_take, List.drop_append_of_le_length (by omega),
    List.take_append_of_le_length (by rw [List.length_drop]; omega)]

theorem indexOf_append (h : indexOf part l = some n) (rest : List α) : indexOf part (l ++ rest) = some n := by
  have hle := indexOf_add_length_le h
  obtain ⟨hat, hbefore⟩ := indexOf_spec h
  obtain ⟨m, hm, hfirst⟩ := exists_indexOf ((prefix_drop_append_iff hle).mpr hat)
  rw [hfirst, Option.some.injEq]
  refine Nat.le_antisymm hm (Nat.le_of_not_lt fun hlt => hbefore m hlt ?_)
  exact (prefix_drop_append_iff (by omega)).mp (indexOf_spec hfirst).1

/-- What a list does not hold it holds, with more behind it, only across its end. -/
theorem length_lt_of_indexOf_append {rest : List α} (h : indexOf part l = none)
    (h' : indexOf part (l ++ rest) = some n) : l.length < n + part.length := by
  by_contra hle
  exact not_prefix_of_indexOf_eq_none h n ((prefix_drop_append_iff (Nat.le_of_not_lt hle)).mp (indexOf_spec h').1)

omit [DecidableEq α] in
theorem getElem?_of_prefix_drop (h : part <+: l.drop n) {k : ℕ} (hk : k < part.length) : l[n + k]? = part[k]? := by
  obtain ⟨rest, hrest⟩ := h
  rw [← List.getElem?_drop, ← hrest, List.getElem?_append_left hk]

/-- Where a list last holds another. -/
def lastIndexOf {α : Type*} [DecidableEq α] (part : List α) : List α → Option ℕ
  | [] => if part = [] then some 0 else none
  | a :: rest =>
    match lastIndexOf part rest with
    | some n => some (n + 1)
    | none => if part <+: a :: rest then some 0 else none

theorem not_prefix_of_lastIndexOf_eq_none (h : lastIndexOf part l = none) (n : ℕ) : ¬ part <+: l.drop n := by
  induction l generalizing n with
  | nil =>
    rw [lastIndexOf] at h
    split_ifs at h with hpart
    rw [List.drop_nil, List.prefix_nil]
    exact hpart
  | cons a rest ih =>
    rw [lastIndexOf] at h
    cases hrest : lastIndexOf part rest with
    | some m =>
      rw [hrest] at h
      cases h
    | none =>
      rw [hrest] at h
      cases n with
      | zero => exact fun hpart => by simp only [if_pos (show part <+: a :: rest from hpart), reduceCtorEq] at h
      | succ n => exact ih hrest n

/-- Where a list last holds another, it holds it there and nowhere after. -/
theorem lastIndexOf_spec (h : lastIndexOf part l = some n) :
    part <+: l.drop n ∧ n ≤ l.length ∧ ∀ m, n < m → m ≤ l.length → ¬ part <+: l.drop m := by
  induction l generalizing n with
  | nil =>
    rw [lastIndexOf] at h
    split_ifs at h with hpart
    cases h
    exact ⟨hpart ▸ List.nil_prefix, Nat.le_refl 0, fun m hm hle => absurd hle (Nat.not_le_of_lt hm)⟩
  | cons a rest ih =>
    rw [lastIndexOf] at h
    cases hrest : lastIndexOf part rest with
    | some k =>
      rw [hrest] at h
      cases h
      obtain ⟨hat, hle, hafter⟩ := ih hrest
      refine ⟨hat, Nat.succ_le_succ hle, fun m hm hm' => ?_⟩
      cases m with
      | zero => cases hm
      | succ m => exact hafter m (Nat.lt_of_succ_lt_succ hm) (Nat.le_of_succ_le_succ hm')
    | none =>
      rw [hrest] at h
      obtain ⟨hpart, rfl⟩ : part <+: a :: rest ∧ n = 0 := by
        simp only [Option.ite_none_right_eq_some, Option.some.injEq] at h
        exact ⟨h.1, h.2.symm⟩
      refine ⟨hpart, Nat.zero_le _, fun m hm _ => ?_⟩
      cases m with
      | zero => cases hm
      | succ m => exact not_prefix_of_lastIndexOf_eq_none hrest m

/-- Where a list holds another next, from a place on. -/
def indexFrom (part l : List α) (start : ℕ) : Option ℕ := (indexOf part (l.drop start)).map (start + ·)

/-- Where a list holds another next, it holds it there, and nowhere between. -/
theorem indexFrom_spec {start : ℕ} (h : indexFrom part l start = some n) :
    start ≤ n ∧ part <+: l.drop n ∧ ∀ m, start ≤ m → m < n → ¬ part <+: l.drop m := by
  obtain ⟨k, hk, rfl⟩ := Option.map_eq_some_iff.mp h
  obtain ⟨hat, hbefore⟩ := indexOf_spec hk
  refine ⟨Nat.le_add_right start k, by rwa [← List.drop_drop], fun m hm hlt hpart => ?_⟩
  obtain ⟨d, rfl⟩ := Nat.exists_eq_add_of_le hm
  rw [← List.drop_drop] at hpart
  exact hbefore d (by omega) hpart

theorem not_prefix_of_indexFrom_eq_none {start : ℕ} (h : indexFrom part l start = none) (hn : start ≤ n) :
    ¬ part <+: l.drop n := by
  obtain ⟨d, rfl⟩ := Nat.exists_eq_add_of_le hn
  rw [← List.drop_drop]
  exact not_prefix_of_indexOf_eq_none (Option.map_eq_none_iff.mp h) d

/-- Where a list holds another next and nowhere after is the only place from there on. -/
theorem eq_of_indexFrom_last {start m : ℕ} (h : indexFrom part l start = some n)
    (hlast : indexFrom part l (n + 1) = none) (hm : start ≤ m) (hat : part <+: l.drop m) : n = m := by
  obtain ⟨-, -, hbefore⟩ := indexFrom_spec h
  refine Nat.le_antisymm (Nat.le_of_not_lt fun hlt => hbefore m hm hlt hat) (Nat.le_of_not_lt fun hlt => ?_)
  exact not_prefix_of_indexFrom_eq_none hlast hlt hat

end IndexOf

end Speecher
