import Mathlib.Data.List.Basic
import Mathlib.Order.BoundedOrder.Lattice
import Mathlib.Order.Lattice
import Mathlib.Tactic.Common

/-!
# Peaks over stretches of a sequence

`stretched n values` holds the supremum of each stretch of `n` values, the last stretch as far as it goes. A value more
joins the stretch that is open (`stretched_concat_open`) or opens one (`stretched_concat_new`), and joining neighbours
gives the stretches of twice the length (`join_stretched`).
-/

namespace Speecher

/-! ## Stretches -/

variable {α : Type*}

/-- The values of a stretch. -/
def stretch (n : ℕ) (values : List α) (i : ℕ) : List α := (values.drop (i * n)).take n

/-- How many stretches a number of values makes. -/
def stretchCount (n count : ℕ) : ℕ := (count + (n - 1)) / n

section Count

variable {n : ℕ}

theorem lt_stretchCount (hn : 0 < n) {i count : ℕ} : i < stretchCount n count ↔ i * n < count := by
  rw [stretchCount, Nat.lt_iff_add_one_le, Nat.le_div_iff_mul_le hn, Nat.add_mul]
  omega

theorem stretchCount_mul (hn : 0 < n) (k : ℕ) : stretchCount n (k * n) = k :=
  eq_of_forall_lt_iff fun i => by rw [lt_stretchCount hn, Nat.mul_lt_mul_right hn]

theorem stretchCount_mul_succ (hn : 0 < n) (k : ℕ) : stretchCount n (k * n + 1) = k + 1 :=
  eq_of_forall_lt_iff fun i => by
    rw [lt_stretchCount hn, Nat.lt_succ_iff, Nat.lt_succ_iff, Nat.mul_le_mul_right_iff hn]

/-- A count that ends inside a stretch grows within it. -/
theorem stretchCount_succ {count : ℕ} (hn : 0 < n) (h : count % n ≠ 0) :
    stretchCount n (count + 1) = stretchCount n count := by
  refine eq_of_forall_lt_iff fun i => ?_
  have hne : i * n ≠ count := fun heq => h (heq ▸ Nat.mul_mod_left i n)
  rw [lt_stretchCount hn, lt_stretchCount hn]
  omega

end Count

variable {n : ℕ} {values : List α}

/-- A whole stretch takes no more. -/
theorem stretch_concat_of_le {i : ℕ} (h : (i + 1) * n ≤ values.length) (value : α) :
    stretch n (values ++ [value]) i = stretch n values i := by
  rw [Nat.add_mul, Nat.one_mul] at h
  rw [stretch, List.drop_append_of_le_length (by omega), List.take_append_of_le_length]
  · rfl
  · rw [List.length_drop]
    omega

/-- The stretch that the values end in, or before, takes the next one. -/
theorem stretch_concat {i : ℕ} (hle : i * n ≤ values.length) (hlt : values.length < (i + 1) * n) (value : α) :
    stretch n (values ++ [value]) i = stretch n values i ++ [value] := by
  rw [Nat.add_mul, Nat.one_mul] at hlt
  have hshort : (values.drop (i * n)).length < n := by rw [List.length_drop]; omega
  rw [stretch, stretch, List.drop_append_of_le_length hle, List.take_of_length_le (Nat.le_of_lt hshort)]
  exact List.take_of_length_le (by rw [List.length_append]; exact hshort)

/-- A stretch begins where it does, or it is none. -/
theorem stretch_eq_nil {i : ℕ} (h : values.length ≤ i * n) : stretch n values i = [] := by
  rw [stretch, List.drop_eq_nil_of_le h, List.take_nil]

/-! ## Their peaks -/

variable [SemilatticeSup α] [OrderBot α]

/-- The supremum of the values. -/
def peak (values : List α) : α := values.foldr (· ⊔ ·) ⊥

@[simp] theorem peak_nil : peak ([] : List α) = ⊥ := rfl

@[simp] theorem peak_cons (value : α) (values : List α) : peak (value :: values) = value ⊔ peak values := rfl

@[simp] theorem peak_append (first second : List α) : peak (first ++ second) = peak first ⊔ peak second := by
  induction first with
  | nil => simp
  | cons value first ih => rw [List.cons_append, peak_cons, ih, peak_cons, sup_assoc]

theorem le_peak {value : α} {values : List α} (h : value ∈ values) : value ≤ peak values := by
  induction values with
  | nil => cases h
  | cons first values ih =>
    rcases List.mem_cons.mp h with rfl | h
    · exact le_sup_left
    · exact (ih h).trans le_sup_right

theorem peak_mem {α : Type*} [LinearOrder α] [OrderBot α] {values : List α} (h : values ≠ []) :
    peak values ∈ values := by
  induction values with
  | nil => exact absurd rfl h
  | cons first values ih =>
    rw [peak_cons]
    by_cases hrest : values = []
    · simp [hrest]
    · rcases le_total (peak values) first with hle | hle
      · rw [sup_eq_left.mpr hle]
        exact List.mem_cons_self
      · rw [sup_eq_right.mpr hle]
        exact List.mem_cons_of_mem first (ih hrest)

/-- The peaks of the stretches. -/
def stretched (n : ℕ) (values : List α) : List α :=
  (List.range (stretchCount n values.length)).map fun i => peak (stretch n values i)

@[simp] theorem length_stretched (n : ℕ) (values : List α) :
    (stretched n values).length = stretchCount n values.length := by
  rw [stretched, List.length_map, List.length_range]

@[simp] theorem getElem_stretched {n : ℕ} {values : List α} {i : ℕ} (h : i < (stretched n values).length) :
    (stretched n values)[i] = peak (stretch n values i) := by
  simp [stretched]

/-- Every value is below the peak of its stretch. -/
theorem exists_le_stretched (hn : 0 < n) {value : α} (h : value ∈ values) : ∃ top ∈ stretched n values, value ≤ top := by
  obtain ⟨j, hj, rfl⟩ := List.mem_iff_getElem.mp h
  have hmod := Nat.mod_lt j hn
  have hdiv : j / n * n + j % n = j := Nat.div_add_mod' j n
  refine ⟨peak (stretch n values (j / n)), List.mem_map_of_mem (List.mem_range.mpr ?_), le_peak ?_⟩
  · exact (lt_stretchCount hn).mpr (Nat.lt_of_le_of_lt (Nat.div_mul_le_self j n) hj)
  · refine List.mem_iff_getElem.mpr ⟨j % n, ?_, ?_⟩
    · rw [stretch, List.length_take, List.length_drop]
      omega
    · simp only [stretch, List.getElem_take, List.getElem_drop, hdiv]

/-- A value after whole stretches opens one. -/
theorem stretched_concat_new (hn : 0 < n) (h : values.length % n = 0) (value : α) :
    stretched n (values ++ [value]) = stretched n values ++ [value] := by
  obtain ⟨k, hk⟩ := Nat.dvd_of_mod_eq_zero h
  rw [Nat.mul_comm] at hk
  have hcount : stretchCount n (values ++ [value]).length = k + 1 := by
    rw [List.length_append, hk]
    exact stretchCount_mul_succ hn k
  rw [stretched, stretched, hcount, hk, stretchCount_mul hn, List.range_succ, List.map_append, List.map_singleton]
  congr 1
  · refine List.map_congr_left fun i hi => ?_
    rw [stretch_concat_of_le (hk ▸ Nat.mul_le_mul_right n (List.mem_range.mp hi))]
  · rw [stretch_concat hk.ge (by rw [hk, Nat.mul_lt_mul_right hn]; omega), stretch_eq_nil hk.le]
    simp

/-- A value after a part of a stretch joins it. -/
theorem stretched_concat_open (hn : 0 < n) (h : values.length % n ≠ 0) (value : α) :
    stretched n (values ++ [value]) =
      (stretched n values).modify ((stretched n values).length - 1) (· ⊔ value) := by
  have hcount := stretchCount_succ hn h
  refine List.ext_getElem ?_ fun i hleft hright => ?_
  · rw [length_stretched, List.length_append, List.length_modify, length_stretched]
    exact hcount
  rw [getElem_stretched, List.getElem_modify, getElem_stretched, length_stretched]
  rw [length_stretched, List.length_append, List.length_singleton, hcount] at hleft
  have hbegun := (lt_stretchCount hn).mp hleft
  split
  · -- the open stretch: no stretch begins after it
    rename_i hlast
    have hend := mt (lt_stretchCount hn).mpr (by omega : ¬i + 1 < stretchCount n values.length)
    have hne : values.length ≠ (i + 1) * n := fun heq => h (heq ▸ Nat.mul_mod_left (i + 1) n)
    rw [stretch_concat hbegun.le (by omega), peak_append, peak_cons, peak_nil, sup_bot_eq]
  · rename_i hlast
    have hnext : (i + 1) * n < values.length := (lt_stretchCount hn).mp (by omega)
    rw [stretch_concat_of_le hnext.le]

/-- Neighbours of a list of even length joined. -/
theorem join_stretched (hn : 0 < n) {k : ℕ} (h : values.length = 2 * k * n) :
    stretched (2 * n) values =
      (List.range k).map fun i => peak (stretch n values (2 * i)) ⊔ peak (stretch n values (2 * i + 1)) := by
  have hcount : stretchCount (2 * n) values.length = k := by
    rw [h, Nat.mul_comm 2 k, Nat.mul_assoc]
    exact stretchCount_mul (by omega) k
  rw [stretched, hcount]
  refine List.map_congr_left fun i _ => ?_
  rw [← peak_append]
  congr 1
  have hfirst : i * (2 * n) = 2 * i * n := by rw [Nat.mul_comm 2 i, Nat.mul_assoc]
  have hsecond : (2 * i + 1) * n = 2 * i * n + n := by rw [Nat.add_mul, Nat.one_mul]
  rw [stretch, stretch, stretch, hfirst, hsecond, Nat.two_mul n, List.take_add, List.drop_drop]

end Speecher
