import Mathlib.Data.List.Induction
import Mathlib.Data.List.Nodup
import Mathlib.Order.Basic
import Mathlib.Order.Lattice

/-!
# Objects that keep their fields sorted

An object written field by field that keeps its keys in order: `insertField` puts a field where its key belongs, in the
place of a field of the same key. Some fields are there only at times (`present`).

* `insertFields_eq`: fields with different keys, inserted in any order, stand in the order of their keys.
* `insertFields_present`: the same where some are left out.
-/

namespace Speecher

variable {κ α : Type*}

/-- The fields that are there. -/
def present (fields : List (κ × Option α)) : List (κ × α) := fields.filterMap fun field => field.2.map (field.1, ·)

theorem mem_present {fields : List (κ × Option α)} {field : κ × α} :
    field ∈ present fields ↔ (field.1, some field.2) ∈ fields := by
  obtain ⟨key, value⟩ := field
  simp only [present, List.mem_filterMap, Option.map_eq_some_iff, Prod.mk.injEq, Prod.exists]
  constructor
  · rintro ⟨key, _, hmem, value, rfl, rfl, rfl⟩
    exact hmem
  · exact fun hmem => ⟨key, some value, hmem, value, rfl, rfl, rfl⟩

theorem keys_present_sublist (fields : List (κ × Option α)) :
    ((present fields).map Prod.fst).Sublist (fields.map Prod.fst) := by
  induction fields with
  | nil => exact .slnil
  | cons field fields ih =>
    obtain ⟨key, value⟩ := field
    cases value with
    | none => exact ih.cons key
    | some value => exact ih.cons_cons key

section Insertion

variable [LinearOrder κ]

/-- A field put where its key belongs. -/
def insertField (field : κ × α) : List (κ × α) → List (κ × α)
  | [] => [field]
  | other :: rest =>
    if field.1 < other.1 then field :: other :: rest
    else if field.1 = other.1 then field :: rest
    else other :: insertField field rest

/-- Fields put in one after the other. -/
def insertFields (fields : List (κ × α)) : List (κ × α) :=
  fields.foldl (fun object field => insertField field object) []

/-- The keys are in order. -/
def SortedFields (fields : List (κ × α)) : Prop := (fields.map Prod.fst).Pairwise (· < ·)

theorem mem_insertField {field x : κ × α} {fields : List (κ × α)} (h : SortedFields fields) :
    x ∈ insertField field fields ↔ x = field ∨ (x ∈ fields ∧ x.1 ≠ field.1) := by
  induction fields with
  | nil => simp [insertField]
  | cons other rest ih =>
    obtain ⟨hother, hrest⟩ := List.pairwise_cons.mp h
    have hlater : ∀ y ∈ rest, other.1 < y.1 := fun y hy => hother y.1 (List.mem_map_of_mem hy)
    rw [insertField]
    split_ifs with hlt heq
    · have hne : ∀ y ∈ other :: rest, y.1 ≠ field.1 := by
        intro y hy
        rcases List.mem_cons.mp hy with rfl | hy
        · exact hlt.ne'
        · exact (hlt.trans (hlater y hy)).ne'
      rw [List.mem_cons]
      exact or_congr_right ⟨fun hx => ⟨hx, hne x hx⟩, And.left⟩
    · have hne : ∀ y ∈ rest, y.1 ≠ field.1 := fun y hy => heq ▸ (hlater y hy).ne'
      rw [List.mem_cons, List.mem_cons]
      refine or_congr_right ⟨fun hx => ⟨.inr hx, hne x hx⟩, fun hx => ?_⟩
      exact hx.1.resolve_left fun hxo => hx.2 (by rw [hxo, heq])
    · have hne : other.1 ≠ field.1 := Ne.symm heq
      rw [List.mem_cons, List.mem_cons, ih hrest]
      constructor
      · rintro (rfl | rfl | ⟨hx, hxne⟩)
        · exact .inr ⟨.inl rfl, hne⟩
        · exact .inl rfl
        · exact .inr ⟨.inr hx, hxne⟩
      · rintro (rfl | ⟨rfl | hx, hxne⟩)
        · exact .inr (.inl rfl)
        · exact .inl rfl
        · exact .inr (.inr ⟨hx, hxne⟩)

theorem SortedFields.insertField (field : κ × α) {fields : List (κ × α)} (h : SortedFields fields) :
    SortedFields (insertField field fields) := by
  induction fields with
  | nil => exact List.pairwise_singleton _ _
  | cons other rest ih =>
    obtain ⟨hother, hrest⟩ := List.pairwise_cons.mp h
    rw [Speecher.insertField]
    split_ifs with hlt heq
    · refine List.pairwise_cons.mpr ⟨fun key hkey => ?_, h⟩
      rcases List.mem_cons.mp hkey with rfl | hkey
      · exact hlt
      · exact hlt.trans (hother key hkey)
    · exact List.pairwise_cons.mpr ⟨fun key hkey => heq ▸ hother key hkey, hrest⟩
    · refine List.pairwise_cons.mpr ⟨fun key hkey => ?_, ih hrest⟩
      obtain ⟨x, hx, rfl⟩ := List.mem_map.mp hkey
      rcases (mem_insertField hrest).mp hx with rfl | ⟨hx, -⟩
      · exact lt_of_le_of_ne (not_lt.mp hlt) (Ne.symm heq)
      · exact hother x.1 (List.mem_map_of_mem hx)

theorem insertFields_concat (fields : List (κ × α)) (field : κ × α) :
    insertFields (fields ++ [field]) = insertField field (insertFields fields) := by
  rw [insertFields, insertFields, List.foldl_append]
  rfl

theorem sortedFields_insertFields (fields : List (κ × α)) : SortedFields (insertFields fields) := by
  induction fields using List.reverseRecOn with
  | nil => exact List.Pairwise.nil
  | append_singleton fields field ih =>
    rw [insertFields_concat]
    exact ih.insertField field

theorem mem_insertFields {fields : List (κ × α)} (hkeys : (fields.map Prod.fst).Nodup) {x : κ × α} :
    x ∈ insertFields fields ↔ x ∈ fields := by
  induction fields using List.reverseRecOn with
  | nil => exact Iff.rfl
  | append_singleton fields field ih =>
    rw [List.map_append, List.nodup_append] at hkeys
    obtain ⟨hkeys, -, hdisjoint⟩ := hkeys
    have hne : ∀ y ∈ fields, y.1 ≠ field.1 := fun y hy =>
      hdisjoint y.1 (List.mem_map_of_mem hy) field.1 (List.mem_singleton.mpr rfl)
    rw [insertFields_concat, mem_insertField (sortedFields_insertFields fields), ih hkeys, List.mem_append,
      List.mem_singleton, or_comm]
    exact or_congr_left ⟨And.left, fun hx => ⟨hx, hne x hx⟩⟩

/-- Sorted objects with the same fields are the same. -/
theorem SortedFields.eq_of_mem_iff {fields others : List (κ × α)} (h : SortedFields fields) (h' : SortedFields others)
    (hmem : ∀ x, x ∈ fields ↔ x ∈ others) : fields = others := by
  have hfields := List.pairwise_map.mp h
  have hothers := List.pairwise_map.mp h'
  have hperm : fields.Perm others :=
    (List.perm_ext_iff_of_nodup (hfields.imp fun hlt heq => hlt.ne (congrArg Prod.fst heq))
      (hothers.imp fun hlt heq => hlt.ne (congrArg Prod.fst heq))).mpr hmem
  exact hperm.eq_of_pairwise (fun _ _ _ _ hlt hgt => absurd hgt hlt.asymm) hfields hothers

/-- **Fields inserted in any order stand in the order of their keys.** -/
theorem insertFields_eq {fields sorted : List (κ × α)} (hkeys : (fields.map Prod.fst).Nodup)
    (hsorted : SortedFields sorted) (hmem : ∀ x, x ∈ fields ↔ x ∈ sorted) : insertFields fields = sorted :=
  (sortedFields_insertFields fields).eq_of_mem_iff hsorted fun x => (mem_insertFields hkeys).trans (hmem x)

/-- The same of fields that are there only at times. -/
theorem insertFields_present {fields sorted : List (κ × Option α)} (hkeys : (fields.map Prod.fst).Nodup)
    (hsorted : (sorted.map Prod.fst).Pairwise (· < ·))
    (hmem : ∀ key value, (key, some value) ∈ fields ↔ (key, some value) ∈ sorted) :
    insertFields (present fields) = present sorted := by
  refine insertFields_eq (hkeys.sublist (keys_present_sublist fields)) (hsorted.sublist (keys_present_sublist sorted))
    fun x => ?_
  rw [mem_present, mem_present, hmem]

end Insertion

end Speecher
