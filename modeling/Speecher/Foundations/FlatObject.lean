import Speecher.Foundations.JsonText
import Mathlib.Data.Int.Order.Basic

/-!
# Flat JSON objects

An object whose values are texts, whole numbers and lists of texts, some of which may be left out, and its compact text.
A library that keeps its numbers as they were written and one that keeps them as numbers read it alike.

* `lookup_ofFields_self`, `lookup_ofFields_ne`: how it is read.
* `text_ofFields`: its text, field by field.
-/

namespace Speecher

inductive FlatJson where
  | text (value : List Char)
  | number (value : Int64)
  | texts (values : List (List Char))

def FlatJson.json : FlatJson → Json
  | .text value => .string value
  | .number value => .number value.toInt
  | .texts values => .ofTexts values

/-- A list of texts, left out when empty. -/
def textsUnlessEmpty (values : List (List Char)) : Option FlatJson :=
  if values.isEmpty then none else some (.texts values)

def textUnlessEmpty (value : List Char) : Option FlatJson := if value.isEmpty then none else some (.text value)

abbrev FlatObject := List (String × FlatJson)

namespace FlatObject

def json (o : FlatObject) : Json := .object (o.map fun field => (field.1, field.2.json))

/-- Its compact text. -/
def text (o : FlatObject) : List Char := Json.print o.json

/-- The object of the fields that are there. -/
def ofFields (fields : List (String × Option FlatJson)) : FlatObject :=
  fields.filterMap fun field => field.2.map (field.1, ·)

/-! ## Reading -/

@[simp] theorem lookup_ofFields_self (key : String) (value : Option FlatJson)
    (fields : List (String × Option FlatJson)) :
    (ofFields ((key, value) :: fields)).lookup key = value.or ((ofFields fields).lookup key) := by
  cases value with
  | none => rfl
  | some value => exact List.lookup_cons_self

@[simp] theorem lookup_ofFields_ne {key key' : String} (h : key' ≠ key) (value : Option FlatJson)
    (fields : List (String × Option FlatJson)) :
    (ofFields ((key, value) :: fields)).lookup key' = (ofFields fields).lookup key' := by
  cases value with
  | none => rfl
  | some value =>
    have hne : (key' == key) = false := beq_false_of_ne h
    simp only [ofFields, List.filterMap_cons, Option.map_some, List.lookup_cons, hne]

@[simp] theorem lookup_ofFields_nil (key : String) : (ofFields []).lookup key = none := rfl

theorem lookup_map {α : Type} (f : FlatJson → α) (key : String) (o : FlatObject) :
    (o.map fun field => (field.1, f field.2)).lookup key = (o.lookup key).map f := by
  induction o with
  | nil => rfl
  | cons field o ih =>
    rw [List.map_cons, List.lookup_cons, List.lookup_cons, ih]
    cases key == field.1 <;> rfl

@[simp] theorem value_json (key : String) (o : FlatObject) : o.json.value key = (o.lookup key).map FlatJson.json :=
  lookup_map FlatJson.json key o

/-- No field is there twice. -/
def Unique (o : FlatObject) : Prop := (o.map Prod.fst).Nodup

theorem unique_ofFields {fields : List (String × Option FlatJson)} (h : (fields.map Prod.fst).Nodup) :
    Unique (ofFields fields) := by
  induction fields with
  | nil => exact List.nodup_nil
  | cons field fields ih =>
    obtain ⟨hfirst, hfields⟩ := List.nodup_cons.mp h
    obtain ⟨key, value⟩ := field
    cases value with
    | none => exact ih hfields
    | some value =>
      refine List.nodup_cons.mpr ⟨fun hmem => hfirst ?_, ih hfields⟩
      obtain ⟨later, hlater, rfl⟩ := List.mem_map.mp hmem
      obtain ⟨field, hfield, hsome⟩ := List.mem_filterMap.mp hlater
      obtain ⟨-, -, rfl⟩ := Option.map_eq_some_iff.mp hsome
      exact List.mem_map.mpr ⟨field, hfield, rfl⟩

/-! ## The text -/

/-- A field after others. -/
def written (field : String × Option FlatJson) : List Char :=
  match field.2 with
  | none => []
  | some value => ',' :: (Json.quoted field.1.toList ++ ':' :: Json.print value.json)

theorem printFields_ofFields (fields : List (String × Option FlatJson)) :
    (if (ofFields fields).map (fun field => (field.1, field.2.json)) = [] then ['\x7d']
      else ',' :: Json.printFields ((ofFields fields).map fun field => (field.1, field.2.json))) =
        fields.flatMap written ++ ['\x7d'] := by
  induction fields with
  | nil => rfl
  | cons field fields ih =>
    obtain ⟨key, value⟩ := field
    cases value with
    | none => exact ih
    | some value =>
      have hfields : (ofFields ((key, some value) :: fields)).map (fun field => (field.1, field.2.json)) =
          (key, value.json) :: (ofFields fields).map fun field => (field.1, field.2.json) := rfl
      rw [hfields, if_neg (List.cons_ne_nil _ _), Json.printFields_cons, ih, List.flatMap_cons, written]
      simp only [List.cons_append, List.append_assoc]

theorem text_ofFields (key : String) (value : FlatJson) (fields : List (String × Option FlatJson)) :
    (ofFields ((key, some value) :: fields)).text =
      '\x7b' :: (Json.quoted key.toList ++ ':' :: (Json.print value.json ++ (fields.flatMap written ++ ['\x7d']))) := by
  have hfields : (ofFields ((key, some value) :: fields)).map (fun field => (field.1, field.2.json)) =
      (key, value.json) :: (ofFields fields).map fun field => (field.1, field.2.json) := rfl
  rw [text, json, hfields, Json.print, Json.printFields_cons, printFields_ofFields]
  simp only [List.cons_append, List.append_assoc]

/-- The text is in braces. -/
theorem text_in_braces (key : String) (value : FlatJson) (fields : List (String × Option FlatJson)) :
    ∃ middle, (ofFields ((key, some value) :: fields)).text = '\x7b' :: (middle ++ ['\x7d']) := by
  refine ⟨Json.quoted key.toList ++ ':' :: (Json.print value.json ++ fields.flatMap written), ?_⟩
  rw [text_ofFields]
  simp only [List.cons_append, List.append_assoc]

/-- The text is one line. -/
theorem newline_text (o : FlatObject) : '\n' ∉ o.text := Json.newline_print _

theorem return_text (o : FlatObject) : '\r' ∉ o.text := fun h => absurd (Json.printable_print _ _ h) (by decide)

end FlatObject

end Speecher
