import Mathlib.Data.Rat.Floor
import Mathlib.Tactic.Common

/-!
# JSON values

JSON as a program reads and writes it: an object is read by key, and what is missing or of another
type reads as the caller's default. An absent value is `none`.

* `value_cons_self`, `value_cons_ne`: how an object written field by field is read.
* `value_ofFields_self`, `value_ofFields_ne`: the same where fields can be left out.
* `JsonText`: a library that writes objects as text and reads them back.
-/

namespace Speecher

/-- A JSON value. -/
inductive Json where
  | null
  | bool (value : Bool)
  | number (value : ℚ)
  | string (value : List Char)
  | array (items : List Json)
  | object (fields : List (String × Json))

namespace Json

/-- The value of an object's field. -/
def value (key : String) : Json → Option Json
  | object fields => fields.lookup key
  | _ => none

/-- The items of an array. -/
def items : Json → List Json
  | array items => items
  | _ => []

/-- The text of a value, empty by default. -/
def toText : Option Json → List Char
  | some (string text) => text
  | _ => []

/-- The truth of a value. -/
def toBool (fallback : Bool) : Option Json → Bool
  | some (bool value) => value
  | _ => fallback

/-- The number of a value. -/
def toNumber (fallback : ℚ) : Option Json → ℚ
  | some (number value) => value
  | _ => fallback

/-- The whole number of a value; a fraction reads as the default. -/
def toInt (fallback : ℤ) : Option Json → ℤ
  | some (number value) => if value.isInt then value.num else fallback
  | _ => fallback

@[simp] theorem items_array (l : List Json) : (array l).items = l := rfl

@[simp] theorem toText_none : toText none = [] := rfl

@[simp] theorem toText_string (text : List Char) : toText (some (string text)) = text := rfl

@[simp] theorem toBool_bool (fallback value : Bool) : toBool fallback (some (bool value)) = value := rfl

@[simp] theorem toNumber_number (fallback value : ℚ) :
    toNumber fallback (some (number value)) = value := rfl

@[simp] theorem toInt_number (fallback value : ℤ) : toInt fallback (some (number value)) = value := by
  simp [toInt, Rat.isInt]

@[simp] theorem value_cons_self (key : String) (j : Json) (fields : List (String × Json)) :
    (object ((key, j) :: fields)).value key = some j := by
  simp [value]

@[simp] theorem value_cons_ne {key key' : String} (h : key' ≠ key) (j : Json) (fields : List (String × Json)) :
    (object ((key, j) :: fields)).value key' = (object fields).value key' := by
  simp only [value, List.lookup_cons, beq_false_of_ne h]

@[simp] theorem value_nil (key : String) : (object []).value key = none := rfl

/-! ## Fields that can be left out -/

/-- The object of the fields that are there. -/
def ofFields (fields : List (String × Option Json)) : Json :=
  object (fields.filterMap fun field => field.2.map (field.1, ·))

@[simp] theorem value_ofFields_self (key : String) (j : Option Json) (fields : List (String × Option Json)) :
    (ofFields ((key, j) :: fields)).value key = j.or ((ofFields fields).value key) := by
  cases j with
  | none => rfl
  | some j => exact value_cons_self ..

@[simp] theorem value_ofFields_ne {key key' : String} (h : key' ≠ key) (j : Option Json)
    (fields : List (String × Option Json)) :
    (ofFields ((key, j) :: fields)).value key' = (ofFields fields).value key' := by
  cases j with
  | none => rfl
  | some j => exact value_cons_ne h ..

@[simp] theorem value_ofFields_nil (key : String) : (ofFields []).value key = none := rfl

/-! ## Lists of texts -/

/-- A list of texts. -/
def ofTexts (texts : List (List Char)) : Json := array (texts.map string)

/-- The text of a value that is one. -/
def text? : Json → Option (List Char)
  | string text => some text
  | _ => none

theorem mapM_text?_ofTexts (texts : List (List Char)) : (texts.map string).mapM text? = some texts := by
  induction texts with
  | nil => rfl
  | cons text texts ih => simp [text?, ih]

end Json

/-- A text, left out when empty. -/
def unlessEmpty (text : List Char) : Option Json := if text.isEmpty then none else some (.string text)

@[simp] theorem toText_unlessEmpty (text : List Char) : Json.toText (unlessEmpty text) = text := by
  cases text <;> rfl

/-- A library that writes objects as text on one line and reads them back. -/
structure JsonText where
  toJson : Json → List Char
  fromJson : List Char → Option Json
  fromJson_toJson : ∀ fields, fromJson (toJson (.object fields)) = some (.object fields)
  newline : ∀ fields, '\n' ∉ toJson (.object fields)

end Speecher
