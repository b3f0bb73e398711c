import Mathlib.Algebra.Ring.Nat
import Mathlib.Data.Int.Order.Basic
import Mathlib.Data.List.DropRight
import Mathlib.Tactic.Common

/-!
# Dates and times as text

A date and a time as a clock shows them, without a zone, and their ISO 8601 text: `2025-10-03T09:55:00`, with a
fraction of a second where there is one, and a sign where the year has more than four digits. The reader is as strict as
Java's.

* **`LocalDateTime.parse_text`**: a date and time is read back from its text.
-/

namespace Speecher

/-! ## Numbers of a fixed width -/

/-- A number with zeros before it. -/
def padded (width n : ℕ) : List Char := (Nat.toDigits 10 n).leftpad width '0'

/-- A number of so many digits, and what follows it. -/
def readFixed (width : ℕ) (text : List Char) : Option (ℕ × List Char) :=
  if (text.take width).length = width ∧ (text.take width).all Char.isDigit = true then
    some (Nat.ofDigitChars 10 (text.take width) 0, text.drop width)
  else none

theorem isDigit_padded {width n : ℕ} : ∀ c ∈ padded width n, c.isDigit = true := by
  intro c hc
  rcases List.mem_append.mp hc with hzero | hdigit
  · rw [(List.mem_replicate.mp hzero).2]
    rfl
  · exact Nat.isDigit_of_mem_toDigits (by decide) (by decide) hdigit

theorem length_padded {width n : ℕ} (hwidth : 0 < width) (h : n < 10 ^ width) : (padded width n).length = width := by
  have hle : (Nat.toDigits 10 n).length ≤ width := (Nat.length_toDigits_le_iff (by decide) hwidth).mpr h
  rw [padded, List.leftpad, List.length_append, List.length_replicate]
  omega

theorem ofDigitChars_padded (width n : ℕ) : Nat.ofDigitChars 10 (padded width n) 0 = n := by
  rw [padded, List.leftpad, Nat.ofDigitChars_append, Nat.ofDigitChars_replicate_zero, Nat.mul_zero,
    Nat.ofDigitChars_ten_toDigits]

theorem readFixed_padded {width n : ℕ} (hwidth : 0 < width) (h : n < 10 ^ width) (rest : List Char) :
    readFixed width (padded width n ++ rest) = some (n, rest) := by
  have hlength := length_padded hwidth h
  rw [readFixed, List.take_left' hlength, List.drop_left' hlength,
    if_pos ⟨hlength, List.all_eq_true.mpr isDigit_padded⟩, ofDigitChars_padded]

/-! ## The text -/

/-- What a calendar and a clock show. -/
structure DateTime where
  year : ℤ
  month : ℕ
  day : ℕ
  hour : ℕ
  minute : ℕ
  second : ℕ
  nano : ℕ
  deriving DecidableEq

def isLeapYear (year : ℤ) : Bool := year % 4 = 0 && (year % 100 ≠ 0 || year % 400 = 0)

def daysInMonth (year : ℤ) (month : ℕ) : ℕ :=
  if month = 2 then if isLeapYear year then 29 else 28
  else if month = 4 ∨ month = 6 ∨ month = 9 ∨ month = 11 then 30
  else 31

structure DateTime.Valid (t : DateTime) : Prop where
  year : t.year.natAbs < 10 ^ 9
  month : 1 ≤ t.month ∧ t.month ≤ 12
  day : 1 ≤ t.day ∧ t.day ≤ daysInMonth t.year t.month
  hour : t.hour < 24
  minute : t.minute < 60
  second : t.second < 60
  nano : t.nano < 10 ^ 9

instance (t : DateTime) : Decidable t.Valid :=
  decidable_of_iff (t.year.natAbs < 10 ^ 9 ∧ (1 ≤ t.month ∧ t.month ≤ 12) ∧
      (1 ≤ t.day ∧ t.day ≤ daysInMonth t.year t.month) ∧ t.hour < 24 ∧ t.minute < 60 ∧ t.second < 60 ∧
      t.nano < 10 ^ 9)
    ⟨fun ⟨h₁, h₂, h₃, h₄, h₅, h₆, h₇⟩ => ⟨h₁, h₂, h₃, h₄, h₅, h₆, h₇⟩,
      fun h => ⟨h.year, h.month, h.day, h.hour, h.minute, h.second, h.nano⟩⟩

def yearText (year : ℤ) : List Char :=
  if year < 0 then '-' :: padded 4 year.natAbs
  else if year < 10000 then padded 4 year.natAbs
  else '+' :: padded 4 year.natAbs

/-- The digits of a fraction of a second, as many as it has. -/
def fractionText (nano : ℕ) : List Char :=
  if nano = 0 then [] else '.' :: (padded 9 nano).rdropWhile (· = '0')

def DateTime.text (t : DateTime) : List Char :=
  yearText t.year ++ '-' :: (padded 2 t.month ++ '-' :: (padded 2 t.day ++ 'T' :: (padded 2 t.hour ++
    ':' :: (padded 2 t.minute ++ ':' :: (padded 2 t.second ++ fractionText t.nano)))))

/-! ## Reading -/

/-- The digits a text starts with, up to so many. -/
def digitsUpTo (most : ℕ) (text : List Char) : List Char := (text.takeWhile Char.isDigit).take most

def readYear : List Char → Option (ℤ × List Char)
  | '+' :: text =>
    let digits := digitsUpTo 10 text
    if 4 < digits.length then some (Nat.ofDigitChars 10 digits 0, text.drop digits.length) else none
  | '-' :: text =>
    let digits := digitsUpTo 10 text
    if 4 ≤ digits.length ∧ Nat.ofDigitChars 10 digits 0 ≠ 0 then
      some (-(Nat.ofDigitChars 10 digits 0), text.drop digits.length)
    else none
  | text =>
    let digits := digitsUpTo 10 text
    if digits.length = 4 then some (Nat.ofDigitChars 10 digits 0, text.drop digits.length) else none

def readChar (c : Char) : List Char → Option (List Char)
  | [] => none
  | d :: text => if d = c then some text else none

/-- A fraction of a second, which need not be there. -/
def readFraction : List Char → ℕ × List Char
  | '.' :: text =>
    let digits := digitsUpTo 9 text
    (Nat.ofDigitChars 10 digits 0 * 10 ^ (9 - digits.length), text.drop digits.length)
  | text => (0, text)

/-- The seconds, which need not be there either. -/
def readSeconds (text : List Char) : (ℕ × ℕ) × List Char :=
  match (readChar ':' text).bind (readFixed 2) with
  | none => ((0, 0), text)
  | some (second, text) => ((second, (readFraction text).1), (readFraction text).2)

/-- What a text says, valid or not. -/
def DateTime.read (text : List Char) : Option DateTime := do
  let (year, text) ← readYear text
  let text ← readChar '-' text
  let (month, text) ← readFixed 2 text
  let text ← readChar '-' text
  let (day, text) ← readFixed 2 text
  let text ← (readChar 'T' text).or (readChar 't' text)
  let (hour, text) ← readFixed 2 text
  let text ← readChar ':' text
  let (minute, text) ← readFixed 2 text
  let ((second, nano), text) := readSeconds text
  if text = [] then some ⟨year, month, day, hour, minute, second, nano⟩ else none

/-- A date and a time that there is, without a zone. -/
abbrev LocalDateTime := { t : DateTime // t.Valid }

def LocalDateTime.parse (text : List Char) : Option LocalDateTime :=
  (DateTime.read text).bind fun t => if h : t.Valid then some ⟨t, h⟩ else none

/-! ## Reading what was written -/

theorem digitsUpTo_append {most : ℕ} {digits rest : List Char} (h : ∀ c ∈ digits, c.isDigit = true)
    (hrest : ∀ c ∈ rest.head?, c.isDigit = false) (hmost : digits.length ≤ most) :
    digitsUpTo most (digits ++ rest) = digits := by
  have hstop : rest.takeWhile Char.isDigit = [] := by
    cases rest with
    | nil => rfl
    | cons c rest => rw [List.takeWhile_cons_of_neg (by simp [hrest c rfl])]
  rw [digitsUpTo, List.takeWhile_append_of_pos h, hstop, List.append_nil, List.take_of_length_le hmost]

@[simp] theorem readChar_self (c : Char) (text : List Char) : readChar c (c :: text) = some text := if_pos rfl

/-- The digits of a year. -/
theorem length_yearDigits {n : ℕ} (h : n < 10 ^ 9) : (padded 4 n).length ≤ 10 ∧ 4 ≤ (padded 4 n).length ∧
    (n < 10000 → (padded 4 n).length = 4) ∧ (10000 ≤ n → 4 < (padded 4 n).length) := by
  have hlength : (padded 4 n).length = 4 - (Nat.toDigits 10 n).length + (Nat.toDigits 10 n).length := by
    rw [padded, List.leftpad, List.length_append, List.length_replicate]
  have hnine : (Nat.toDigits 10 n).length ≤ 9 := (Nat.length_toDigits_le_iff (by decide) (by decide)).mpr h
  have hfour : (Nat.toDigits 10 n).length ≤ 4 ↔ n < 10 ^ 4 := Nat.length_toDigits_le_iff (by decide) (by decide)
  omega

theorem readYear_yearText {year : ℤ} (h : year.natAbs < 10 ^ 9) (rest : List Char)
    (hrest : ∀ c ∈ rest.head?, c.isDigit = false) : readYear (yearText year ++ rest) = some (year, rest) := by
  obtain ⟨hten, hfour, hplain, hlong⟩ := length_yearDigits h
  have hdigits : digitsUpTo 10 (padded 4 year.natAbs ++ rest) = padded 4 year.natAbs :=
    digitsUpTo_append isDigit_padded hrest hten
  rw [yearText]
  split_ifs with hneg hsmall
  · have hvalue : -(year.natAbs : ℤ) = year := by omega
    rw [List.cons_append, readYear, hdigits, ofDigitChars_padded, if_pos ⟨hfour, by omega⟩, List.drop_left, hvalue]
  · have hvalue : (year.natAbs : ℤ) = year := by omega
    have hnext : readYear (padded 4 year.natAbs ++ rest) =
        if (digitsUpTo 10 (padded 4 year.natAbs ++ rest)).length = 4 then
          some ((Nat.ofDigitChars 10 (digitsUpTo 10 (padded 4 year.natAbs ++ rest)) 0 : ℤ),
            (padded 4 year.natAbs ++ rest).drop (digitsUpTo 10 (padded 4 year.natAbs ++ rest)).length)
        else none := by
      obtain ⟨c, digits, hc⟩ := List.exists_cons_of_length_pos (show 0 < (padded 4 year.natAbs).length by omega)
      have hdigit : c.isDigit = true := isDigit_padded c (hc ▸ List.mem_cons_self)
      rw [hc, List.cons_append, readYear.eq_def]
      split
      · exact absurd hdigit (by simp_all)
      · exact absurd hdigit (by simp_all)
      · rfl
    rw [hnext, hdigits, ofDigitChars_padded, if_pos (hplain (by omega)), List.drop_left, hvalue]
  · have hvalue : (year.natAbs : ℤ) = year := by omega
    rw [List.cons_append, readYear, hdigits, ofDigitChars_padded, if_pos (hlong (by omega)), List.drop_left, hvalue]

/-- What is left of a number without the zeros it ends with. -/
theorem ofDigitChars_rdropWhile (digits : List Char) :
    Nat.ofDigitChars 10 (digits.rdropWhile (· = '0')) 0 *
        10 ^ (digits.length - (digits.rdropWhile (· = '0')).length) =
      Nat.ofDigitChars 10 digits 0 := by
  have hsplit : digits.rdropWhile (· = '0') ++ digits.rtakeWhile (· = '0') = digits :=
    List.rdropWhile_append_rtakeWhile
  have hzeros : digits.rtakeWhile (· = '0') =
      List.replicate (digits.length - (digits.rdropWhile (· = '0')).length) '0' := by
    refine List.eq_replicate_iff.mpr ⟨?_, fun c hc => ?_⟩
    · have hlength := congrArg List.length hsplit
      rw [List.length_append] at hlength
      omega
    · have hall := List.rtakeWhile_eq_self_iff.mp (List.rtakeWhile_idempotent (· = '0') digits)
      exact of_decide_eq_true (hall c hc)
  conv_rhs => rw [← hsplit, hzeros, Nat.ofDigitChars_append, Nat.ofDigitChars_replicate_zero]
  exact Nat.mul_comm _ _

theorem readFraction_fractionText {nano : ℕ} (h : nano < 10 ^ 9) : readFraction (fractionText nano) = (nano, []) := by
  rw [fractionText]
  split_ifs with hzero
  · rw [hzero]
    rfl
  · have hleft : (padded 9 nano).rdropWhile (· = '0') <+: padded 9 nano := List.rdropWhile_prefix _ _
    have hlength : (padded 9 nano).length = 9 := length_padded (by decide) h
    have hdigits : digitsUpTo 9 ((padded 9 nano).rdropWhile (· = '0')) = (padded 9 nano).rdropWhile (· = '0') := by
      have hmost : ((padded 9 nano).rdropWhile (· = '0')).length ≤ 9 := hleft.length_le.trans (Nat.le_of_eq hlength)
      have hnone : ∀ c ∈ ([] : List Char).head?, c.isDigit = false := fun _ hc => absurd hc (Option.some_ne_none _).symm
      have happend := digitsUpTo_append (fun c hc => isDigit_padded c (hleft.subset hc)) hnone hmost
      rwa [List.append_nil] at happend
    have hvalue := ofDigitChars_rdropWhile (padded 9 nano)
    rw [hlength, ofDigitChars_padded] at hvalue
    rw [readFraction, hdigits, hvalue, List.drop_length]

theorem readSeconds_text {second nano : ℕ} (hsecond : second < 60) (hnano : nano < 10 ^ 9) :
    readSeconds (':' :: (padded 2 second ++ fractionText nano)) = ((second, nano), []) := by
  rw [readSeconds, readChar_self, Option.bind_some, readFixed_padded (by decide) (by omega)]
  simp only [readFraction_fractionText hnano]

theorem DateTime.read_text {t : DateTime} (h : t.Valid) : DateTime.read t.text = some t := by
  have hmonth : t.month < 10 ^ 2 := h.month.2.trans_lt (by decide)
  have hday : t.day < 10 ^ 2 := by
    refine h.day.2.trans_lt ?_
    rw [daysInMonth]
    split_ifs <;> decide
  have hhour : t.hour < 10 ^ 2 := h.hour.trans (by decide)
  have hminute : t.minute < 10 ^ 2 := h.minute.trans (by decide)
  have hdash (rest : List Char) : ∀ c ∈ ('-' :: rest).head?, c.isDigit = false := by
    rintro c hc
    obtain rfl := Option.some.inj hc
    rfl
  rw [DateTime.read, DateTime.text, readYear_yearText h.year _ (hdash _)]
  simp only [Option.bind_eq_bind, Option.bind_some, readChar_self, Option.some_or,
    readFixed_padded (by decide : 0 < 2) hmonth, readFixed_padded (by decide : 0 < 2) hday,
    readFixed_padded (by decide : 0 < 2) hhour, readFixed_padded (by decide : 0 < 2) hminute,
    readSeconds_text h.second h.nano, if_true]

/-- **A date and time is read back.** -/
theorem LocalDateTime.parse_text (t : LocalDateTime) : LocalDateTime.parse t.1.text = some t := by
  rw [LocalDateTime.parse, DateTime.read_text t.2, Option.bind_some, dif_pos t.2]

end Speecher
