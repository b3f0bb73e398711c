import Speecher.Foundations.Json
import Mathlib.Tactic.IntervalCases
import Mathlib.Tactic.Linarith

/-!
# Compact JSON text

A JSON library a program can be run with: `print` writes a value on one line, `read` reads one back.
A fraction, which the numbers of a program's messages are not, is written as a quotient.

* `read_print`: reading undoes printing, whatever follows the value.
* `JsonText.compact`: the two as a library.
-/

namespace Speecher

namespace Json

/-- A character inside a string. -/
def escape (c : Char) : List Char :=
  if c = '"' then ['\\', '"']
  else if c = '\\' then ['\\', '\\']
  else if c = '\x08' then ['\\', 'b']
  else if c = '\x0c' then ['\\', 'f']
  else if c = '\n' then ['\\', 'n']
  else if c = '\r' then ['\\', 'r']
  else if c = '\t' then ['\\', 't']
  else if c.toNat < 32 then ['\\', 'u', '0', '0', Nat.digitChar (c.toNat / 16), Nat.digitChar (c.toNat % 16)]
  else [c]

def quoted (text : List Char) : List Char := '"' :: text.flatMap escape ++ ['"']

def natText (n : ℕ) : List Char := Nat.toDigits 10 n

def numberText (q : ℚ) : List Char :=
  (if q.num < 0 then ['-'] else []) ++ natText q.num.natAbs ++ (if q.den = 1 then [] else '/' :: natText q.den)

mutual

def print : Json → List Char
  | null => "null".toList
  | bool true => "true".toList
  | bool false => "false".toList
  | number q => numberText q
  | string text => quoted text
  | array items => '[' :: printItems items
  | object fields => '\x7b' :: printFields fields

/-- The items of an array and its end. -/
def printItems : List Json → List Char
  | [] => [']']
  | [item] => print item ++ [']']
  | item :: next :: items => print item ++ ',' :: printItems (next :: items)

/-- The fields of an object and its end. -/
def printFields : List (String × Json) → List Char
  | [] => ['\x7d']
  | [(key, j)] => quoted key.toList ++ ':' :: print j ++ ['\x7d']
  | (key, j) :: next :: fields => quoted key.toList ++ ':' :: print j ++ ',' :: printFields (next :: fields)

end

/-! ## Reading -/

def hexDigit (c : Char) : ℕ := if c.isDigit then c.toNat - '0'.toNat else c.toNat - 'a'.toNat + 10

/-- A character written with a backslash and a letter. -/
def unescape (c : Char) : Char :=
  if c = 'b' then '\x08'
  else if c = 'f' then '\x0c'
  else if c = 'n' then '\n'
  else if c = 'r' then '\r'
  else if c = 't' then '\t'
  else c

/-- The rest of a string, and what follows it. -/
def readQuoted : List Char → Option (List Char × List Char)
  | [] => none
  | '"' :: rest => some ([], rest)
  | '\\' :: 'u' :: a :: b :: c :: d :: rest =>
    (readQuoted rest).map fun r => (Char.ofNat ([a, b, c, d].foldl (16 * · + hexDigit ·) 0) :: r.1, r.2)
  | '\\' :: c :: rest => (readQuoted rest).map fun r => (unescape c :: r.1, r.2)
  | c :: rest => (readQuoted rest).map fun r => (c :: r.1, r.2)

def readNat (text : List Char) : ℕ × List Char :=
  (Nat.ofDigitChars 10 (text.takeWhile Char.isDigit) 0, text.dropWhile Char.isDigit)

/-- A whole number, and what follows it. -/
def readInt : List Char → ℤ × List Char
  | '-' :: text => (-(readNat text).1, (readNat text).2)
  | text => ((readNat text).1, (readNat text).2)

def readNumber (text : List Char) : ℚ × List Char :=
  match readInt text with
  | (n, '/' :: rest) => ((n : ℚ) / (readNat rest).1, (readNat rest).2)
  | (n, rest) => (n, rest)

mutual

/-- A value, and what follows it. -/
def read : ℕ → List Char → Option (Json × List Char)
  | 0, _ => none
  | _ + 1, 'n' :: 'u' :: 'l' :: 'l' :: rest => some (null, rest)
  | _ + 1, 't' :: 'r' :: 'u' :: 'e' :: rest => some (bool true, rest)
  | _ + 1, 'f' :: 'a' :: 'l' :: 's' :: 'e' :: rest => some (bool false, rest)
  | _ + 1, '"' :: rest => (readQuoted rest).map fun r => (string r.1, r.2)
  | _ + 1, '[' :: ']' :: rest => some (array [], rest)
  | fuel + 1, '[' :: rest => (readItems fuel rest).map fun r => (array r.1, r.2)
  | _ + 1, '\x7b' :: '\x7d' :: rest => some (object [], rest)
  | fuel + 1, '\x7b' :: rest => (readFields fuel rest).map fun r => (object r.1, r.2)
  | _ + 1, text => some (number (readNumber text).1, (readNumber text).2)

def readItems : ℕ → List Char → Option (List Json × List Char)
  | 0, _ => none
  | fuel + 1, text =>
    (read fuel text).bind fun r =>
      match r.2 with
      | ',' :: rest => (readItems fuel rest).map fun s => (r.1 :: s.1, s.2)
      | ']' :: rest => some ([r.1], rest)
      | _ => none

def readFields : ℕ → List Char → Option (List (String × Json) × List Char)
  | 0, _ => none
  | fuel + 1, text =>
    match text with
    | '"' :: text =>
      (readQuoted text).bind fun key =>
        match key.2 with
        | ':' :: text =>
          (read fuel text).bind fun r =>
            match r.2 with
            | ',' :: rest => (readFields fuel rest).map fun s => ((String.ofList key.1, r.1) :: s.1, s.2)
            | '\x7d' :: rest => some ([(String.ofList key.1, r.1)], rest)
            | _ => none
        | _ => none
    | _ => none

end

/-! ## Reading what was printed -/

theorem readQuoted_escape (c : Char) (text : List Char) :
    readQuoted (escape c ++ text) = (readQuoted text).map fun r => (c :: r.1, r.2) := by
  by_cases hcontrol : c.toNat < 32
  · obtain ⟨n, hn, rfl⟩ : ∃ n < 32, c = Char.ofNat n := ⟨c.toNat, hcontrol, (Char.ofNat_toNat c).symm⟩
    interval_cases n <;> rfl
  · by_cases hquote : c = '"'
    · subst hquote; rfl
    by_cases hslash : c = '\\'
    · subst hslash; rfl
    have hne : ∀ d : Char, d.toNat < 32 → c ≠ d := by
      rintro d hd rfl
      exact hcontrol hd
    rw [escape, if_neg hquote, if_neg hslash, if_neg (hne _ (by decide)), if_neg (hne _ (by decide)),
      if_neg (hne _ (by decide)), if_neg (hne _ (by decide)), if_neg (hne _ (by decide)), if_neg hcontrol]
    simp [readQuoted, hslash]

theorem readQuoted_quoted (text rest : List Char) :
    readQuoted (text.flatMap escape ++ '"' :: rest) = some (text, rest) := by
  induction text with
  | nil => simp [readQuoted]
  | cons c text ih => rw [List.flatMap_cons, List.append_assoc, readQuoted_escape, ih]; rfl

theorem quoted_append (text rest : List Char) :
    quoted text ++ rest = '"' :: (text.flatMap escape ++ '"' :: rest) := by
  simp [quoted]

/-- No number goes on into the text. -/
def Stops (rest : List Char) : Prop := ∀ c ∈ rest.head?, c.isDigit = false ∧ c ≠ '/'

theorem stops_cons {c : Char} {rest : List Char} (hdigit : c.isDigit = false) (hslash : c ≠ '/') :
    Stops (c :: rest) := by
  rintro d hd
  obtain rfl := Option.some.inj hd
  exact ⟨hdigit, hslash⟩

theorem readNat_natText {rest : List Char} (n : ℕ) (h : ∀ c ∈ rest.head?, c.isDigit = false) :
    readNat (natText n ++ rest) = (n, rest) := by
  have hdigits : ∀ c ∈ natText n, c.isDigit = true := fun c hc =>
    Nat.isDigit_of_mem_toDigits (by decide) (by decide) hc
  have htake : rest.takeWhile Char.isDigit = [] := by
    cases rest with
    | nil => rfl
    | cons c rest => rw [List.takeWhile_cons_of_neg (by simp [h c rfl])]
  have hdrop : rest.dropWhile Char.isDigit = rest := by
    cases rest with
    | nil => rfl
    | cons c rest => rw [List.dropWhile_cons_of_neg (by simp [h c rfl])]
  rw [readNat, List.takeWhile_append_of_pos hdigits, List.dropWhile_append_of_pos hdigits, htake, hdrop,
    List.append_nil, natText, Nat.ofDigitChars_ten_toDigits]

theorem natText_cons (n : ℕ) : ∃ c text, natText n = c :: text ∧ c.isDigit = true := by
  obtain ⟨c, text, h⟩ := List.exists_cons_of_ne_nil (Nat.toDigits_ne_nil (n := n) (b := 10))
  have hmem : c ∈ Nat.toDigits 10 n := by rw [h]; exact List.mem_cons_self
  exact ⟨c, text, h, Nat.isDigit_of_mem_toDigits (by decide) (by decide) hmem⟩

theorem readInt_print {rest : List Char} (n : ℤ) (h : ∀ c ∈ rest.head?, c.isDigit = false) :
    readInt ((if n < 0 then ['-'] else []) ++ natText n.natAbs ++ rest) = (n, rest) := by
  split
  · rw [List.append_assoc, List.singleton_append, readInt, readNat_natText _ h]
    exact Prod.ext (by show -(n.natAbs : ℤ) = n; omega) rfl
  · rename_i hpos
    obtain ⟨c, text, htext, hdigit⟩ := natText_cons n.natAbs
    have hread := readNat_natText n.natAbs h
    rw [htext] at hread
    rw [List.nil_append, htext, List.cons_append, readInt, ← List.cons_append, hread]
    · exact Prod.ext (by show (n.natAbs : ℤ) = n; omega) rfl
    · rintro text' heq
      obtain rfl := (List.cons.inj heq).1
      exact absurd hdigit (by decide)

theorem readNumber_numberText {rest : List Char} (q : ℚ) (h : Stops rest) :
    readNumber (numberText q ++ rest) = (q, rest) := by
  have hdigit : ∀ c ∈ rest.head?, c.isDigit = false := fun c hc => (h c hc).1
  rw [numberText, List.append_assoc]
  by_cases hden : q.den = 1
  · rw [if_pos hden, List.nil_append, readNumber, readInt_print q.num hdigit]
    have hq : ((q.num : ℤ) : ℚ) = q := (Rat.den_eq_one_iff q).mp hden
    split
    · rename_i heq
      obtain rfl : rest = '/' :: _ := congrArg Prod.snd heq
      exact absurd rfl (h '/' rfl).2
    · rename_i heq
      cases heq
      exact Prod.ext hq rfl
  · rw [if_neg hden, List.cons_append, readNumber, readInt_print q.num (by intro c hc; cases hc; rfl)]
    simp only [readNat_natText q.den hdigit, Rat.num_div_den]

theorem print_cons (j : Json) : ∃ c text, print j = c :: text ∧ c ≠ ']' := by
  cases j with
  | null => exact ⟨_, _, by rw [print]; rfl, by decide⟩
  | bool b => cases b <;> exact ⟨_, _, by rw [print]; rfl, by decide⟩
  | number q =>
    obtain ⟨c, text, htext, hdigit⟩ := natText_cons q.num.natAbs
    have hc : c ≠ ']' := by
      rintro rfl
      exact absurd hdigit (by decide)
    by_cases hneg : q.num < 0
    · exact ⟨'-', _, by rw [print, numberText, if_pos hneg]; rfl, by decide⟩
    · exact ⟨c, _, by rw [print, numberText, if_neg hneg, htext]; rfl, hc⟩
  | string text => exact ⟨_, _, by rw [print, quoted]; rfl, by decide⟩
  | array items => exact ⟨_, _, by rw [print], by decide⟩
  | object fields => exact ⟨_, _, by rw [print], by decide⟩


theorem read_number {rest : List Char} (fuel : ℕ) (q : ℚ) (h : Stops rest) :
    read (fuel + 1) (numberText q ++ rest) = some (number q, rest) := by
  have hread := readNumber_numberText q h
  obtain ⟨c, text, htext, hdigit⟩ :
      ∃ c text, numberText q ++ rest = c :: text ∧ (c = '-' ∨ c.isDigit = true) := by
    obtain ⟨c, text, htext, hdigit⟩ := natText_cons q.num.natAbs
    by_cases hneg : q.num < 0
    · exact ⟨'-', _, by rw [numberText, if_pos hneg]; rfl, .inl rfl⟩
    · exact ⟨c, _, by rw [numberText, if_neg hneg, htext]; rfl, .inr hdigit⟩
  have hne : ∀ d : Char, d ≠ '-' → d.isDigit = false → c ≠ d := by
    rintro d hminus hd rfl
    rcases hdigit with rfl | hdigit
    · exact hminus rfl
    · rw [hd] at hdigit; cases hdigit
  rw [htext] at hread ⊢
  rw [read, hread]
  all_goals
    intros
    rename_i heq
    exact hne _ (by decide) (by decide) (List.cons.inj heq).1

theorem printItems_cons (item : Json) (items : List Json) :
    printItems (item :: items) =
      print item ++ (if items = [] then [']'] else ',' :: printItems items) := by
  cases items <;> rw [printItems] <;> rfl

theorem printFields_cons (key : String) (j : Json) (fields : List (String × Json)) :
    printFields ((key, j) :: fields) =
      quoted key.toList ++ ':' :: print j ++ (if fields = [] then ['\x7d'] else ',' :: printFields fields) := by
  cases fields <;> rw [printFields] <;> rfl

/-- What reading owes to the values, items and fields whose text is no longer than the fuel. -/
structure Reads (fuel : ℕ) : Prop where
  value : ∀ j rest, (print j).length ≤ fuel → Stops rest → read fuel (print j ++ rest) = some (j, rest)
  items : ∀ items rest, items ≠ [] → (printItems items).length ≤ fuel →
    readItems fuel (printItems items ++ rest) = some (items, rest)
  fields : ∀ fields rest, fields ≠ [] → (printFields fields).length ≤ fuel →
    readFields fuel (printFields fields ++ rest) = some (fields, rest)

theorem reads_zero : Reads 0 where
  value j rest h _ := by
    obtain ⟨c, text, htext, -⟩ := print_cons j
    rw [htext] at h
    cases h
  items items rest hne h := by
    obtain ⟨item, items, rfl⟩ := List.exists_cons_of_ne_nil hne
    rw [printItems_cons] at h
    split at h <;> simp at h
  fields fields rest hne h := by
    obtain ⟨⟨key, j⟩, fields, rfl⟩ := List.exists_cons_of_ne_nil hne
    rw [printFields_cons] at h
    simp [quoted] at h

theorem readItems_succ {fuel : ℕ} (ih : Reads fuel) (items : List Json) (rest : List Char) (hne : items ≠ [])
    (hlength : (printItems items).length ≤ fuel + 1) :
    readItems (fuel + 1) (printItems items ++ rest) = some (items, rest) := by
  obtain ⟨item, items, rfl⟩ := List.exists_cons_of_ne_nil hne
  rw [printItems_cons, List.length_append] at hlength
  rw [printItems_cons, readItems, List.append_assoc]
  by_cases hitems : items = []
  · rw [if_pos hitems, List.length_singleton] at hlength
    rw [if_pos hitems, List.singleton_append, ih.value item _ (by omega) (stops_cons rfl (by decide)), hitems]
    rfl
  · rw [if_neg hitems, List.length_cons] at hlength
    rw [if_neg hitems, List.cons_append, ih.value item _ (by omega) (stops_cons rfl (by decide)), Option.bind_some]
    simp only [ih.items items rest hitems (by omega), Option.map_some]

theorem readFields_succ {fuel : ℕ} (ih : Reads fuel) (fields : List (String × Json)) (rest : List Char)
    (hne : fields ≠ []) (hlength : (printFields fields).length ≤ fuel + 1) :
    readFields (fuel + 1) (printFields fields ++ rest) = some (fields, rest) := by
  obtain ⟨⟨key, j⟩, fields, rfl⟩ := List.exists_cons_of_ne_nil hne
  rw [printFields_cons, List.length_append, List.length_append, List.length_cons] at hlength
  rw [printFields_cons, List.append_assoc, List.append_assoc, quoted_append, readFields]
  simp only [List.cons_append, readQuoted_quoted, Option.bind_some, String.ofList_toList]
  by_cases hfields : fields = []
  · rw [if_pos hfields, List.length_singleton] at hlength
    rw [if_pos hfields, List.singleton_append, ih.value j _ (by omega) (stops_cons rfl (by decide)), hfields]
    rfl
  · rw [if_neg hfields, List.length_cons] at hlength
    rw [if_neg hfields, List.cons_append, ih.value j _ (by omega) (stops_cons rfl (by decide)), Option.bind_some]
    simp only [ih.fields fields rest hfields (by omega), Option.map_some]

/-- An object is read whole whatever follows it. -/
theorem readObject_succ {fuel : ℕ} (ih : Reads fuel) (fields : List (String × Json)) (rest : List Char)
    (hlength : (print (object fields)).length ≤ fuel + 1) :
    read (fuel + 1) (print (object fields) ++ rest) = some (object fields, rest) := by
  rw [print, List.length_cons] at hlength
  rw [print]
  by_cases hne : fields = []
  · rw [hne, printFields]
    rfl
  · obtain ⟨⟨key, j⟩, fields', rfl⟩ := List.exists_cons_of_ne_nil hne
    rw [List.cons_append, read, ih.fields _ rest hne (by omega)]
    · rfl
    · intro rest' heq
      rw [printFields_cons, quoted] at heq
      exact absurd (List.cons.inj heq).1 (by decide)

theorem read_succ {fuel : ℕ} (ih : Reads fuel) (j : Json) (rest : List Char)
    (hlength : (print j).length ≤ fuel + 1) (hstops : Stops rest) :
    read (fuel + 1) (print j ++ rest) = some (j, rest) := by
  cases j with
  | null => rw [print]; rfl
  | bool b => cases b <;> rw [print] <;> rfl
  | number q => rw [print, read_number fuel q hstops]
  | string text =>
    rw [print, quoted_append, read, readQuoted_quoted]
    rfl
  | array items =>
    rw [print, List.length_cons] at hlength
    rw [print]
    by_cases hne : items = []
    · rw [hne, printItems]; rfl
    · obtain ⟨item, items', rfl⟩ := List.exists_cons_of_ne_nil hne
      obtain ⟨c, text, htext, hc⟩ := print_cons item
      rw [List.cons_append, read, ih.items _ rest hne (by omega)]
      · rfl
      · intro rest' heq
        rw [printItems_cons, htext] at heq
        exact hc (List.cons.inj heq).1
  | object fields => exact readObject_succ ih fields rest hlength

theorem reads (fuel : ℕ) : Reads fuel := by
  induction fuel with
  | zero => exact reads_zero
  | succ fuel ih => exact ⟨read_succ ih, readItems_succ ih, readFields_succ ih⟩

/-- **Reading undoes printing**, whatever follows the value. -/
theorem read_print (j : Json) {rest : List Char} (h : Stops rest) :
    read (print j).length (print j ++ rest) = some (j, rest) :=
  (reads _).value j rest le_rfl h

/-- A value's text alone is read back. -/
theorem read_print_nil (j : Json) : read (print j).length (print j) = some (j, []) := by
  have h : read (print j).length (print j ++ []) = some (j, []) := read_print j fun c hc => nomatch hc
  rwa [List.append_nil] at h

theorem read_object (fuel : ℕ) (fields : List (String × Json)) (rest : List Char)
    (h : (print (object fields)).length ≤ fuel) :
    read fuel (print (object fields) ++ rest) = some (object fields, rest) := by
  rw [print, List.length_cons] at h
  obtain ⟨fuel, rfl⟩ : ∃ n, fuel = n + 1 := ⟨fuel - 1, by omega⟩
  exact readObject_succ (reads fuel) fields rest (by rw [print, List.length_cons]; exact h)

/-- No value's text starts with white space. -/
theorem print_head (j : Json) : ∃ c text, print j = c :: text ∧ 32 < c.toNat := by
  cases j with
  | null => exact ⟨_, _, by rw [print]; rfl, by decide⟩
  | bool b => cases b <;> exact ⟨_, _, by rw [print]; rfl, by decide⟩
  | number q =>
    obtain ⟨c, text, htext, hdigit⟩ := natText_cons q.num.natAbs
    by_cases hneg : q.num < 0
    · exact ⟨'-', _, by rw [print, numberText, if_pos hneg]; rfl, by decide⟩
    · refine ⟨c, _, by rw [print, numberText, if_neg hneg, htext]; rfl, ?_⟩
      simp only [Char.isDigit, Bool.and_eq_true, decide_eq_true_eq, UInt32.le_iff_toNat_le, ge_iff_le] at hdigit
      have : 48 ≤ c.toNat := hdigit.1
      omega
  | string text => exact ⟨_, _, by rw [print, quoted]; rfl, by decide⟩
  | array items => exact ⟨_, _, by rw [print], by decide⟩
  | object fields => exact ⟨_, _, by rw [print], by decide⟩

/-! ## One line -/

/-- A text of characters that are not control characters. -/
def Printable (text : List Char) : Prop := ∀ c ∈ text, 32 ≤ c.toNat

theorem printable_append {text text' : List Char} (h : Printable text) (h' : Printable text') :
    Printable (text ++ text') := fun c hc => (List.mem_append.mp hc).elim (h c) (h' c)

theorem printable_cons {c : Char} {text : List Char} (hc : 32 ≤ c.toNat) (h : Printable text) :
    Printable (c :: text) := List.forall_mem_cons.mpr ⟨hc, h⟩

theorem printable_of_all {text : List Char} (h : text.all (fun c => decide (32 ≤ c.toNat)) = true) :
    Printable text := fun c hc => of_decide_eq_true (List.all_eq_true.mp h c hc)

theorem printable_nil : Printable [] := List.forall_mem_nil _

theorem printable_escape (c : Char) : Printable (escape c) := by
  by_cases hcontrol : c.toNat < 32
  · obtain ⟨n, hn, rfl⟩ : ∃ n < 32, c = Char.ofNat n := ⟨c.toNat, hcontrol, (Char.ofNat_toNat c).symm⟩
    refine printable_of_all ?_
    interval_cases n <;> decide
  · have hself : Printable [c] := printable_cons (Nat.le_of_not_lt hcontrol) printable_nil
    rw [escape]
    split_ifs
    all_goals first | exact hself | exact printable_of_all (by decide)

theorem printable_quoted (text : List Char) : Printable (quoted text) := by
  refine printable_append (printable_cons (by decide) fun c hc => ?_) (printable_cons (by decide) printable_nil)
  obtain ⟨d, -, hd⟩ := List.mem_flatMap.mp hc
  exact printable_escape d c hd

theorem printable_natText (n : ℕ) : Printable (natText n) := fun c hc => by
  have hdigit := Nat.isDigit_of_mem_toDigits (by decide) (by decide) hc
  simp only [Char.isDigit, Bool.and_eq_true, decide_eq_true_eq, UInt32.le_iff_toNat_le, ge_iff_le] at hdigit
  have : 48 ≤ c.toNat := hdigit.1
  omega

theorem printable_numberText (q : ℚ) : Printable (numberText q) := by
  rw [numberText]
  refine printable_append (printable_append ?_ (printable_natText _)) ?_
  · split_ifs
    · exact printable_cons (by decide) printable_nil
    · exact printable_nil
  · split_ifs
    · exact printable_nil
    · exact printable_cons (by decide) (printable_natText _)

mutual

theorem printable_print : ∀ j, Printable (print j)
  | null => by rw [print]; exact printable_of_all (by decide)
  | bool true => by rw [print]; exact printable_of_all (by decide)
  | bool false => by rw [print]; exact printable_of_all (by decide)
  | number q => by rw [print]; exact printable_numberText q
  | string text => by rw [print]; exact printable_quoted text
  | array items => by rw [print]; exact printable_cons (by decide) (printable_printItems items)
  | object fields => by rw [print]; exact printable_cons (by decide) (printable_printFields fields)

theorem printable_printItems : ∀ items, Printable (printItems items)
  | [] => by rw [printItems]; exact printable_cons (by decide) printable_nil
  | item :: items => by
    rw [printItems_cons]
    refine printable_append (printable_print item) ?_
    split_ifs
    · exact printable_cons (by decide) printable_nil
    · exact printable_cons (by decide) (printable_printItems items)

theorem printable_printFields : ∀ fields, Printable (printFields fields)
  | [] => by rw [printFields]; exact printable_cons (by decide) printable_nil
  | (key, j) :: fields => by
    rw [printFields_cons]
    refine printable_append (printable_append (printable_quoted _)
      (printable_cons (by decide) (printable_print j))) ?_
    split_ifs
    · exact printable_cons (by decide) printable_nil
    · exact printable_cons (by decide) (printable_printFields fields)

end

theorem newline_print (j : Json) : '\n' ∉ print j := fun h => absurd (printable_print j _ h) (by decide)

end Json

/-- The library that writes compact text. -/
def JsonText.compact : JsonText where
  toJson := Json.print
  fromJson text := (Json.read text.length text).map Prod.fst
  fromJson_toJson fields := by
    rw [Json.read_print_nil]
    rfl
  newline fields := Json.newline_print _

end Speecher
