import Speecher.Bindings.Android

/-!
# The rows of a CSV file

Both ports read a vocabulary file with the same scanner: one pass that keeps the row and the cell it is in, looks one
character ahead at a quote in a quoted cell, and drops the rows that are blank. They differ in what is blank.

Where a quoted cell ends is also told without looking ahead: `Place.next` moves through the text a character at a time,
and waits after a quote to see whether another follows.

* `read_written`: a table written with every cell quoted is read back, without its blank rows.
* `read_eq_error_iff`: a text is refused exactly when it ends in a quoted cell (`EndsQuoted`).
* `csvRows_written`: both of both ports.
-/

namespace Speecher

namespace Csv

/-! ## The scanner -/

/-- What the scanner holds: the rows read, the row and the cell it is in, and whether that is in quotes. -/
structure Scan where
  rows : List (List Text) := []
  row : List Text := []
  field : Text := []
  quoted : Bool := false

def unterminated : Text := "CSV contains an unterminated quoted field.".toList

namespace Scan

variable (blank : Text → Bool) (s : Scan)

def append (character : Char) : Scan := { s with field := s.field ++ [character] }

def endField : Scan := { s with row := s.row ++ [s.field], field := [] }

/-- A row of nothing but blank text is dropped. -/
def endRow : Scan :=
  let row := s.row ++ [s.field]
  { s with rows := if blank row.flatten then s.rows else s.rows ++ [row], row := [], field := [] }

/-- A character outside quotes. -/
def outside (character : Char) : Scan :=
  if character = '"' ∧ s.field.isEmpty then { s with quoted := true }
  else if character = ',' then s.endField
  else if character = '\n' then s.endRow blank
  else if character ≠ '\r' then s.append character
  else s

/-- The scan of a text. -/
def scan : Scan → Text → Scan
  | s, [] => s
  | s, character :: rest =>
    if s.quoted then
      if character = '"' then
        match rest with
        | '"' :: rest' => scan (s.append character) rest'
        | rest => scan { s with quoted := false } rest
      else scan (s.append character) rest
    else scan (s.outside blank character) rest

end Scan

/-- The rows of a text, or the error. -/
def read (blank : Text → Bool) (text : Text) : Except Text (List (List Text)) :=
  let s := Scan.scan blank {} text
  if s.quoted then .error unterminated else .ok (s.endRow blank).rows

end Csv

def csvRows (text : Text) : Except Text (List (List Text)) := Csv.read (fun row => (trimmed row).isEmpty) text

def Android.csvRows (text : Text) : Except Text (List (List Text)) := Csv.read Android.isBlank text

namespace Csv

/-! ## Writing a table -/

/-- A text with its quotes doubled. -/
def doubled (cell : Text) : Text := cell.flatMap fun c => if c = '"' then ['"', '"'] else [c]

def quotedCell (cell : Text) : Text := '"' :: doubled cell ++ ['"']

def lineEnd (crlf : Bool) : Text := if crlf then ['\r', '\n'] else ['\n']

/-- A row with every cell in quotes, commas between them, and its line end. -/
def writtenRow (row : List Text × Bool) : Text := [','].intercalate (row.1.map quotedCell) ++ lineEnd row.2

/-- A table of rows, each with the line end it has. -/
def written (table : List (List Text × Bool)) : Text := table.flatMap writtenRow

variable {blank : Text → Bool} {s : Scan} {rest : Text}

namespace Scan

theorem scan_outside (h : s.quoted = false) (c : Char) (rest : Text) :
    scan blank s (c :: rest) = scan blank (s.outside blank c) rest := by
  rw [scan.eq_def]
  exact if_neg (ne_true_of_eq_false h)

theorem scan_append (h : s.quoted = true) {c : Char} (hc : c ≠ '"') (rest : Text) :
    scan blank s (c :: rest) = scan blank (s.append c) rest := by
  rw [scan.eq_def]
  exact (if_pos h).trans (if_neg hc)

theorem scan_doubledQuote (h : s.quoted = true) (rest : Text) :
    scan blank s ('"' :: '"' :: rest) = scan blank (s.append '"') rest := by
  rw [scan.eq_def]
  exact (if_pos h).trans (if_pos rfl)

theorem scan_endQuote (h : s.quoted = true) (hrest : rest.head? ≠ some '"') :
    scan blank s ('"' :: rest) = scan blank { s with quoted := false } rest := by
  rw [scan.eq_def]
  refine ((if_pos h).trans (if_pos rfl)).trans ?_
  split
  · exact absurd rfl hrest
  · rfl

/-- A quoted text is read up to the quote that ends it. -/
theorem scan_doubled (h : s.quoted = true) (cell : Text) (hrest : rest.head? ≠ some '"') :
    scan blank s (doubled cell ++ '"' :: rest) =
      scan blank { s with field := s.field ++ cell, quoted := false } rest := by
  induction cell generalizing s with
  | nil =>
    rw [doubled, List.flatMap_nil, List.nil_append, scan_endQuote h hrest, List.append_nil]
  | cons c cell ih =>
    have happend : scan blank s (doubled (c :: cell) ++ '"' :: rest) =
        scan blank (s.append c) (doubled cell ++ '"' :: rest) := by
      rw [doubled, List.flatMap_cons, List.append_assoc]
      by_cases hc : c = '"'
      · rw [if_pos hc, hc]
        exact scan_doubledQuote h _
      · rw [if_neg hc]
        exact scan_append h hc _
    rw [happend, ih (s := s.append c) h]
    show scan blank { s with field := (s.field ++ [c]) ++ cell, quoted := false } rest = _
    rw [List.append_assoc, List.singleton_append]

theorem scan_quotedCell (h : s.quoted = false) (hfield : s.field = []) (cell : Text) (hrest : rest.head? ≠ some '"') :
    scan blank s (quotedCell cell ++ rest) = scan blank { s with field := cell } rest := by
  have hopen : s.outside blank '"' = { s with quoted := true } := if_pos ⟨rfl, by rw [hfield]; rfl⟩
  rw [quotedCell, List.append_assoc, List.cons_append, scan_outside h, hopen, List.singleton_append,
    scan_doubled (s := { s with quoted := true }) rfl cell hrest]
  show scan blank { s with field := s.field ++ cell, quoted := false } rest = _
  rw [hfield, List.nil_append, ← h]

theorem scan_lineEnd (h : s.quoted = false) (crlf : Bool) (rest : Text) :
    scan blank s (lineEnd crlf ++ rest) = scan blank (s.endRow blank) rest := by
  have hnewline : scan blank s ('\n' :: rest) = scan blank (s.endRow blank) rest := scan_outside h '\n' rest
  cases crlf with
  | false => exact hnewline
  | true => exact (scan_outside h '\r' ('\n' :: rest)).trans hnewline

theorem head?_lineEnd (crlf : Bool) (rest : Text) : (lineEnd crlf ++ rest).head? ≠ some '"' := by
  cases crlf <;> exact fun h => absurd (Option.some.inj h) (by decide)

/-- The cells of a row are read to its end. -/
theorem scan_cells (h : s.quoted = false) (hfield : s.field = []) {row : List Text} (hrow : row ≠ []) (crlf : Bool)
    (rest : Text) : scan blank s (writtenRow (row, crlf) ++ rest) =
      scan blank { s with
        rows := if blank (s.row ++ row).flatten then s.rows else s.rows ++ [s.row ++ row], row := [] } rest := by
  induction row generalizing s with
  | nil => exact absurd rfl hrow
  | cons cell row ih =>
    rw [writtenRow, List.map_cons, List.append_assoc]
    cases row with
    | nil =>
      rw [List.map_nil, List.intercalate_singleton, scan_quotedCell h hfield cell (head?_lineEnd crlf rest),
        scan_lineEnd (s := { s with field := cell }) h, endRow, hfield]
    | cons next row =>
      have hcomma : ∀ rest' : Text, ([','] ++ rest').head? ≠ some '"' := fun _ h => absurd (Option.some.inj h) (by decide)
      rw [List.map_cons, List.intercalate_cons_cons, ← List.map_cons, List.append_assoc, List.append_assoc,
        scan_quotedCell h hfield cell (hcomma _), List.singleton_append,
        scan_outside (s := { s with field := cell }) h]
      have hnext : outside blank { s with field := cell } ',' = { s with row := s.row ++ [cell], field := [] } := rfl
      have hih := ih (s := { s with row := s.row ++ [cell], field := [] }) h rfl (List.cons_ne_nil next row)
      rw [writtenRow, List.append_assoc] at hih
      rw [hnext, hih, List.append_assoc, List.singleton_append, hfield]

end Scan

/-! ## The rows are read back -/

/-- Text is blank when its parts are, as both ports have it. -/
def Splits (blank : Text → Bool) : Prop := ∀ cells : List Text, blank cells.flatten = cells.all blank

/-- The rows that are not of blank cells only. -/
def rowsWithText (blank : Text → Bool) (table : List (List Text × Bool)) : List (List Text) :=
  (table.map Prod.fst).filter fun row => !row.all blank

theorem scan_row (hblank : Splits blank) (h : s.quoted = false) (hrow : s.row = []) (hfield : s.field = [])
    (row : List Text × Bool) (rest : Text) : Scan.scan blank s (writtenRow row ++ rest) =
      Scan.scan blank { s with rows := s.rows ++ rowsWithText blank [row] } rest := by
  obtain ⟨cells, crlf⟩ := row
  by_cases hcells : cells = []
  · have hdropped : s.endRow blank = s := by
      have hnil : blank [] = true := hblank []
      simp [Scan.endRow, hrow, hfield, hnil]
      rw [← hrow, ← hfield]
    rw [hcells]
    show Scan.scan blank s (lineEnd crlf ++ rest) = _
    rw [Scan.scan_lineEnd h, hdropped]
    show _ = Scan.scan blank { s with rows := s.rows ++ [] } rest
    rw [List.append_nil]
  · rw [Scan.scan_cells h hfield hcells crlf rest, hrow, List.nil_append, hblank]
    cases hall : cells.all blank with
    | true => simp [rowsWithText, hall]
    | false => simp [rowsWithText, hall]

theorem scan_written (hblank : Splits blank) (h : s.quoted = false) (hrow : s.row = []) (hfield : s.field = [])
    (table : List (List Text × Bool)) :
    Scan.scan blank s (written table) = { s with rows := s.rows ++ rowsWithText blank table } := by
  induction table generalizing s with
  | nil =>
    show s = { s with rows := s.rows ++ [] }
    rw [List.append_nil]
  | cons row table ih =>
    rw [written, List.flatMap_cons, scan_row hblank h hrow hfield,
      ← written, ih (s := { s with rows := s.rows ++ rowsWithText blank [row] }) h hrow hfield]
    show Scan.mk _ _ _ _ = Scan.mk _ _ _ _
    rw [List.append_assoc, rowsWithText, rowsWithText, rowsWithText, ← List.filter_append, ← List.map_append,
      List.singleton_append]

/-- **A table written with every cell in quotes is read back**, without its rows of blank cells only. -/
theorem read_written (hblank : Splits blank) (table : List (List Text × Bool)) :
    read blank (written table) = .ok (rowsWithText blank table) := by
  have hnil : blank [] = true := hblank []
  rw [read, scan_written hblank rfl rfl rfl]
  simp [Scan.endRow, hnil]

/-! ## Where a text ends -/

/-- Where a text is: outside quotes or in a quoted cell, which is empty so far or not, or behind a quote in one, which
ends the cell unless another follows. -/
inductive Place where
  | outside (empty : Bool)
  | quoted (empty : Bool)
  | quote (empty : Bool)
  deriving DecidableEq

namespace Place

/-- A character outside quotes. A quote starts a quoted cell where the cell is empty, and is text elsewhere. -/
def nextOutside (empty : Bool) (c : Char) : Place :=
  if c = '"' ∧ empty then .quoted true
  else if c = ',' ∨ c = '\n' then .outside true
  else if c = '\r' then .outside empty
  else .outside false

def next : Place → Char → Place
  | .outside empty, c => nextOutside empty c
  | .quoted empty, c => if c = '"' then .quote empty else .quoted false
  | .quote empty, c => if c = '"' then .quoted false else nextOutside empty c

def isQuoted : Place → Bool
  | .quoted _ => true
  | _ => false

end Place

/-- Where a text ends. -/
def place (text : Text) : Place := text.foldl Place.next (.outside true)

/-- The text ends in a quoted cell: from a quote where an empty cell is, every quote is doubled. -/
def EndsQuoted (text : Text) : Prop :=
  ∃ before cell, text = before ++ '"' :: doubled cell ∧ place before = .outside true

theorem foldl_doubled (empty : Bool) (cell : Text) :
    (doubled cell).foldl Place.next (.quoted empty) = .quoted (empty && cell.isEmpty) := by
  induction cell generalizing empty with
  | nil => cases empty <;> rfl
  | cons c cell ih =>
    have hfalse := ih false
    rw [Bool.false_and] at hfalse
    rw [List.isEmpty_cons, Bool.and_false, doubled, List.flatMap_cons, List.foldl_append]
    by_cases hc : c = '"'
    · rw [if_pos hc]
      exact hfalse
    · rw [if_neg hc, List.foldl_cons, List.foldl_nil, Place.next, if_neg hc]
      exact hfalse

theorem doubled_append (cell cell' : Text) : doubled (cell ++ cell') = doubled cell ++ doubled cell' :=
  List.flatMap_append

/-- Where a text is in a quoted cell or behind a quote in one, the cell is there. -/
theorem exists_cell (text : Text) :
    (∀ empty, place text = .quoted empty → EndsQuoted text) ∧
      ∀ empty, place text = .quote empty → ∃ quoted, text = quoted ++ ['"'] ∧ EndsQuoted quoted := by
  induction text using List.reverseRecOn with
  | nil => exact ⟨fun _ h => (nomatch h), fun _ h => (nomatch h)⟩
  | append_singleton text c ih =>
    have hplace : place (text ++ [c]) = (place text).next c := List.foldl_append
    have hcell : ∀ {d}, EndsQuoted text → d ≠ '"' → EndsQuoted (text ++ [d]) := by
      rintro d ⟨before, cell, rfl, hbefore⟩ hd
      refine ⟨before, cell ++ [d], ?_, hbefore⟩
      rw [doubled_append, doubled, doubled, List.flatMap_singleton, if_neg hd, List.append_assoc, List.cons_append]
    rw [hplace]
    cases htext : place text with
    | outside empty =>
      rw [Place.next, Place.nextOutside]
      refine ⟨fun e h => ?_, fun e h => ?_⟩
      · split at h
        · rename_i hopen
          refine ⟨text, [], by rw [hopen.1]; rfl, ?_⟩
          rw [htext, hopen.2]
        · split_ifs at h
      · split_ifs at h
    | quoted empty =>
      rw [Place.next]
      by_cases hc : c = '"'
      · rw [if_pos hc, hc]
        exact ⟨fun _ h => (nomatch h), fun _ _ => ⟨text, rfl, ih.1 empty htext⟩⟩
      · rw [if_neg hc]
        exact ⟨fun _ _ => hcell (ih.1 empty htext) hc, fun _ h => (nomatch h)⟩
    | quote empty =>
      rw [Place.next]
      by_cases hc : c = '"'
      · rw [if_pos hc, hc]
        refine ⟨fun _ _ => ?_, fun _ h => (nomatch h)⟩
        obtain ⟨quoted, rfl, before, cell, rfl, hbefore⟩ := ih.2 empty htext
        refine ⟨before, cell ++ ['"'], ?_, hbefore⟩
        rw [doubled_append, List.append_assoc, List.append_assoc]
        rfl
      · rw [if_neg hc, Place.nextOutside, if_neg (fun h => hc h.1)]
        exact ⟨fun _ h => by split_ifs at h, fun _ h => by split_ifs at h⟩

theorem endsQuoted_iff (text : Text) : EndsQuoted text ↔ (place text).isQuoted = true := by
  constructor
  · rintro ⟨before, cell, rfl, hbefore⟩
    have hopen : (Place.outside true).next '"' = .quoted true := rfl
    rw [place, List.foldl_append, ← place, hbefore, List.foldl_cons, hopen, foldl_doubled]
    rfl
  · intro h
    cases htext : place text with
    | quoted empty => exact (exists_cell text).1 empty htext
    | outside empty => rw [htext] at h; cases h
    | quote empty => rw [htext] at h; cases h

/-- Behind a quote that ends its cell the text is outside quotes. -/
theorem isQuoted_quote (empty : Bool) {text : Text} (h : text.head? ≠ some '"') :
    (text.foldl Place.next (.quote empty)).isQuoted = (text.foldl Place.next (.outside empty)).isQuoted := by
  cases text with
  | nil => rfl
  | cons c rest =>
    have hc : c ≠ '"' := fun hc => h (congrArg some hc)
    have hnext : (Place.quote empty).next c = (Place.outside empty).next c := if_neg hc
    rw [List.foldl_cons, List.foldl_cons, hnext]

/-- The scanner is where a text is. -/
def Scan.place (s : Scan) : Place := if s.quoted then .quoted s.field.isEmpty else .outside s.field.isEmpty

theorem Scan.place_of_quoted (h : s.quoted = true) : s.place = .quoted s.field.isEmpty := if_pos h

theorem Scan.place_of_not_quoted (h : s.quoted = false) : s.place = .outside s.field.isEmpty :=
  if_neg (ne_true_of_eq_false h)

theorem Scan.place_outside (h : s.quoted = false) (c : Char) :
    (s.outside blank c).place = Place.nextOutside s.field.isEmpty c := by
  rw [outside, Place.nextOutside]
  by_cases hopen : c = '"' ∧ s.field.isEmpty = true
  · rw [if_pos hopen, if_pos hopen, place_of_quoted rfl]
    exact congrArg Place.quoted hopen.2
  · rw [if_neg hopen, if_neg hopen]
    by_cases hcomma : c = ','
    · rw [if_pos hcomma, if_pos (.inl hcomma)]
      exact place_of_not_quoted h
    · rw [if_neg hcomma]
      by_cases hline : c = '\n'
      · rw [if_pos hline, if_pos (.inr hline)]
        exact place_of_not_quoted h
      · rw [if_neg hline, if_neg (not_or.mpr ⟨hcomma, hline⟩)]
        by_cases hreturn : c = '\r'
        · rw [if_neg (not_not.mpr hreturn), if_pos hreturn, place_of_not_quoted h]
        · have happend : (s.append c).place = .outside (s.field ++ [c]).isEmpty := place_of_not_quoted h
          rw [if_pos hreturn, if_neg hreturn, happend]
          simp

/-- The scanner ends in a quoted cell when the text does. -/
theorem quoted_scan (blank : Text → Bool) : ∀ (text : Text) (s : Scan),
    (s.scan blank text).quoted = (text.foldl Place.next s.place).isQuoted
  | [], s => by
    rw [List.foldl_nil, Scan.place, Scan.scan]
    cases s.quoted <;> rfl
  | c :: rest, s => by
    rw [List.foldl_cons]
    cases hquoted : s.quoted with
    | false =>
      have hnext : s.place.next c = (s.outside blank c).place := by
        rw [Scan.place_of_not_quoted hquoted, Scan.place_outside hquoted, Place.next]
      rw [Scan.scan_outside hquoted, quoted_scan blank rest, hnext]
    | true =>
      have hplace := Scan.place_of_quoted hquoted
      by_cases hc : c = '"'
      · obtain rfl := hc
        by_cases hrest : rest.head? = some '"'
        · -- A quote for two.
          obtain ⟨rest', rfl⟩ := List.head?_eq_some_iff.mp hrest
          have happend : (s.append '"').place = .quoted false := by simp [Scan.place, Scan.append, hquoted]
          rw [Scan.scan_doubledQuote hquoted, quoted_scan blank rest', List.foldl_cons, hplace, happend]
          rfl
        · have hnext : s.place.next '"' = .quote s.field.isEmpty := by
            rw [hplace]
            rfl
          rw [Scan.scan_endQuote hquoted hrest, quoted_scan blank rest, hnext, isQuoted_quote _ hrest]
          rfl
      · have hnext : s.place.next c = (s.append c).place := by
          rw [hplace, Place.next, if_neg hc]
          simp [Scan.place, Scan.append, hquoted]
        rw [Scan.scan_append hquoted hc, quoted_scan blank rest, hnext]
termination_by text => text.length

/-- **A text is refused exactly when it ends in a quoted cell**, and is read otherwise. -/
theorem read_eq_error_iff (blank : Text → Bool) (text : Text) :
    (read blank text = .error unterminated ↔ EndsQuoted text) ∧
      (¬EndsQuoted text ↔ ∃ rows, read blank text = .ok rows) := by
  have hquoted : (Scan.scan blank {} text).quoted = (place text).isQuoted := quoted_scan blank text {}
  rw [endsQuoted_iff, ← hquoted, read]
  cases (Scan.scan blank {} text).quoted with
  | true => exact ⟨⟨fun _ => rfl, fun _ => rfl⟩, ⟨fun h => absurd rfl h, fun ⟨_, h⟩ => nomatch h⟩⟩
  | false =>
    exact ⟨⟨fun h => (nomatch h), fun h => absurd h Bool.false_ne_true⟩,
      ⟨fun _ => ⟨_, rfl⟩, fun _ => Bool.false_ne_true⟩⟩

theorem splits_trimmed : Splits fun text => (trimmed text).isEmpty := by
  have hblank : ∀ text : Text, (trimmed text).isEmpty = text.all isSpace := fun text => by
    rw [Bool.eq_iff_iff, List.isEmpty_iff, trimmed, stripped_eq_nil, List.all_eq_true]
  intro cells
  rw [show (fun text : Text => (trimmed text).isEmpty) = fun text => text.all isSpace from funext hblank]
  exact List.all_flatten

theorem splits_isBlank : Splits Android.isBlank := fun _ => List.all_flatten

end Csv

open Csv in
/-- **The readers invert the writer**, and refuse a text exactly when it ends in a quoted cell. -/
theorem csvRows_written :
    (∀ table, csvRows (written table) =
        .ok ((table.map Prod.fst).filter fun row => !row.all fun cell => (trimmed cell).isEmpty)) ∧
      (∀ table, Android.csvRows (written table) =
        .ok ((table.map Prod.fst).filter fun row => !row.all Android.isBlank)) ∧
      ∀ text, ((csvRows text = .error unterminated ↔ EndsQuoted text) ∧
          (¬EndsQuoted text ↔ ∃ rows, csvRows text = .ok rows)) ∧
        (Android.csvRows text = .error unterminated ↔ EndsQuoted text) ∧
          (¬EndsQuoted text ↔ ∃ rows, Android.csvRows text = .ok rows) :=
  ⟨read_written splits_trimmed, read_written splits_isBlank,
    fun text => ⟨read_eq_error_iff _ text, read_eq_error_iff _ text⟩⟩

end Speecher
