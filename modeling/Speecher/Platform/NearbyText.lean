import Mathlib.Data.Int.Notation
import Speecher.Foundations.Utf16Windows

/-!
# The text around the caret

A target's field is read through AT-SPI: `populateText` asks for the selection or the caret, reads what lies within
`nearbyTextChars` of it, and keeps what is before and after it in `nearbyTextBefore` and `nearbyTextAfter`. Toolkits
count differently: Qt counts UTF-16 units and others count characters, so the read is cut in the toolkit's units, the
text read is indexed in UTF-16 units, and `setNearbyText` cuts it again in those and drops the half of a character that
its own cut leaves.

The accessible object is a parameter, `AtspiText`, and `Field.accessible` is a field as either kind of toolkit shows it:
half a character at the edge of a read arrives as one replacement character. That is no half any more to
`setNearbyText`, so with Qt a cut inside a pair leaves a replacement character in the text.

* `reads_characters`: where offsets count characters, both texts are read whole.
* `reads_units`: where they count units, each text is its longest part, and a replacement character where a pair was
  cut.
* **`nearbyText_whole_iff`**: the text around the caret is read whole exactly when the toolkit counts characters or
  neither cut falls inside a character.
-/

namespace Speecher.NearbyText

/-! ## The model -/

/-- `QString::left`. -/
def left (n : ℤ) (text : List ℕ) : List ℕ := if n < 0 then text else text.take n.toNat

/-- `QString::right`. -/
def right (n : ℤ) (text : List ℕ) : List ℕ := if n < 0 then text else lastUnits n.toNat text

/-- `QString::mid` of so many units. -/
def mid (position n : ℤ) (text : List ℕ) : List ℕ :=
  if position < 0 then text.take (n + position).toNat else (text.drop position.toNat).take n.toNat

/-- What `populateText` knows and learns of a target. -/
structure Target where
  toolkit : List Char := []
  nearbyTextBefore : List ℕ := []
  nearbyTextAfter : List ℕ := []
  selectedText : List ℕ := []
  caretOffset : ℤ := -1
  selectionStart : ℤ := -1
  selectionEnd : ℤ := -1
  nearbyTextRead : Bool := false

def nearbyTextChars : ℕ := 240

def qtToolkit : List Char := ['Q', 't']

/-- The length of a text in a toolkit's offsets: Qt counts UTF-16 units, other toolkits characters. -/
def textOffsetLength (toolkit : List Char) (text : List ℕ) : ℕ :=
  if toolkit = qtToolkit then text.length else (utf16Text '\uFFFD' text).length

/-- What an accessible text answers. -/
structure AtspiText where
  characterCount : ℤ
  caretOffset : ℤ
  /-- The first selection, if there is one. -/
  selection : Option (ℤ × ℤ)
  /-- The text of a range, unless the read fails. -/
  text : ℤ → ℤ → Option (List ℕ)

/-- The second half of a pair at the front goes. -/
def withoutLeadingHalf (text : List ℕ) : List ℕ := if text.head?.any isLowSurrogate then text.tail else text

/-- The first half of a pair at the back goes. -/
def withoutTrailingHalf (text : List ℕ) : List ℕ := if text.getLast?.any isHighSurrogate then text.dropLast else text

def Target.setNearbyText (text : List ℕ) (start stop : ℤ) (target : Target) : Target :=
  { target with
    nearbyTextRead := true
    nearbyTextBefore := withoutLeadingHalf (right nearbyTextChars (left start text))
    nearbyTextAfter := withoutTrailingHalf (mid stop nearbyTextChars text) }

/-- The loop of `stringIndex`, so many characters from an index. -/
def indexFrom (text : List ℕ) : ℕ → ℕ → ℕ
  | 0, index => index
  | characters + 1, index =>
    if h : index < text.length then indexFrom text characters (index + if isHighSurrogate text[index] then 2 else 1)
    else index

/-- Where an offset of the toolkit falls in a text, as a `QString` index. -/
def stringIndex (toolkit : List Char) (text : List ℕ) (offset : ℤ) : ℤ :=
  if toolkit = qtToolkit then min offset text.length else min (indexFrom text offset.toNat 0) text.length

/-- The caret and the selection, as `populateText` takes them over. -/
def Target.select (text : AtspiText) (target : Target) : Target :=
  match text.selection with
  | none => { target with caretOffset := text.caretOffset }
  | some (start, stop) =>
    { target with
      caretOffset := text.caretOffset
      selectionStart := start
      selectionEnd := stop
      selectedText := if start < stop then (text.text start stop).getD [] else target.selectedText }

/-- The text within `nearbyTextChars` of a range. A failed read leaves the nearby text unread, not empty. -/
def Target.readAround (text : AtspiText) (start stop : ℤ) (target : Target) : Target :=
  let first := max 0 (start - nearbyTextChars)
  match text.text first (min text.characterCount (stop + nearbyTextChars)) with
  | none => target
  | some around =>
    target.setNearbyText around (stringIndex target.toolkit around (start - first))
      (stringIndex target.toolkit around (stop - first))

def populateText (accessible : Option AtspiText) (target : Target) : Target :=
  match accessible with
  | none => target
  | some text =>
    if text.characterCount < 0 ∨ text.caretOffset < 0 then target
    else
      let selecting := target.select text
      if 0 ≤ selecting.selectionStart ∧ selecting.selectionStart < selecting.selectionEnd then
        selecting.readAround text selecting.selectionStart selecting.selectionEnd
      else selecting.readAround text text.caretOffset text.caretOffset

/-! ## Fields -/

/-- A field's text, cut at its selection or caret. Without a selection the caret may be told as an empty one. -/
structure Field where
  before : List Char
  selected : List Char
  after : List Char
  /-- Where the caret of a selection is. -/
  caret : ℕ
  emptySelection : Bool

namespace Field

def text (field : Field) : List Char := field.before ++ field.selected ++ field.after

/-- Where a text ends, in the toolkit's offsets. -/
def offset (toolkit : List Char) (text : List Char) : ℕ := textOffsetLength toolkit (utf16Units text)

/-- A range of a text, half a character at its edge arriving as a replacement character. -/
def range (toolkit : List Char) (text : List Char) (first last : ℤ) : List ℕ :=
  if toolkit = qtToolkit then
    utf16Units (utf16Text '\uFFFD' (((utf16Units text).drop first.toNat).take (last - first).toNat))
  else utf16Units ((text.drop first.toNat).take (last - first).toNat)

/-- A field as a toolkit shows it. -/
def accessible (toolkit : List Char) (field : Field) : AtspiText where
  characterCount := offset toolkit field.text
  caretOffset := if field.selected = [] then offset toolkit field.before else field.caret
  selection :=
    if field.selected = [] then
      if field.emptySelection then some (offset toolkit field.before, offset toolkit field.before) else none
    else some (offset toolkit field.before, offset toolkit (field.before ++ field.selected))
  text first last := some (range toolkit field.text first last)

end Field

/-- What is learned of a field that a toolkit shows. -/
def learned (toolkit : List Char) (field : Field) : Target :=
  populateText (some (field.accessible toolkit)) { toolkit := toolkit }

/-- The texts on both sides are the longest that fit and are cut at characters. -/
def ReadsWhole (field : Field) (target : Target) : Prop :=
  (∃ found, IsLongestEnd nearbyTextChars field.before found ∧ target.nearbyTextBefore = utf16Units found) ∧
    ∃ found, IsLongestBeginning nearbyTextChars field.after found ∧ target.nearbyTextAfter = utf16Units found

/-- The unit `nearbyTextChars` from the end of a text is the second half of a pair. -/
def cutBefore (text : List Char) : Bool :=
  (lastUnits nearbyTextChars (utf16Units text)).head?.any isLowSurrogate

/-- The last of the first `nearbyTextChars` units of a text is the first half of a pair. -/
def cutAfter (text : List Char) : Bool :=
  ((utf16Units text).take nearbyTextChars).getLast?.any isHighSurrogate

/-- `nearbyTextChars` units from the selection, on either side, is the middle of a character. -/
def CutsCharacter (field : Field) : Prop := cutBefore field.before = true ∨ cutAfter field.after = true

/-! ## Reading a field -/

variable {toolkit : List Char} {field : Field}

theorem offset_qt (text : List Char) : Field.offset qtToolkit text = (utf16Units text).length := by
  rw [Field.offset, textOffsetLength, if_pos rfl]

theorem offset_characters (h : toolkit ≠ qtToolkit) (text : List Char) : Field.offset toolkit text = text.length := by
  rw [Field.offset, textOffsetLength, if_neg h, utf16Text_utf16Units]

theorem offset_append (toolkit : List Char) (s t : List Char) :
    Field.offset toolkit (s ++ t) = Field.offset toolkit s + Field.offset toolkit t := by
  by_cases h : toolkit = qtToolkit
  · rw [h, offset_qt, offset_qt, offset_qt, utf16Units_append, List.length_append]
  · rw [offset_characters h, offset_characters h, offset_characters h, List.length_append]

theorem offset_pos (toolkit : List Char) {text : List Char} (h : text ≠ []) : 0 < Field.offset toolkit text := by
  obtain ⟨c, rest, rfl⟩ := List.exists_cons_of_ne_nil h
  by_cases htoolkit : toolkit = qtToolkit
  · rw [htoolkit, offset_qt, utf16Units_cons, List.length_append]
    have := length_charUnits_pos c
    omega
  · rw [offset_characters htoolkit, List.length_cons]
    omega

/-- What is read of a field. -/
def Field.around (toolkit : List Char) (field : Field) : List ℕ :=
  Field.range toolkit field.text (Field.offset toolkit field.before - nearbyTextChars : ℕ)
    (min (Field.offset toolkit field.text)
      (Field.offset toolkit (field.before ++ field.selected) + nearbyTextChars) : ℕ)

/-- What is read around a selection. -/
theorem readAround_field {target : Target} (htoolkit : target.toolkit = toolkit) (field : Field) :
    target.readAround (field.accessible toolkit) (Field.offset toolkit field.before)
        (Field.offset toolkit (field.before ++ field.selected)) =
      target.setNearbyText (field.around toolkit)
        (stringIndex toolkit (field.around toolkit) (min (Field.offset toolkit field.before) nearbyTextChars : ℕ))
        (stringIndex toolkit (field.around toolkit)
          (min (Field.offset toolkit field.before) nearbyTextChars + Field.offset toolkit field.selected : ℕ)) := by
  have hfirst : max 0 ((Field.offset toolkit field.before : ℤ) - nearbyTextChars) =
      ((Field.offset toolkit field.before - nearbyTextChars : ℕ) : ℤ) := by
    omega
  have hlast : min (Field.offset toolkit field.text : ℤ)
      ((Field.offset toolkit (field.before ++ field.selected) : ℤ) + nearbyTextChars) =
        ((min (Field.offset toolkit field.text)
          (Field.offset toolkit (field.before ++ field.selected) + nearbyTextChars) : ℕ) : ℤ) := by
    omega
  have hstart : (Field.offset toolkit field.before : ℤ) -
      ((Field.offset toolkit field.before - nearbyTextChars : ℕ) : ℤ) =
        ((min (Field.offset toolkit field.before) nearbyTextChars : ℕ) : ℤ) := by omega
  have hstop : (Field.offset toolkit (field.before ++ field.selected) : ℤ) -
      ((Field.offset toolkit field.before - nearbyTextChars : ℕ) : ℤ) =
        ((min (Field.offset toolkit field.before) nearbyTextChars + Field.offset toolkit field.selected : ℕ) : ℤ) := by
    rw [offset_append]
    omega
  simp only [Target.readAround, Field.accessible, htoolkit, hfirst, hlast, hstart, hstop, Field.around]

/-- **What is learned of a field** is read around its selection, or its caret. -/
theorem learned_eq (toolkit : List Char) (field : Field) : ∃ target : Target, learned toolkit field =
    target.setNearbyText (field.around toolkit)
      (stringIndex toolkit (field.around toolkit) (min (Field.offset toolkit field.before) nearbyTextChars : ℕ))
      (stringIndex toolkit (field.around toolkit)
        (min (Field.offset toolkit field.before) nearbyTextChars + Field.offset toolkit field.selected : ℕ)) := by
  have hcount : ¬ ((field.accessible toolkit).characterCount < 0 ∨ (field.accessible toolkit).caretOffset < 0) := by
    simp only [Field.accessible]
    split_ifs <;> omega
  have htoolkit : (Target.select (field.accessible toolkit) { toolkit := toolkit }).toolkit = toolkit := by
    rw [Target.select]
    split <;> rfl
  refine ⟨Target.select (field.accessible toolkit) { toolkit := toolkit }, (if_neg hcount).trans ?_⟩
  rw [← readAround_field htoolkit]
  by_cases hselected : field.selected = []
  · have hcaret : (field.accessible toolkit).caretOffset = Field.offset toolkit field.before := if_pos hselected
    have hnone : ¬ (0 ≤ (Target.select (field.accessible toolkit) { toolkit := toolkit }).selectionStart ∧
        (Target.select (field.accessible toolkit) { toolkit := toolkit }).selectionStart <
          (Target.select (field.accessible toolkit) { toolkit := toolkit }).selectionEnd) := by
      simp only [Target.select, Field.accessible, if_pos hselected]
      cases field.emptySelection <;> simp
    refine (if_neg hnone).trans ?_
    rw [hcaret, hselected, List.append_nil]
  · have hselection : (field.accessible toolkit).selection =
        some ((Field.offset toolkit field.before : ℤ), (Field.offset toolkit (field.before ++ field.selected) : ℤ)) :=
      if_neg hselected
    have hstart : (Target.select (field.accessible toolkit) { toolkit := toolkit }).selectionStart =
        Field.offset toolkit field.before := by
      rw [Target.select, hselection]
    have hstop : (Target.select (field.accessible toolkit) { toolkit := toolkit }).selectionEnd =
        Field.offset toolkit (field.before ++ field.selected) := by
      rw [Target.select, hselection]
    have hpos := offset_pos toolkit hselected
    refine (if_pos ?_).trans ?_
    · rw [hstart, hstop, offset_append]
      omega
    · rw [hstart, hstop]

/-! ## Where the read is cut -/

/-- A window on a list, so far before and after its middle. -/
theorem window_append {α : Type} (before middle after : List α) (n : ℕ) :
    ((before ++ middle ++ after).drop (before.length - n)).take
        (min (before ++ middle ++ after).length ((before ++ middle).length + n) - (before.length - n)) =
      before.drop (before.length - n) ++ middle ++ after.take n := by
  have hdrop : (before ++ middle ++ after).drop (before.length - n) =
      before.drop (before.length - n) ++ middle ++ after := by
    rw [List.append_assoc, List.drop_append_of_le_length (Nat.sub_le ..), List.append_assoc]
  have hsize : min (before ++ middle ++ after).length ((before ++ middle).length + n) - (before.length - n) =
      (before.drop (before.length - n) ++ middle).length + min n after.length := by
    simp only [List.length_append, List.length_drop]
    omega
  rw [hdrop, hsize, List.take_length_add_append, ← List.take_eq_take_min]

theorem around_characters (h : toolkit ≠ qtToolkit) (field : Field) :
    field.around toolkit =
      utf16Units (field.before.drop (field.before.length - nearbyTextChars) ++ field.selected ++
        field.after.take nearbyTextChars) := by
  rw [Field.around, Field.range, if_neg h, Int.toNat_natCast, Int.toNat_sub, offset_characters h, offset_characters h,
    offset_characters h, Field.text, window_append]

theorem around_units (field : Field) :
    field.around qtToolkit = utf16Units (utf16Text '\uFFFD' (lastUnits nearbyTextChars (utf16Units field.before) ++
      utf16Units field.selected ++ (utf16Units field.after).take nearbyTextChars)) := by
  rw [Field.around, Field.range, if_pos rfl, Int.toNat_natCast, Int.toNat_sub, offset_qt, offset_qt, offset_qt,
    Field.text, lastUnits, utf16Units_append, utf16Units_append, window_append]

/-- The units of the first characters, counted one by one. -/
theorem indexFrom_units (read : List ℕ) (text rest : List Char) :
    indexFrom (read ++ utf16Units (text ++ rest)) text.length read.length = read.length + (utf16Units text).length := by
  induction text generalizing read with
  | nil => rfl
  | cons c text ih =>
    have hsplit : read ++ utf16Units (c :: text ++ rest) = (read ++ charUnits c) ++ utf16Units (text ++ rest) := by
      rw [List.cons_append, utf16Units_cons, List.append_assoc]
    have hstep : indexFrom (read ++ utf16Units (c :: text ++ rest)) (text.length + 1) read.length =
        indexFrom (read ++ utf16Units (c :: text ++ rest)) text.length (read ++ charUnits c).length := by
      have hlt : read.length < (read ++ utf16Units (c :: text ++ rest)).length := by
        have := length_charUnits_pos c
        simp only [hsplit, List.length_append]
        omega
      rw [indexFrom, dif_pos hlt, List.length_append]
      rcases charUnits_cases c with ⟨-, hc, hhigh, -⟩ | ⟨-, high, low, hc, hhigh, -⟩
      · simp [hc, hhigh]
      · simp [hc, hhigh]
    rw [List.length_cons, hstep, hsplit, ih, utf16Units_cons, List.length_append, List.length_append, Nat.add_assoc]

theorem stringIndex_characters (h : toolkit ≠ qtToolkit) (text rest : List Char) :
    stringIndex toolkit (utf16Units (text ++ rest)) text.length = (utf16Units text).length := by
  have hindex := indexFrom_units [] text rest
  rw [List.nil_append, List.length_nil, Nat.zero_add] at hindex
  rw [stringIndex, if_neg h, Int.toNat_natCast, hindex, utf16Units_append, List.length_append]
  omega

theorem stringIndex_units (text : List ℕ) {offset : ℕ} (h : offset ≤ text.length) :
    stringIndex qtToolkit text offset = offset := by
  rw [stringIndex, if_pos rfl]
  omega

/-! ## What is kept -/

theorem left_append (text rest : List ℕ) : left text.length (text ++ rest) = text := by
  rw [left, if_neg (by omega), Int.toNat_natCast, List.take_left']
  rfl

theorem mid_append (text rest : List ℕ) (n : ℕ) : mid text.length n (text ++ rest) = rest.take n := by
  rw [mid, if_neg (by omega), Int.toNat_natCast, Int.toNat_natCast, List.drop_left']
  rfl

theorem lastUnits_of_length_le {n : ℕ} {units : List ℕ} (h : units.length ≤ n) : lastUnits n units = units := by
  rw [lastUnits, Nat.sub_eq_zero_of_le h, List.drop_zero]

theorem right_eq (n : ℕ) (text : List ℕ) : right n text = lastUnits n text := by
  rw [right, if_neg (by omega), Int.toNat_natCast]

theorem withoutLeadingHalf_units (text : List Char) : withoutLeadingHalf (utf16Units text) = utf16Units text := by
  rw [withoutLeadingHalf, utf16Units_head?, if_neg Bool.false_ne_true]

theorem withoutTrailingHalf_units (text : List Char) : withoutTrailingHalf (utf16Units text) = utf16Units text := by
  rw [withoutTrailingHalf, utf16Units_getLast?, if_neg Bool.false_ne_true]

/-- The last units without a half are those of the longest end. -/
theorem withoutLeadingHalf_lastUnits (n : ℕ) (text : List Char) :
    ∃ found, IsLongestEnd n text found ∧ withoutLeadingHalf (lastUnits n (utf16Units text)) = utf16Units found := by
  obtain ⟨found, hfound, hunits | ⟨low, hlow, hunits⟩⟩ := lastUnits_cases n text
  · exact ⟨found, hfound, by rw [hunits, withoutLeadingHalf_units]⟩
  · refine ⟨found, hfound, ?_⟩
    rw [hunits, withoutLeadingHalf]
    exact if_pos hlow

/-- The first units without a half are those of the longest beginning. -/
theorem withoutTrailingHalf_firstUnits (n : ℕ) (text : List Char) :
    ∃ found, IsLongestBeginning n text found ∧
      withoutTrailingHalf ((utf16Units text).take n) = utf16Units found := by
  obtain ⟨found, hfound, hunits | ⟨high, hhigh, hunits⟩⟩ := firstUnits_cases n text
  · exact ⟨found, hfound, by rw [hunits, withoutTrailingHalf_units]⟩
  · refine ⟨found, hfound, ?_⟩
    rw [hunits, withoutTrailingHalf, List.getLast?_concat, List.dropLast_concat]
    exact if_pos hhigh

/-- **Where offsets count characters, both texts are read whole.** -/
theorem reads_characters (h : toolkit ≠ qtToolkit) (field : Field) : ReadsWhole field (learned toolkit field) := by
  obtain ⟨target, hlearned⟩ := learned_eq toolkit field
  set before := field.before.drop (field.before.length - nearbyTextChars) with hbefore
  set after := field.after.take nearbyTextChars with hafter
  have hstart : (min (Field.offset toolkit field.before) nearbyTextChars : ℕ) = before.length := by
    rw [offset_characters h, hbefore, List.length_drop]
    omega
  have hstop : (min (Field.offset toolkit field.before) nearbyTextChars + Field.offset toolkit field.selected : ℕ) =
      (before ++ field.selected).length := by
    rw [hstart, offset_characters h, List.length_append]
  rw [around_characters h, ← hbefore, ← hafter, hstop, hstart, stringIndex_characters h, List.append_assoc,
    stringIndex_characters h, ← List.append_assoc] at hlearned
  obtain ⟨found, hfound, hunits⟩ := withoutLeadingHalf_lastUnits nearbyTextChars before
  obtain ⟨found', hfound', hunits'⟩ := withoutTrailingHalf_firstUnits nearbyTextChars after
  rw [hlearned]
  refine ⟨⟨found, hfound.of_drop, ?_⟩, found', hfound'.of_take, ?_⟩
  · rw [← hunits, Target.setNearbyText, List.append_assoc, utf16Units_append, left_append, right_eq]
  · rw [← hunits', Target.setNearbyText, utf16Units_append, mid_append]

/-! ## Where offsets count units -/

/-- What stands for a half that was cut off. -/
def standIn (cut : Bool) : List Char := if cut then ['\uFFFD'] else []

theorem length_standIn (cut : Bool) : (utf16Units (standIn cut)).length = cut.toNat := by
  cases cut <;> rfl

/-- How the last units of a text are read. -/
theorem read_lastUnits (text : List Char) : ∃ found, IsLongestEnd nearbyTextChars text found ∧
    (lastUnits nearbyTextChars (utf16Units text)).length = (utf16Units (standIn (cutBefore text) ++ found)).length ∧
    ∀ rest, utf16Text '\uFFFD' (lastUnits nearbyTextChars (utf16Units text) ++ rest) =
      standIn (cutBefore text) ++ utf16Text '\uFFFD' (utf16Units found ++ rest) := by
  obtain ⟨found, hfound, hunits | ⟨low, hlow, hunits⟩⟩ := lastUnits_cases nearbyTextChars text
  · have hcut : cutBefore text = false := by rw [cutBefore, hunits, utf16Units_head?]
    exact ⟨found, hfound, by rw [hunits, hcut]; rfl, fun rest => by rw [hunits, hcut]; rfl⟩
  · have hcut : cutBefore text = true := by rw [cutBefore, hunits]; exact hlow
    have hhigh : isHighSurrogate low = false := by
      by_contra hhigh
      exact Bool.noConfusion (hlow.symm.trans (high_or_low (Bool.not_eq_false _ ▸ hhigh)))
    refine ⟨found, hfound, ?_, fun rest => ?_⟩
    · rw [hunits, hcut, utf16Units_append, List.length_append, length_standIn, List.length_cons, Bool.toNat_true,
        Nat.add_comm]
    · rw [hunits, hcut, List.cons_append, utf16Text_cons (by rw [hhigh, Bool.false_and]), unitChar, hlow, Bool.or_true]
      rfl

/-- How the first units of a text are read. -/
theorem read_firstUnits (text : List Char) : ∃ found, IsLongestBeginning nearbyTextChars text found ∧
    ((utf16Units text).take nearbyTextChars).length = (utf16Units (found ++ standIn (cutAfter text))).length ∧
    ∀ front, utf16Text '\uFFFD' (utf16Units front ++ (utf16Units text).take nearbyTextChars) =
      front ++ (found ++ standIn (cutAfter text)) := by
  obtain ⟨found, hfound, hunits | ⟨high, hhigh, hunits⟩⟩ := firstUnits_cases nearbyTextChars text
  · have hcut : cutAfter text = false := by rw [cutAfter, hunits, utf16Units_getLast?]
    refine ⟨found, hfound, by rw [hunits, hcut, standIn, if_neg Bool.false_ne_true, List.append_nil], fun front => ?_⟩
    rw [hunits, hcut, ← utf16Units_append, utf16Text_utf16Units, standIn, if_neg Bool.false_ne_true, List.append_nil]
  · have hcut : cutAfter text = true := by rw [cutAfter, hunits, List.getLast?_concat]; exact hhigh
    refine ⟨found, hfound, ?_, fun front => ?_⟩
    · rw [hunits, hcut, utf16Units_append, List.length_append, List.length_append, length_standIn]
      rfl
    · have hhead : [high].head?.any isLowSurrogate = false := high_or_low hhigh
      rw [hunits, hcut, ← List.append_assoc, ← utf16Units_append, utf16Text_append hhead, utf16Text_utf16Units,
        utf16Text_singleton, unitChar, hhigh, Bool.true_or, List.append_assoc]
      rfl

/-- **Where offsets count units**, each text is its longest part, and a replacement character where a pair was cut. -/
theorem reads_units (field : Field) : ∃ found found', IsLongestEnd nearbyTextChars field.before found ∧
    IsLongestBeginning nearbyTextChars field.after found' ∧
    (learned qtToolkit field).nearbyTextBefore = utf16Units (standIn (cutBefore field.before) ++ found) ∧
    (learned qtToolkit field).nearbyTextAfter = utf16Units (found' ++ standIn (cutAfter field.after)) := by
  obtain ⟨target, hlearned⟩ := learned_eq qtToolkit field
  obtain ⟨found, hfound, hbefore, hread⟩ := read_lastUnits field.before
  obtain ⟨found', hfound', hafter, hread'⟩ := read_firstUnits field.after
  have haround : field.around qtToolkit = utf16Units (standIn (cutBefore field.before) ++ found) ++
      utf16Units field.selected ++ utf16Units (found' ++ standIn (cutAfter field.after)) := by
    rw [around_units, List.append_assoc, hread, ← List.append_assoc, ← utf16Units_append, hread']
    simp only [utf16Units_append, List.append_assoc]
  have hstart : (min (Field.offset qtToolkit field.before) nearbyTextChars : ℕ) =
      (utf16Units (standIn (cutBefore field.before) ++ found)).length := by
    rw [← hbefore, offset_qt, length_lastUnits, Nat.min_comm]
  have hstop : (min (Field.offset qtToolkit field.before) nearbyTextChars + Field.offset qtToolkit field.selected : ℕ) =
      (utf16Units (standIn (cutBefore field.before) ++ found) ++ utf16Units field.selected).length := by
    rw [hstart, offset_qt, List.length_append]
  have hshort : (utf16Units (standIn (cutBefore field.before) ++ found)).length ≤ nearbyTextChars := by
    rw [← hbefore, length_lastUnits]
    exact Nat.min_le_left ..
  have hshort' : (utf16Units (found' ++ standIn (cutAfter field.after))).length ≤ nearbyTextChars := by
    rw [← hafter]
    exact List.length_take_le ..
  rw [hstop, hstart, stringIndex_units _ (by rw [haround]; simp only [List.length_append]; omega),
    stringIndex_units _ (by rw [haround]; simp only [List.length_append]; omega), haround] at hlearned
  refine ⟨found, found', hfound, hfound', ?_, ?_⟩
  · rw [hlearned, Target.setNearbyText, List.append_assoc, left_append, right_eq, lastUnits_of_length_le hshort,
      withoutLeadingHalf_units]
  · rw [hlearned, Target.setNearbyText, mid_append, List.take_of_length_le hshort', withoutTrailingHalf_units]

/-- A half that was cut off is stood in for. -/
theorem not_cut_of_reads (field : Field) (h : ReadsWhole field (learned qtToolkit field)) :
    cutBefore field.before = false ∧ cutAfter field.after = false := by
  obtain ⟨found, found', hfound, hfound', hbefore, hafter⟩ := reads_units field
  obtain ⟨⟨whole, hwhole, hunits⟩, whole', hwhole', hunits'⟩ := h
  have hsame := utf16Units_injective (hunits.symm.trans hbefore)
  have hsame' := utf16Units_injective (hunits'.symm.trans hafter)
  rw [hwhole.unique hfound] at hsame
  rw [hwhole'.unique hfound'] at hsame'
  constructor
  · cases hcut : cutBefore field.before with
    | false => rfl
    | true => exact absurd (congrArg List.length hsame) (by rw [hcut]; simp [standIn])
  · cases hcut : cutAfter field.after with
    | false => rfl
    | true => exact absurd (congrArg List.length hsame') (by rw [hcut]; simp [standIn])

/-- **The text around the caret is read whole exactly when** the toolkit counts characters, or neither cut of the read
falls inside a character. -/
theorem nearbyText_whole_iff (toolkit : List Char) (field : Field) :
    ReadsWhole field (learned toolkit field) ↔ toolkit ≠ qtToolkit ∨ ¬ CutsCharacter field := by
  constructor
  · intro h
    refine or_iff_not_imp_left.mpr fun htoolkit => ?_
    obtain rfl := not_not.mp htoolkit
    obtain ⟨hbefore, hafter⟩ := not_cut_of_reads field h
    rintro (hcut | hcut)
    · exact Bool.noConfusion (hcut.symm.trans hbefore)
    · exact Bool.noConfusion (hcut.symm.trans hafter)
  · intro h
    by_cases htoolkit : toolkit = qtToolkit
    · subst htoolkit
      have hcut := h.resolve_left fun hne => hne rfl
      have hbefore : cutBefore field.before = false := Bool.eq_false_iff.mpr fun hcuts => hcut (.inl hcuts)
      have hafter : cutAfter field.after = false := Bool.eq_false_iff.mpr fun hcuts => hcut (.inr hcuts)
      obtain ⟨found, found', hfound, hfound', hunits, hunits'⟩ := reads_units field
      rw [hbefore] at hunits
      rw [hafter, standIn, if_neg Bool.false_ne_true, List.append_nil] at hunits'
      exact ⟨⟨found, hfound, hunits⟩, found', hfound', hunits'⟩
    · exact reads_characters htoolkit field

/-- An emoji that the read cuts in two, 240 units before the caret of a Qt field. -/
theorem emoji_before_caret_is_not_read_whole :
    ¬ ∀ toolkit field, ReadsWhole field (learned toolkit field) := by
  intro h
  have hcut := (not_cut_of_reads ⟨'😀' :: List.replicate 239 'b', [], [], 0, false⟩ (h qtToolkit _)).1
  have hlength : ∀ k, (utf16Units (List.replicate k 'b')).length = k := by
    intro k
    induction k with
    | zero => rfl
    | succ k ih =>
      rw [List.replicate_succ, utf16Units_cons, List.length_append, ih]
      exact Nat.add_comm 1 k
  have hunits : utf16Units ('😀' :: List.replicate 239 'b') = 0xd83d :: 0xde00 :: utf16Units (List.replicate 239 'b') :=
    rfl
  rw [cutBefore, hunits, lastUnits, List.length_cons, List.length_cons, hlength] at hcut
  cases hcut

end Speecher.NearbyText
