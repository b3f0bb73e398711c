import Speecher.Foundations.FlatObject
import Speecher.Foundations.LineLog
import Speecher.Foundations.LocalDateTime
import Speecher.Foundations.Utf8Decoding
import Speecher.Refinement.ServerSentEvents
import Speecher.Settings.StoredReferences

/-!
# The insights log on the desktop

One JSON object a line, written by hand so that its fields keep their order (`encode`), and read by Qt (`decode`): a
line that does not read is skipped, and a line cut short by a crash ends before the next record. `Qt` is what the log
uses of that library.

* `text_encode`: the text written by hand is the compact text of an object.
* **`decode_encode`**: what a record is read back as (`stored`).
* **`load_append`**: a record appended to any file comes after the records the file held, and none is lost.
-/

namespace Speecher.InsightsLog

/-! ## The model -/

/-- What a clock shows, and by how many minutes it is ahead of UTC: `none` is the local time. -/
structure QDateTime where
  clock : DateTime
  offset : Option ℤ
  deriving DecidableEq

def QDateTime.toSecond (t : QDateTime) : QDateTime := { t with clock := { t.clock with nano := 0 } }

def offsetText : Option ℤ → Text
  | none => []
  | some minutes =>
    if minutes = 0 then ['Z']
    else (if minutes < 0 then '-' else '+') :: (padded 2 (minutes.natAbs / 60) ++ ':' :: padded 2 (minutes.natAbs % 60))

/-- The years an ISO date is written in. -/
def InIsoYears (t : QDateTime) : Prop := 0 ≤ t.clock.year ∧ t.clock.year ≤ 9999

instance (t : QDateTime) : Decidable (InIsoYears t) := inferInstanceAs (Decidable (_ ∧ _))

/-- What the log uses of Qt. -/
structure Qt where
  lower : LowerCase
  /-- `QDateTime::isValid`, which goes by the zone where the time is local. -/
  isValid : QDateTime → Bool
  /-- `QDateTime::fromString` of an ISO date, nothing when it is none. -/
  fromIsoDate : Text → Option QDateTime
  /-- The number in a list that is read as texts. -/
  numberText : ℚ → Text
  /-- `QJsonDocument::fromJson`. -/
  fromJson : List UInt8 → Option Json
  fromIsoDate_nil : fromIsoDate [] = none
  fromIsoDate_text : ∀ t, isValid t = true → InIsoYears t →
    fromIsoDate (t.toSecond.clock.text ++ offsetText t.offset) = some t.toSecond
  fromJson_text : ∀ o : FlatObject, o.Unique → fromJson (utf8 o.text) = some o.json

/-- `QDateTime::toString` with `Qt::ISODate`. -/
def Qt.toIsoDate (qt : Qt) (t : QDateTime) : Text :=
  if qt.isValid t = true ∧ InIsoYears t then t.toSecond.clock.text ++ offsetText t.offset else []

structure DictationRecord where
  finishedAt : QDateTime
  audioMs : Int32
  words : Int32
  appName : Text
  profile : Text
  profileName : Text
  speechProviders : List Text
  refinementProviders : List Text
  deriving DecidableEq

/-- The text of a list of one text, without the brackets. -/
def jsonString (value : Text) : Text := ((Json.print (.array [.string value])).drop 1).dropLast

def optionalList (key : String) (values : List Text) : Text :=
  if values.isEmpty then []
  else ",\"".toList ++ (key.toList ++ ("\":".toList ++ Json.print (.ofTexts values)))

/-- `QByteArray::number`. -/
def number (n : Int32) : Text := Json.print (.number n.toInt)

def encode (qt : Qt) (record : DictationRecord) : Text :=
  "\x7b\"finishedAt\":".toList ++ (jsonString (qt.toIsoDate record.finishedAt) ++
  (",\"audioMs\":".toList ++ (number record.audioMs ++
  (",\"words\":".toList ++ (number record.words ++
  (",\"app\":".toList ++ (jsonString record.appName ++
  (",\"profile\":".toList ++ (jsonString record.profile ++
  ((if record.profileName.isEmpty then [] else ",\"profileName\":".toList ++ jsonString record.profileName) ++
  (optionalList "speechProviders" record.speechProviders ++
  (optionalList "refinementProviders" record.refinementProviders ++
  "\x7d\n".toList))))))))))))

/-- `QJsonValue::toInt`. -/
def toInt : Option Json → Int32
  | some (.number q) => if q.isInt ∧ -2 ^ 31 ≤ q.num ∧ q.num < 2 ^ 31 then Int32.ofInt q.num else 0
  | _ => 0

/-- An item of `QVariant::toStringList`. -/
def itemText (qt : Qt) : Json → Text
  | .string text => text
  | .number q => qt.numberText q
  | .bool value => (if value then "true" else "false").toList
  | _ => []

/-- `QJsonValue::toVariant().toStringList()`. -/
def toStringList (qt : Qt) : Option Json → List Text
  | some (.array items) => items.map (itemText qt)
  | some (.string text) => [text]
  | _ => []

def decode (qt : Qt) (line : List UInt8) : Option DictationRecord :=
  let object := (qt.fromJson line).getD (.object [])
  match qt.fromIsoDate (Json.toText (object.value "finishedAt")) with
  | none => none
  | some finishedAt =>
    some {
      finishedAt
      audioMs := toInt (object.value "audioMs")
      words := toInt (object.value "words")
      appName := Json.toText (object.value "app")
      profile := writingProfileFromName qt.lower (Json.toText (object.value "profile"))
      profileName := Json.toText (object.value "profileName")
      speechProviders := toStringList qt (object.value "speechProviders")
      refinementProviders := toStringList qt (object.value "refinementProviders") }

/-- The lines of `QFile::readLine`, each with its line break. -/
def readLines : List UInt8 → List (List UInt8)
  | [] => []
  | b :: bytes =>
    if b = 10 then [b] :: readLines bytes
    else
      match readLines bytes with
      | [] => [[b]]
      | line :: lines => (b :: line) :: lines

/-- The lines that are not blank. -/
def trimmedLines (file : List UInt8) : List (List UInt8) :=
  ((readLines file).map trimmedBytes).filter fun line => !line.isEmpty

inductive Access
  | readWrite
  | readOnly
  deriving DecidableEq

structure Log where
  access : Access
  /-- What the file holds; a file that is not there holds nothing. -/
  file : List UInt8
  records : List DictationRecord

/-- The constructor, which loads the file. -/
def Log.load (qt : Qt) (access : Access) (file : List UInt8) : Log :=
  ⟨access, file, (trimmedLines file).filterMap (decode qt)⟩

def Log.append (qt : Qt) (log : Log) (record : DictationRecord) : Log :=
  { log with
    records := log.records ++ [record]
    file :=
      if log.access = .readWrite then
        let line := utf8 (encode qt record)
        log.file ++ (if 0 < log.file.length ∧ log.file.getLast? ≠ some 10 then 10 :: line else line)
      else log.file }

/-! ## The lines -/

theorem readLines_newline (bytes : List UInt8) : readLines (10 :: bytes) = [10] :: readLines bytes := by
  rw [readLines, if_pos rfl]

theorem readLines_ne_nil (bytes : List UInt8) : readLines (bytes ++ [10]) ≠ [] := by
  cases bytes with
  | nil => exact List.cons_ne_nil _ _
  | cons b bytes =>
    rw [List.cons_append, readLines]
    split_ifs
    · exact List.cons_ne_nil _ _
    · split <;> exact List.cons_ne_nil _ _

theorem readLines_after (front more : List UInt8) :
    readLines (front ++ 10 :: more) = readLines (front ++ [10]) ++ readLines more := by
  induction front with
  | nil => rw [List.nil_append, List.nil_append, readLines_newline, readLines_newline]; rfl
  | cons b front ih =>
    obtain ⟨line, lines, hlines⟩ := List.exists_cons_of_ne_nil (readLines_ne_nil front)
    rw [List.cons_append, List.cons_append, readLines, readLines, ih, hlines]
    split_ifs <;> rfl

/-- What a line break at the end changes: the last line has it, or it is a line of its own. -/
theorem readLines_ended (front : List UInt8) : readLines (front ++ [10]) = readLines front ++ [[10]] ∨
    ∃ lines last, readLines front = lines ++ [last] ∧ readLines (front ++ [10]) = lines ++ [last ++ [10]] := by
  induction front with
  | nil => exact .inl (readLines_newline [])
  | cons b front ih =>
    rw [List.cons_append, readLines, readLines]
    split_ifs with hb
    · rcases ih with hown | ⟨lines, last, hlines, hended⟩
      · exact .inl (by rw [hown]; rfl)
      · exact .inr ⟨[b] :: lines, last, by rw [hlines]; rfl, by rw [hended]; rfl⟩
    · rcases ih with hown | ⟨lines, last, hlines, hended⟩
      · rw [hown]
        cases readLines front with
        | nil => exact .inr ⟨[], [b], rfl, rfl⟩
        | cons line lines => exact .inl rfl
      · rw [hlines, hended]
        cases lines with
        | nil => exact .inr ⟨[], b :: last, rfl, rfl⟩
        | cons line lines => exact .inr ⟨(b :: line) :: lines, last, rfl, rfl⟩

theorem trimmedBytes_newline (line : List UInt8) : trimmedBytes (line ++ [10]) = trimmedBytes line := by
  rw [trimmedBytes, trimmedBytes, List.dropWhile_append]
  split_ifs with hblank
  · rw [List.isEmpty_iff.mp hblank]
    rfl
  · exact List.rdropWhile_concat_pos _ _ _ rfl

theorem trimmedLines_ended (front : List UInt8) : trimmedLines (front ++ [10]) = trimmedLines front := by
  unfold trimmedLines
  rcases readLines_ended front with hown | ⟨lines, last, hlines, hended⟩
  · rw [hown, List.map_append, List.filter_append]
    exact List.append_nil _
  · rw [hlines, hended, List.map_append, List.map_append, List.map_singleton, List.map_singleton,
      trimmedBytes_newline]

/-- How the log splits its file into lines. -/
def lineReader : LineReader UInt8 (List UInt8) where
  newline := 10
  lines := trimmedLines
  lines_nil := rfl
  lines_after front more := by
    unfold trimmedLines
    rw [readLines_after, List.map_append, List.filter_append]
  lines_ended := trimmedLines_ended

/-- A line that is written is read as it is. -/
theorem trimmedLines_line {line : List UInt8} (hnewline : 10 ∉ line) (hne : line ≠ [])
    (htrimmed : trimmedBytes line = line) : trimmedLines (line ++ [10]) = [line] := by
  have hread (line : List UInt8) (h : 10 ∉ line) : readLines (line ++ [10]) = [line ++ [10]] := by
    induction line with
    | nil => exact readLines_newline []
    | cons b line ih =>
      rw [List.cons_append, readLines, if_neg fun hb : b = 10 => h (hb ▸ List.mem_cons_self),
        ih fun hmem => h (List.mem_cons_of_mem b hmem)]
  rw [trimmedLines, hread line hnewline, List.map_singleton, trimmedBytes_newline, htrimmed]
  exact List.filter_cons_of_pos (by simpa using hne)

/-! ## A record -/

section Record

variable (qt : Qt) (record : DictationRecord)

/-- The fields of a record, as they are written. -/
def fields : List (String × Option FlatJson) :=
  [("finishedAt", some (.text (qt.toIsoDate record.finishedAt))), ("audioMs", some (.number record.audioMs.toInt64)),
    ("words", some (.number record.words.toInt64)), ("app", some (.text record.appName)),
    ("profile", some (.text record.profile)), ("profileName", textUnlessEmpty record.profileName),
    ("speechProviders", textsUnlessEmpty record.speechProviders),
    ("refinementProviders", textsUnlessEmpty record.refinementProviders)]

def object : FlatObject := .ofFields (fields qt record)

/-- What a record is read back as: its time to the second, and the profile its id names. A time that an ISO date does
not write is not read back. -/
def stored : Option DictationRecord :=
  if qt.isValid record.finishedAt = true ∧ InIsoYears record.finishedAt then
    some { record with
      finishedAt := record.finishedAt.toSecond
      profile := writingProfileFromName qt.lower record.profile }
  else none

theorem jsonString_eq (value : Text) : jsonString value = Json.quoted value := by
  have hprint : Json.print (.array [.string value]) = '[' :: (Json.quoted value ++ [']']) := by
    rw [Json.print, Json.printItems, Json.print]
  rw [jsonString, hprint, List.drop_one, List.tail_cons, List.dropLast_concat]

theorem print_number (n : Int32) : Json.print (FlatJson.number n.toInt64).json = number n := by
  rw [FlatJson.json, Int32.toInt_toInt64, number]

theorem written_some (key : String) (value : FlatJson) : FlatObject.written (key, some value) =
    ',' :: (Json.quoted key.toList ++ ':' :: Json.print value.json) := rfl

theorem print_text (value : Text) : Json.print (FlatJson.text value).json = Json.quoted value := by
  rw [FlatJson.json, Json.print]

theorem written_name (name : Text) : FlatObject.written ("profileName", textUnlessEmpty name) =
    if name.isEmpty then [] else ",\"profileName\":".toList ++ jsonString name := by
  have hkey : ",\"profileName\":".toList = ',' :: (Json.quoted "profileName".toList ++ [':']) := by decide
  rw [textUnlessEmpty, jsonString_eq, hkey]
  split_ifs
  · rfl
  · rw [written_some, print_text, List.cons_append, List.append_assoc, List.singleton_append]

theorem written_list (key : String) (values : List Text)
    (hkey : ",\"".toList ++ (key.toList ++ "\":".toList) = ',' :: (Json.quoted key.toList ++ [':'])) :
    FlatObject.written (key, textsUnlessEmpty values) = optionalList key values := by
  rw [textsUnlessEmpty, optionalList]
  split_ifs
  · rfl
  · rw [← List.append_assoc key.toList, ← List.append_assoc ",\"".toList, hkey, written_some, List.cons_append,
      List.append_assoc, List.singleton_append]
    rfl

/-- **The text written by hand** is the compact text of the record's object. -/
theorem text_encode : encode qt record = (object qt record).text ++ ['\n'] := by
  have hfinished : "\x7b\"finishedAt\":".toList = '\x7b' :: (Json.quoted "finishedAt".toList ++ [':']) := by decide
  have haudio : ",\"audioMs\":".toList = ',' :: (Json.quoted "audioMs".toList ++ [':']) := by decide
  have hwords : ",\"words\":".toList = ',' :: (Json.quoted "words".toList ++ [':']) := by decide
  have happ : ",\"app\":".toList = ',' :: (Json.quoted "app".toList ++ [':']) := by decide
  have hprofile : ",\"profile\":".toList = ',' :: (Json.quoted "profile".toList ++ [':']) := by decide
  have hend : "\x7d\n".toList = ['\x7d', '\n'] := by decide
  rw [object, fields, FlatObject.text_ofFields]
  simp only [List.flatMap_cons, List.flatMap_nil, written_some, written_name, print_text, print_number,
    written_list "speechProviders" record.speechProviders (by decide),
    written_list "refinementProviders" record.refinementProviders (by decide)]
  unfold encode
  simp only [hfinished, haudio, hwords, happ, hprofile, hend, jsonString_eq]
  generalize ",\"profileName\":".toList = name
  simp only [List.append_assoc, List.cons_append, List.nil_append]

theorem bytes_in_braces : ∃ middle, utf8 (object qt record).text = 123 :: (middle ++ [125]) := by
  have hfirst (text : Text) : utf8 ('\x7b' :: text) = 123 :: utf8 text := by
    have hbrace : String.utf8EncodeChar '\x7b' = [123] := by decide
    rw [utf8, List.flatMap_cons, hbrace]
    rfl
  have hlast : utf8 ['\x7d'] = [125] := by decide
  obtain ⟨middle, hmiddle⟩ := FlatObject.text_in_braces "finishedAt" _ _
  exact ⟨utf8 middle, by rw [object, fields, hmiddle, hfirst, utf8_append, hlast]⟩

theorem trimmed_text : trimmedBytes (utf8 (object qt record).text) = utf8 (object qt record).text := by
  obtain ⟨middle, hmiddle⟩ := bytes_in_braces qt record
  rw [hmiddle, trimmedBytes, List.dropWhile_cons_of_neg (by decide), ← List.cons_append]
  exact List.rdropWhile_concat_neg _ _ _ (by decide)

theorem unique_object : (object qt record).Unique := FlatObject.unique_ofFields (by
  rw [fields]
  simp only [List.map_cons, List.map_nil]
  decide)

theorem toInt_number (n : Int32) : toInt (some (FlatJson.number n.toInt64).json) = n := by
  rw [FlatJson.json, Int32.toInt_toInt64, toInt, if_pos ⟨by simp [Rat.isInt], n.le_toInt, n.toInt_lt⟩]
  exact Int32.ofInt_toInt n

theorem toText_textUnlessEmpty (text : Text) :
    Json.toText ((textUnlessEmpty text).map FlatJson.json) = text := by
  cases text <;> rfl

theorem toStringList_textsUnlessEmpty (values : List Text) :
    toStringList qt ((textsUnlessEmpty values).map FlatJson.json) = values := by
  cases values with
  | nil => rfl
  | cons value values =>
    show ((value :: values).map Json.string).map (itemText qt) = value :: values
    rw [List.map_map]
    exact List.map_id _

theorem fromIsoDate_toIsoDate (t : QDateTime) : qt.fromIsoDate (qt.toIsoDate t) =
    if qt.isValid t = true ∧ InIsoYears t then some t.toSecond else none := by
  rw [Qt.toIsoDate]
  split_ifs with h
  · exact qt.fromIsoDate_text t h.1 h.2
  · exact qt.fromIsoDate_nil

theorem toText_text (text : Text) : Json.toText (some (FlatJson.text text).json) = text := rfl

/-- What is read of a record's object. -/
theorem decode_text : decode qt (utf8 (object qt record).text) = stored qt record := by
  rw [decode, qt.fromJson_text _ (unique_object qt record), stored]
  simp only [Option.getD_some, FlatObject.value_json, object, fields]
  simp only [ne_eq, String.reduceEq, not_false_eq_true, FlatObject.lookup_ofFields_self,
    FlatObject.lookup_ofFields_ne, FlatObject.lookup_ofFields_nil, Option.or_none, Option.map_some,
    toText_text, toInt_number, toText_textUnlessEmpty, toStringList_textsUnlessEmpty, fromIsoDate_toIsoDate]
  split_ifs <;> rfl

/-- **Decoding undoes encoding**, but for what the log does not keep. -/
theorem decode_encode : decode qt (trimmedBytes (utf8 (encode qt record))) = stored qt record := by
  have hline : utf8 (encode qt record) = utf8 (object qt record).text ++ [10] := by
    rw [text_encode, utf8_append]
    rfl
  rw [hline, trimmedBytes_newline, trimmed_text, decode_text]

/-- **A record appended** comes after the records the file held. -/
theorem load_append (file : List UInt8) :
    (Log.load qt .readWrite ((Log.load qt .readWrite file).append qt record).file).records =
      (Log.load qt .readWrite file).records ++ (stored qt record).toList := by
  have hfile : ((Log.load qt .readWrite file).append qt record).file =
      LineReader.appended 10 file (utf8 (encode qt record)) := by
    rw [LineReader.appended, LineReader.mending, Log.append, Log.load]
    dsimp only
    rw [if_pos rfl]
    simp only [List.length_pos_iff]
    split_ifs <;> rfl
  have hline : trimmedLines (utf8 (encode qt record)) = [utf8 (object qt record).text] := by
    obtain ⟨middle, hmiddle⟩ := bytes_in_braces qt record
    have hne : utf8 (object qt record).text ≠ [] := by
      rw [hmiddle]
      exact List.cons_ne_nil _ _
    rw [text_encode, utf8_append]
    exact trimmedLines_line (newline_mem_utf8 (FlatObject.newline_text _)) hne (trimmed_text qt record)
  have happended := lineReader.records_appended (decode qt) file (utf8 (encode qt record))
  rw [hfile]
  refine happended.trans ?_
  show _ ++ (trimmedLines (utf8 (encode qt record))).filterMap (decode qt) = _
  rw [hline, List.filterMap_cons, decode_text]
  cases stored qt record <;> rfl

end Record

/-! ## A library to run with -/

/-- A `Qt` in a zone without gaps, whose lower case is that of ASCII letters. -/
def Qt.plain : Qt where
  lower := .asciiLetters
  isValid t := decide t.clock.Valid && t.offset.isNone
  fromIsoDate text := (LocalDateTime.parse text).map fun t => ⟨t.1, none⟩
  numberText := Json.numberText
  fromJson bytes := (Json.read (decodedUtf8 bytes).length (decodedUtf8 bytes)).map Prod.fst
  fromIsoDate_nil := rfl
  fromIsoDate_text := by
    rintro ⟨clock, offset⟩ hvalid -
    obtain ⟨hclock, hoffset⟩ := Bool.and_eq_true_iff.mp hvalid
    obtain rfl : offset = none := Option.isNone_iff_eq_none.mp hoffset
    have hsecond : DateTime.Valid { clock with nano := 0 } :=
      { of_decide_eq_true hclock with nano := Nat.pow_pos (by decide) }
    show (LocalDateTime.parse (({ clock with nano := 0 } : DateTime).text ++ [])).map _ = _
    rw [List.append_nil, LocalDateTime.parse_text ⟨_, hsecond⟩]
    rfl
  fromJson_text o _ := by
    rw [decodedUtf8_utf8, FlatObject.text, Json.read_print_nil]
    rfl

end Speecher.InsightsLog
