import Speecher.Bindings.Android
import Speecher.Insights.InsightsLog

/-!
# The insights log on Android

The desktop's line format, written and read by kotlinx's JSON (`encode`, `decode`): a line that does not read is
skipped, a blank one too, and a line cut short ends before the next record. `Kotlinx` is what the log uses of that
library.

* `decode_encode`: a record is read back.
* `loadInsights_appendInsight`: a record appended to any file comes after the records the file held.
* **`insights_logs_keep_records`**: the two logs. On the desktop a record is read back as `InsightsLog.stored` says.
-/

namespace Speecher.Android.Insights

/-! ## The model -/

/-- A JSON element; `null` is a primitive too. -/
inductive JsonElement where
  | primitive (content : Text) (isString : Bool)
  | array (items : List JsonElement)
  | object (fields : List (String × JsonElement))

/-- `jsonPrimitive`, which throws where there is none, and its content. -/
def JsonElement.content : JsonElement → Option Text
  | .primitive content _ => some content
  | _ => none

def JsonElement.jsonArray : JsonElement → Option (List JsonElement)
  | .array items => some items
  | _ => none

def JsonElement.jsonObject : JsonElement → Option (List (String × JsonElement))
  | .object fields => some fields
  | _ => none

/-- A flat value, as it is read: a number keeps its digits. -/
def element : FlatJson → JsonElement
  | .text value => .primitive value true
  | .number value => .primitive (Json.numberText value.toInt) false
  | .texts values => .array (values.map fun value => .primitive value true)

/-- What the log uses of kotlinx. -/
structure Kotlinx where
  /-- `Json.parseToJsonElement`, which throws where a text is no JSON. -/
  parseToJsonElement : Text → Option JsonElement
  /-- `JsonPrimitive.longOrNull`. -/
  longOrNull : Text → Option Int64
  parse_text : ∀ o : FlatObject, o.Unique →
    parseToJsonElement o.text = some (.object (o.map fun field => (field.1, element field.2)))
  longOrNull_text : ∀ n : Int64, longOrNull (Json.numberText n.toInt) = some n

structure DictationRecord where
  finishedAt : LocalDateTime
  audioMillis : Int64
  words : Int32
  app : Text
  profile : Text
  profileName : Text
  speechProviders : List Text
  refinementProviders : List Text
  deriving DecidableEq

def object (record : DictationRecord) : FlatObject := .ofFields
  [("finishedAt", some (.text record.finishedAt.1.text)), ("audioMs", some (.number record.audioMillis)),
    ("words", some (.number record.words.toInt64)), ("app", some (.text record.app)),
    ("profile", some (.text record.profile)), ("profileName", textUnlessEmpty record.profileName),
    ("speechProviders", textsUnlessEmpty record.speechProviders),
    ("refinementProviders", textsUnlessEmpty record.refinementProviders)]

def encode (record : DictationRecord) : Text := (object record).text

/-- A text of an object, empty where there is none. -/
def text (object : List (String × JsonElement)) (key : String) : Option Text :=
  (object.lookup key).elim (some []) JsonElement.content

/-- A list of texts of an object. -/
def list (object : List (String × JsonElement)) (key : String) : Option (List Text) :=
  (object.lookup key).elim (some []) fun value => value.jsonArray.bind fun items => items.mapM JsonElement.content

/-- A number of an object. -/
def long (k : Kotlinx) (object : List (String × JsonElement)) (key : String) : Option Int64 :=
  (object.lookup key).elim (some 0) fun value => value.content.map fun content => (k.longOrNull content).getD 0

/-- `JsonPrimitive.intOrNull`. -/
def intOrNull (k : Kotlinx) (content : Text) : Option Int32 :=
  (k.longOrNull content).bind fun n => if -2 ^ 31 ≤ n.toInt ∧ n.toInt < 2 ^ 31 then some n.toInt32 else none

def int (k : Kotlinx) (object : List (String × JsonElement)) (key : String) : Option Int32 :=
  (object.lookup key).elim (some 0) fun value => value.content.map fun content => (intOrNull k content).getD 0

def decode (k : Kotlinx) (line : Text) : Option DictationRecord := do
  let object ← (← k.parseToJsonElement line).jsonObject
  return {
    finishedAt := ← LocalDateTime.parse (← text object "finishedAt")
    audioMillis := ← long k object "audioMs"
    words := ← int k object "words"
    app := ← text object "app"
    profile := ← text object "profile"
    profileName := ← text object "profileName"
    speechProviders := ← list object "speechProviders"
    refinementProviders := ← list object "refinementProviders" }

/-- What the file holds after a record is appended; a file that is not there holds nothing. -/
def appendInsight (file : List UInt8) (record : DictationRecord) : List UInt8 :=
  let brokenLine := decide (0 < file.length) && decide (file.getLast? ≠ some 10)
  file ++ utf8 ((if brokenLine then ['\n'] else []) ++ (encode record ++ ['\n']))

/-- The lines of a `BufferedReader`, which skips a line feed after a carriage return. -/
def readLines : Bool → List Char → List Text
  | _, [] => []
  | skipLF, c :: text =>
    if c = '\n' then if skipLF then readLines false text else [] :: readLines false text
    else if c = '\r' then [] :: readLines true text
    else
      match readLines false text with
      | [] => [[c]]
      | line :: lines => (c :: line) :: lines

def notBlankLines (text : List Char) : List Text := (readLines false text).filter fun line => !isBlank line

def loadInsights (k : Kotlinx) (file : List UInt8) : List DictationRecord :=
  (notBlankLines (decodedUtf8 file)).filterMap (decode k)

/-! ## The lines -/

theorem readLines_ne_nil (text : List Char) : readLines false (text ++ ['\n']) ≠ [] := by
  cases text with
  | nil => exact List.cons_ne_nil _ _
  | cons c text =>
    rw [List.cons_append, readLines, if_neg Bool.false_ne_true]
    split_ifs
    · exact List.cons_ne_nil _ _
    · exact List.cons_ne_nil _ _
    · split <;> exact List.cons_ne_nil _ _

theorem readLines_newline (text : List Char) : readLines false ('\n' :: text) = [] :: readLines false text := by
  rw [readLines, if_pos rfl]
  rfl

theorem readLines_skipped (text : List Char) : readLines true ('\n' :: text) = readLines false text := by
  rw [readLines, if_pos rfl]
  rfl

theorem readLines_after (more : List Char) : ∀ (front : List Char) (skipLF : Bool),
    readLines skipLF (front ++ '\n' :: more) = readLines skipLF (front ++ ['\n']) ++ readLines false more
  | [], false => by
    rw [List.nil_append, List.nil_append, readLines_newline, readLines_newline]
    rfl
  | [], true => by
    rw [List.nil_append, List.nil_append, readLines_skipped, readLines_skipped]
    rfl
  | c :: front, skipLF => by
    obtain ⟨line, lines, hlines⟩ := List.exists_cons_of_ne_nil (readLines_ne_nil front)
    rw [List.cons_append, List.cons_append, readLines, readLines, readLines_after more front false,
      readLines_after more front true, hlines]
    split_ifs <;> rfl

/-- A line break at the end changes nothing, or adds an empty line. -/
theorem readLines_ended : ∀ (front : List Char) (skipLF : Bool),
    readLines skipLF (front ++ ['\n']) = readLines skipLF front ∨
      readLines skipLF (front ++ ['\n']) = readLines skipLF front ++ [[]]
  | [], false => .inr (readLines_newline [])
  | [], true => .inl (readLines_skipped [])
  | c :: front, skipLF => by
    rw [List.cons_append, readLines, readLines]
    split_ifs
    · exact readLines_ended front false
    · rcases readLines_ended front false with hsame | hempty
      · exact .inl (by rw [hsame])
      · exact .inr (by rw [hempty]; rfl)
    · rcases readLines_ended front true with hsame | hempty
      · exact .inl (by rw [hsame])
      · exact .inr (by rw [hempty]; rfl)
    · rcases readLines_ended front false with hsame | hempty
      · exact .inl (by rw [hsame])
      · rw [hempty]
        cases readLines false front with
        | nil => exact .inl rfl
        | cons line lines => exact .inr rfl

/-- How the log splits its file into lines. -/
def lineReader : LineReader UInt8 Text where
  newline := 10
  lines file := notBlankLines (decodedUtf8 file)
  lines_nil := rfl
  lines_after front more := by
    have hend : decodedUtf8 (front ++ [10]) = decodedUtf8 front ++ ['\n'] := decodedUtf8_newline front []
    rw [decodedUtf8_newline, hend, notBlankLines, notBlankLines, notBlankLines, readLines_after, List.filter_append]
  lines_ended front := by
    have hend : decodedUtf8 (front ++ [10]) = decodedUtf8 front ++ ['\n'] := decodedUtf8_newline front []
    rw [hend, notBlankLines, notBlankLines]
    rcases readLines_ended (decodedUtf8 front) false with hsame | hempty
    · rw [hsame]
    · rw [hempty, List.filter_append]
      exact List.append_nil _

theorem lineReader_lines (file : List UInt8) : lineReader.lines file = notBlankLines (decodedUtf8 file) := rfl

/-- A line that is written is read as it is. -/
theorem readLines_line {line : Text} (hline : ∀ c ∈ line, c ≠ '\n' ∧ c ≠ '\r') :
    readLines false (line ++ ['\n']) = [line] := by
  induction line with
  | nil => exact readLines_newline []
  | cons c line ih =>
    have hc := hline c List.mem_cons_self
    rw [List.cons_append, readLines, if_neg hc.1, if_neg hc.2, ih fun d hd => hline d (List.mem_cons_of_mem c hd)]

/-! ## A record -/

section Record

variable (k : Kotlinx) (record : DictationRecord)

theorem lookup_element (o : FlatObject) (key : String) :
    (o.map fun field => (field.1, element field.2)).lookup key = (o.lookup key).map element :=
  FlatObject.lookup_map element key o

theorem mapM_content (values : List Text) :
    (values.map fun value => JsonElement.primitive value true).mapM JsonElement.content = some values := by
  induction values with
  | nil => rfl
  | cons value values ih =>
    rw [List.map_cons, List.mapM_cons, ih]
    rfl

theorem intOrNull_text (n : Int32) : intOrNull k (Json.numberText n.toInt64.toInt) = some n := by
  have hsmall : -2 ^ 31 ≤ n.toInt64.toInt ∧ n.toInt64.toInt < 2 ^ 31 := by
    rw [Int32.toInt_toInt64]
    exact ⟨n.le_toInt, n.toInt_lt⟩
  rw [intOrNull, k.longOrNull_text, Option.bind_some, if_pos hsmall, Int32.toInt32_toInt64]

section Fields

variable {o : FlatObject} {key : String}

theorem text_element {value : Text} (h : o.lookup key = some (.text value)) :
    text (o.map fun field => (field.1, element field.2)) key = some value := by
  rw [text, lookup_element, h]
  rfl

theorem text_unlessEmpty {value : Text} (h : o.lookup key = textUnlessEmpty value) :
    text (o.map fun field => (field.1, element field.2)) key = some value := by
  rw [text, lookup_element, h]
  cases value <;> rfl

theorem list_unlessEmpty {values : List Text} (h : o.lookup key = textsUnlessEmpty values) :
    list (o.map fun field => (field.1, element field.2)) key = some values := by
  rw [list, lookup_element, h]
  cases values with
  | nil => rfl
  | cons value values => exact mapM_content (value :: values)

theorem long_element {n : Int64} (h : o.lookup key = some (.number n)) :
    long k (o.map fun field => (field.1, element field.2)) key = some n := by
  rw [long, lookup_element, h]
  show some ((k.longOrNull (Json.numberText n.toInt)).getD 0) = some n
  rw [k.longOrNull_text, Option.getD_some]

theorem int_element {n : Int32} (h : o.lookup key = some (.number n.toInt64)) :
    int k (o.map fun field => (field.1, element field.2)) key = some n := by
  rw [int, lookup_element, h]
  show some ((intOrNull k (Json.numberText n.toInt64.toInt)).getD 0) = some n
  rw [intOrNull_text, Option.getD_some]

end Fields

/-- **A record is read back.** -/
theorem decode_encode : decode k (encode record) = some record := by
  have hunique : (object record).Unique := FlatObject.unique_ofFields (by
    simp only [List.map_cons, List.map_nil]
    decide)
  have hfinished : (object record).lookup "finishedAt" = some (.text record.finishedAt.1.text) := by simp [object]
  have haudio : (object record).lookup "audioMs" = some (.number record.audioMillis) := by simp [object]
  have hwords : (object record).lookup "words" = some (.number record.words.toInt64) := by simp [object]
  have happ : (object record).lookup "app" = some (.text record.app) := by simp [object]
  have hprofile : (object record).lookup "profile" = some (.text record.profile) := by simp [object]
  have hname : (object record).lookup "profileName" = textUnlessEmpty record.profileName := by simp [object]
  have hspeech : (object record).lookup "speechProviders" = textsUnlessEmpty record.speechProviders := by
    simp [object]
  have hrefinement : (object record).lookup "refinementProviders" = textsUnlessEmpty record.refinementProviders := by
    simp [object]
  rw [decode, encode, k.parse_text _ hunique]
  simp only [Option.bind_eq_bind, Option.bind_some, JsonElement.jsonObject, Option.pure_def, text_element hfinished,
    LocalDateTime.parse_text, long_element k haudio, int_element k hwords, text_element happ, text_element hprofile,
    text_unlessEmpty hname, list_unlessEmpty hspeech, list_unlessEmpty hrefinement]

/-- **A record appended** comes after the records the file held. -/
theorem loadInsights_appendInsight (file : List UInt8) :
    loadInsights k (appendInsight file record) = loadInsights k file ++ [record] := by
  have hfile : appendInsight file record = LineReader.appended 10 file (utf8 (encode record ++ ['\n'])) := by
    rw [LineReader.appended, LineReader.mending, appendInsight]
    simp only [Bool.and_eq_true, decide_eq_true_eq, List.length_pos_iff]
    split_ifs
    · rw [utf8_append]
      rfl
    · rfl
  have hline : lineReader.lines (utf8 (encode record ++ ['\n'])) = [encode record] := by
    have hcontrol (c : Char) (hc : c ∈ encode record) : c ≠ '\n' ∧ c ≠ '\r' :=
      ⟨fun h => FlatObject.newline_text _ (h ▸ hc), fun h => FlatObject.return_text _ (h ▸ hc)⟩
    obtain ⟨middle, hmiddle⟩ := FlatObject.text_in_braces "finishedAt" _ _
    have hblank : isBlank (encode record) = false := by
      rw [encode, object, hmiddle, isBlank, List.all_cons, show isWhitespace '\x7b' = false by decide]
      rfl
    rw [lineReader_lines, decodedUtf8_utf8, notBlankLines, readLines_line hcontrol]
    exact List.filter_cons_of_pos (by rw [hblank]; rfl)
  have happended := lineReader.records_appended (decode k) file (utf8 (encode record ++ ['\n']))
  rw [hline, List.filterMap_cons, decode_encode] at happended
  rw [hfile]
  exact happended

end Record

/-! ## A library to run with -/

mutual

/-- The element of any JSON value. -/
def elementOf : Json → JsonElement
  | .null => .primitive "null".toList false
  | .bool value => .primitive (if value then "true" else "false").toList false
  | .number q => .primitive (Json.numberText q) false
  | .string value => .primitive value true
  | .array items => .array (elementsOf items)
  | .object fields => .object (elementFields fields)

def elementsOf : List Json → List JsonElement
  | [] => []
  | item :: items => elementOf item :: elementsOf items

def elementFields : List (String × Json) → List (String × JsonElement)
  | [] => []
  | (key, value) :: fields => (key, elementOf value) :: elementFields fields

end

theorem elementsOf_texts (values : List Text) :
    elementsOf (values.map Json.string) = values.map fun value => JsonElement.primitive value true := by
  induction values with
  | nil => rw [List.map_nil, elementsOf]; rfl
  | cons value values ih => rw [List.map_cons, elementsOf, ih, elementOf]; rfl

theorem elementOf_json (value : FlatJson) : elementOf value.json = element value := by
  cases value with
  | text value => rw [FlatJson.json, elementOf]; rfl
  | number value => rw [FlatJson.json, elementOf]; rfl
  | texts values => rw [FlatJson.json, Json.ofTexts, elementOf, elementsOf_texts]; rfl

theorem elementFields_json (o : FlatObject) :
    elementFields (o.map fun field => (field.1, field.2.json)) = o.map fun field => (field.1, element field.2) := by
  induction o with
  | nil => rw [List.map_nil, elementFields]; rfl
  | cons field o ih => rw [List.map_cons, elementFields, ih, elementOf_json]; rfl

def Kotlinx.plain : Kotlinx where
  parseToJsonElement text := (Json.read text.length text).map fun read => elementOf read.1
  longOrNull content :=
    let read := Json.readNumber content
    if read.2 = [] ∧ read.1.isInt ∧ -2 ^ 63 ≤ read.1.num ∧ read.1.num < 2 ^ 63 then some (Int64.ofInt read.1.num)
    else none
  parse_text o _ := by
    rw [FlatObject.text, Json.read_print_nil, Option.map_some, FlatObject.json, elementOf, elementFields_json]
  longOrNull_text n := by
    have hstops : Json.Stops [] := fun _ hc => absurd hc (Option.some_ne_none _).symm
    have hread := Json.readNumber_numberText (n.toInt : ℚ) hstops
    rw [List.append_nil] at hread
    dsimp only
    rw [hread, if_pos ⟨rfl, by simp [Rat.isInt], n.le_toInt, n.toInt_lt⟩]
    exact congrArg some (Int64.ofInt_toInt n)

/-! ## The two logs -/

section Logs

open InsightsLog (Qt Log stored)

/-- **The insights logs keep their records**, whatever the file held when a record was appended. -/
theorem insights_logs_keep_records :
    (∀ (qt : Qt) (record : InsightsLog.DictationRecord) (file : List UInt8),
      (Log.load qt .readWrite ((Log.load qt .readWrite file).append qt record).file).records =
        (Log.load qt .readWrite file).records ++ (stored qt record).toList) ∧
    (∀ (qt : Qt) (record : InsightsLog.DictationRecord),
      InsightsLog.decode qt (trimmedBytes (utf8 (InsightsLog.encode qt record))) = stored qt record) ∧
    (∀ (qt : Qt) (record : InsightsLog.DictationRecord), qt.isValid record.finishedAt = true →
      InsightsLog.InIsoYears record.finishedAt → StoredId qt.lower record.profile →
        stored qt record = some { record with finishedAt := record.finishedAt.toSecond }) ∧
    (∀ (k : Kotlinx) (record : DictationRecord) (file : List UInt8),
      loadInsights k (appendInsight file record) = loadInsights k file ++ [record]) ∧
    ∀ (k : Kotlinx) (record : DictationRecord), decode k (encode record) = some record := by
  refine ⟨InsightsLog.load_append, InsightsLog.decode_encode, fun qt record hvalid hyears hid => ?_,
    loadInsights_appendInsight, decode_encode⟩
  rw [stored, if_pos ⟨hvalid, hyears⟩, hid]

/-- A record of a profile by its old name. -/
def technical : InsightsLog.DictationRecord :=
  ⟨⟨⟨2025, 10, 3, 9, 55, 0, 0⟩, none⟩, 38000, 90, "Kate".toList, "technical".toList, [], [], []⟩

/-- A record of no date. -/
def undated : InsightsLog.DictationRecord := { technical with finishedAt := ⟨⟨0, 0, 0, 0, 0, 0, 0⟩, none⟩ }

theorem technical_is_not_read_back :
    (Log.load .plain .readWrite ((Log.load .plain .readWrite []).append .plain technical).file).records ≠
      (Log.load .plain .readWrite []).records ++ [{ technical with finishedAt := technical.finishedAt.toSecond }] ∧
    (Log.load .plain .readWrite ((Log.load .plain .readWrite []).append .plain undated).file).records =
      (Log.load .plain .readWrite []).records := by
  have hstored : stored .plain technical = some { technical with profile := WritingProfile.work } := by
    have hprofile : writingProfileFromName Qt.plain.lower technical.profile = WritingProfile.work := by decide
    rw [stored, if_pos (by decide), hprofile]
    rfl
  have hundated : stored .plain undated = none := by
    rw [stored, if_neg (by decide)]
  refine ⟨fun h => ?_, ?_⟩
  · rw [InsightsLog.load_append, hstored] at h
    have hprofile := congrArg InsightsLog.DictationRecord.profile (List.cons.inj (List.append_cancel_left h)).1
    exact absurd hprofile (by decide)
  · rw [InsightsLog.load_append, hundated]
    exact List.append_nil _

end Logs

end Speecher.Android.Insights
