import Mathlib.Data.Finset.Dedup
import Speecher.Foundations.JsonText
import Speecher.Settings.StoredReferences
import Speecher.Transfer.ImportLink

/-!
# The settings a phone gets

A computer sends its dictation setup as one JSON object: `phoneTransferBundle` writes the vocabulary, the replacements,
the writing profiles with what they choose from and the instructions for every dictation, and `parseComputerSettings`
reads them on the phone. The two sides use different JSON libraries: a `JsonText` stands for what the one writes and the
other reads of it, `OrgJson` for how the phone's takes the values.

* `cleanupLevelId_withCleanupLevel`, `toneId_withTone`: a chosen level or tone keeps its id on the phone.
* `parseComputerSettings_phoneTransferBundle`: the phone reads what the computer wrote.
* `transfer_readsBack`: the same of the link and the settings together.
-/

namespace Speecher

/-- The settings of which a phone gets some: the lists, and the instructions added to every dictation. -/
structure SentSettings extends AppSettings where
  additionalInstructions : Text

/-- Counters that the computer's types hold, 32 bits and 64. -/
structure VocabularyEntry.Sized (entry : VocabularyEntry) : Prop where
  frequency : -2 ^ 31 ≤ entry.frequency ∧ entry.frequency < 2 ^ 31
  lastUsedMs : -2 ^ 63 ≤ entry.lastUsedMs ∧ entry.lastUsedMs < 2 ^ 63

/-! ## The computer's side -/

def VocabularyEntry.toTransfer (entry : VocabularyEntry) : Json :=
  .object
    [("term", .string entry.term), ("context", .string entry.context), ("profiles", .ofTexts entry.profiles),
      ("keyTerm", .bool entry.keyTerm), ("priority", .bool entry.starred), ("source", .string entry.source),
      ("frequency", .number entry.frequency), ("lastUsedMs", .number entry.lastUsedMs)]

def BindingRule.toTransfer (rule : BindingRule) : Json :=
  .object [("phrase", .string rule.phrase), ("text", .string rule.replacement)]

def WritingProfileSettings.toTransfer (profile : WritingProfileSettings) : Json :=
  .object
    [("id", .string profile.profile), ("name", .string profile.name), ("cleanupLevel", .string profile.cleanupStrength),
      ("tone", .string profile.tone), ("instructions", .string profile.instructions),
      ("outputLanguage", .string profile.outputLanguage)]

def CustomTone.toTransfer (tone : CustomTone) : Json :=
  .object [("id", .string tone.id), ("name", .string tone.name), ("instruction", .string tone.instruction)]

def CustomCleanupLevel.toTransfer (level : CustomCleanupLevel) : Json :=
  .object
    [("id", .string level.id), ("name", .string level.name), ("base", .string level.base),
      ("instructions", .string level.instructions)]

def SentSettings.toTransfer (settings : SentSettings) (computerName : Text) : List (String × Json) :=
  [("format", .number (kFormat : ℕ)), ("computer", .string computerName),
    ("vocabulary", .array (settings.vocabulary.map VocabularyEntry.toTransfer)),
    ("replacements", .array (settings.bindings.map BindingRule.toTransfer)),
    ("writingProfiles", .array (settings.writingProfiles.map WritingProfileSettings.toTransfer)),
    ("customTones", .array (settings.customTones.map CustomTone.toTransfer)),
    ("customCleanupLevels", .array (settings.customCleanupLevels.map CustomCleanupLevel.toTransfer)),
    ("additionalInstructions", .string settings.additionalInstructions)]

/-- The bytes the computer seals and sends. -/
def phoneTransferBundle (json : JsonText) (settings : SentSettings) (computerName : Text) : List UInt8 :=
  utf8 (json.toJson (.object (settings.toTransfer computerName)))

/-! ## The phone's side -/

/-- How the phone's JSON library takes a value for the type asked for, coercing one of another type where it can. -/
structure OrgJson where
  string : Json → Option Text
  boolean : Json → Option Bool
  int : Json → Option ℤ
  long : Json → Option ℤ
  string_string : ∀ text, string (.string text) = some text
  boolean_bool : ∀ value, boolean (.bool value) = some value
  int_number : ∀ n : ℤ, -2 ^ 31 ≤ n → n < 2 ^ 31 → int (.number n) = some n
  long_number : ∀ n : ℤ, -2 ^ 63 ≤ n → n < 2 ^ 63 → long (.number n) = some n

/-- The library that coerces nothing but the width of a number. -/
def OrgJson.strict : OrgJson where
  string
    | .string text => some text
    | _ => none
  boolean
    | .bool value => some value
    | _ => none
  int
    | .number n => if n.isInt then some (n.num.bmod (2 ^ 32)) else none
    | _ => none
  long
    | .number n => if n.isInt then some (n.num.bmod (2 ^ 64)) else none
    | _ => none
  string_string _ := rfl
  boolean_bool _ := rfl
  int_number n hlow hhigh := by
    dsimp only
    rw [if_pos (by simp [Rat.isInt]), Rat.num_intCast, Int.bmod_eq_of_le (by omega) (by omega)]
  long_number n hlow hhigh := by
    dsimp only
    rw [if_pos (by simp [Rat.isInt]), Rat.num_intCast, Int.bmod_eq_of_le (by omega) (by omega)]

namespace Android

inductive CleanupStrength
  | none
  | lightCleanup
  | balanced
  | strongPolish
  /-- Only as a custom level's base. -/
  | customOnly
  deriving DecidableEq

def CleanupStrength.id : CleanupStrength → Text
  | .none => "none".toList
  | .lightCleanup => "light_cleanup".toList
  | .balanced => "balanced".toList
  | .strongPolish => "strong_polish".toList
  | .customOnly => "custom_only".toList

def CleanupStrength.entries : List CleanupStrength := [.none, .lightCleanup, .balanced, .strongPolish, .customOnly]

inductive Tone
  | none
  | formal
  | casual
  | veryCasual
  | excited
  | genZ
  deriving DecidableEq

def Tone.id : Tone → Text
  | .none => "none".toList
  | .formal => "formal".toList
  | .casual => "casual".toList
  | .veryCasual => "very_casual".toList
  | .excited => "excited".toList
  | .genZ => "gen_z".toList

def Tone.entries : List Tone := [.none, .formal, .casual, .veryCasual, .excited, .genZ]

structure VocabularyWord where
  term : Text
  context : Text
  profiles : Finset Text
  keyTerm : Bool
  priority : Bool
  source : Text
  frequency : ℤ
  lastUsedMs : ℤ
  deriving DecidableEq

structure Replacement where
  phrase : Text
  text : Text
  deriving DecidableEq

structure CustomTone where
  id : Text
  name : Text
  instruction : Text
  deriving DecidableEq

structure CustomCleanupLevel where
  id : Text
  name : Text
  base : CleanupStrength
  instructions : Text
  deriving DecidableEq

structure WritingProfileSettings where
  cleanupStrength : CleanupStrength := .balanced
  tone : Tone := .none
  instructions : Text
  customCleanupLevel : Option Text := none
  customTone : Option Text := none
  name : Text
  outputLanguage : Text
  deriving DecidableEq

namespace WritingProfileSettings

variable (settings : WritingProfileSettings)

/-- The chosen level's id: a built-in's or a custom level's. -/
def cleanupLevelId : Text := settings.customCleanupLevel.getD settings.cleanupStrength.id

/-- The chosen tone's id: a built-in's or a custom tone's. -/
def toneId : Text := settings.customTone.getD settings.tone.id

def withCleanupLevel (id : Text) : WritingProfileSettings :=
  match CleanupStrength.entries.find? (·.id = id) with
  | some strength => { settings with cleanupStrength := strength, customCleanupLevel := none }
  | none => { settings with cleanupStrength := .balanced, customCleanupLevel := some id }

def withTone (id : Text) : WritingProfileSettings :=
  match Tone.entries.find? (·.id = id) with
  | some tone => { settings with tone := tone, customTone := none }
  | none => { settings with tone := .none, customTone := some id }

end WritingProfileSettings

/-- The dictation setup a computer sends; the writing profiles are a map that keeps the order of its keys. -/
structure ComputerSettings where
  computer : Text
  vocabulary : List VocabularyWord
  replacements : List Replacement
  writingProfiles : List (Text × WritingProfileSettings)
  customTones : List CustomTone
  customCleanupLevels : List CustomCleanupLevel
  additionalInstructions : Text
  deriving DecidableEq

/-- A map with a value put under a key, in the place of what stood there. -/
def put {α : Type} (map : List (Text × α)) (entry : Text × α) : List (Text × α) :=
  if map.any (·.1 = entry.1) then map.map fun other => if other.1 = entry.1 then entry else other else map ++ [entry]

section Reading

variable (org : OrgJson)

def getString (object : Json) (key : String) : Option Text := (object.value key).bind org.string

def getBoolean (object : Json) (key : String) : Option Bool := (object.value key).bind org.boolean

def getInt (object : Json) (key : String) : Option ℤ := (object.value key).bind org.int

def getLong (object : Json) (key : String) : Option ℤ := (object.value key).bind org.long

def getJSONArray (object : Json) (key : String) : Option (List Json) :=
  (object.value key).bind fun
    | .array items => some items
    | _ => none

/-- The objects of an array, unless it holds anything else. -/
def objects (object : Json) (key : String) : Option (List Json) :=
  (getJSONArray object key).bind fun items =>
    items.mapM fun
      | .object fields => some (.object fields)
      | _ => none

def readVocabularyWord (it : Json) : Option VocabularyWord := do
  let term ← getString org it "term"
  let context ← getString org it "context"
  let ids ← getJSONArray it "profiles"
  let profiles ← ids.mapM org.string
  let keyTerm ← getBoolean org it "keyTerm"
  let priority ← getBoolean org it "priority"
  let source ← getString org it "source"
  let frequency ← getInt org it "frequency"
  let lastUsedMs ← getLong org it "lastUsedMs"
  return ⟨term, context, profiles.toFinset, keyTerm, priority, source, frequency, lastUsedMs⟩

def readReplacement (it : Json) : Option Replacement := do
  let phrase ← getString org it "phrase"
  let text ← getString org it "text"
  return ⟨phrase, text⟩

def readWritingProfile (it : Json) : Option (Text × WritingProfileSettings) := do
  let id ← getString org it "id"
  let instructions ← getString org it "instructions"
  let name ← getString org it "name"
  let outputLanguage ← getString org it "outputLanguage"
  let cleanupLevel ← getString org it "cleanupLevel"
  let tone ← getString org it "tone"
  let settings : WritingProfileSettings :=
    { instructions := instructions, name := name, outputLanguage := outputLanguage }
  return (id, (settings.withCleanupLevel cleanupLevel).withTone tone)

def readCustomTone (it : Json) : Option CustomTone := do
  let id ← getString org it "id"
  let name ← getString org it "name"
  let instruction ← getString org it "instruction"
  return ⟨id, name, instruction⟩

def readCustomCleanupLevel (it : Json) : Option CustomCleanupLevel := do
  let id ← getString org it "id"
  let name ← getString org it "name"
  let base ← getString org it "base"
  let instructions ← getString org it "instructions"
  return ⟨id, name, (CleanupStrength.entries.find? (·.id = base)).getD .balanced, instructions⟩

/-- The settings of a bundle, unless it is not one of format 1. -/
def parseComputerSettings (json : JsonText) (text : Text) : Option ComputerSettings := do
  let bundle ← json.fromJson text
  let format ← getInt org bundle "format"
  guard (format = 1)
  let computer ← getString org bundle "computer"
  let vocabulary ← (← objects bundle "vocabulary").mapM (readVocabularyWord org)
  let replacements ← (← objects bundle "replacements").mapM (readReplacement org)
  let writingProfiles ← (← objects bundle "writingProfiles").mapM (readWritingProfile org)
  let customTones ← (← objects bundle "customTones").mapM (readCustomTone org)
  let customCleanupLevels ← (← objects bundle "customCleanupLevels").mapM (readCustomCleanupLevel org)
  let additionalInstructions ← getString org bundle "additionalInstructions"
  return ⟨computer, vocabulary, replacements, writingProfiles.foldl put [], customTones, customCleanupLevels,
    additionalInstructions⟩

end Reading

/-! ## Ids -/

namespace WritingProfileSettings

/-- **A chosen level keeps its id.** -/
theorem cleanupLevelId_withCleanupLevel (settings : WritingProfileSettings) (id : Text) :
    (settings.withCleanupLevel id).cleanupLevelId = id := by
  rw [withCleanupLevel]
  cases hfound : CleanupStrength.entries.find? (·.id = id) with
  | none => rfl
  | some strength =>
    have hid : strength.id = id := by simpa using List.find?_some hfound
    exact hid

/-- **A chosen tone keeps its id.** -/
theorem toneId_withTone (settings : WritingProfileSettings) (id : Text) : (settings.withTone id).toneId = id := by
  rw [withTone]
  cases hfound : Tone.entries.find? (·.id = id) with
  | none => rfl
  | some tone =>
    have hid : tone.id = id := by simpa using List.find?_some hfound
    exact hid

/-- Choosing a tone leaves everything but the tone. -/
theorem withTone_frame (settings : WritingProfileSettings) (id : Text) :
    (settings.withTone id).cleanupLevelId = settings.cleanupLevelId ∧ (settings.withTone id).name = settings.name ∧
      (settings.withTone id).instructions = settings.instructions ∧
        (settings.withTone id).outputLanguage = settings.outputLanguage := by
  rw [withTone]
  split <;> exact ⟨rfl, rfl, rfl, rfl⟩

theorem withCleanupLevel_frame (settings : WritingProfileSettings) (id : Text) :
    (settings.withCleanupLevel id).name = settings.name ∧
      (settings.withCleanupLevel id).instructions = settings.instructions ∧
        (settings.withCleanupLevel id).outputLanguage = settings.outputLanguage := by
  rw [withCleanupLevel]
  split <;> exact ⟨rfl, rfl, rfl⟩

end WritingProfileSettings

theorem CleanupStrength.mem_entries (strength : CleanupStrength) : strength ∈ CleanupStrength.entries := by
  cases strength <;> decide

/-- The id of the base the phone reads: the base's own where it is one, and that of a balanced level for any other. -/
theorem id_readBase (base : Text) :
    ((CleanupStrength.entries.find? (·.id = base)).getD .balanced).id =
      if base ∈ CleanupStrength.entries.map CleanupStrength.id then base else CleanupStrength.balanced.id := by
  cases hfound : CleanupStrength.entries.find? (·.id = base) with
  | none =>
    have hmissing : base ∉ CleanupStrength.entries.map CleanupStrength.id := fun hmem => by
      obtain ⟨strength, hstrength, hid⟩ := List.mem_map.mp hmem
      exact List.find?_eq_none.mp hfound strength hstrength (decide_eq_true hid)
    rw [if_neg hmissing, Option.getD_none]
  | some strength =>
    have hid : strength.id = base := by simpa using List.find?_some hfound
    rw [if_pos (List.mem_map.mpr ⟨strength, List.mem_of_find?_eq_some hfound, hid⟩), Option.getD_some, hid]

/-- A map whose keys are apart is the list of its entries. -/
theorem foldl_put {α : Type} {entries : List (Text × α)} : ∀ map : List (Text × α),
    ((map ++ entries).map Prod.fst).Nodup → entries.foldl put map = map ++ entries := by
  induction entries with
  | nil => exact fun map _ => (List.append_nil map).symm
  | cons entry entries ih =>
    intro map h
    have hfree : map.any (·.1 = entry.1) = false := by
      refine Bool.eq_false_iff.mpr fun hany => ?_
      obtain ⟨other, hother, hkey⟩ := List.any_eq_true.mp hany
      rw [List.map_append, List.nodup_append] at h
      exact h.2.2 other.1 (List.mem_map_of_mem hother) entry.1 (List.mem_map_of_mem List.mem_cons_self)
        (of_decide_eq_true hkey)
    rw [List.foldl_cons, put, hfree, if_neg Bool.false_ne_true, ih _ (by rwa [List.append_assoc]), List.append_assoc,
      List.singleton_append]

/-! ## Reading the bundle -/

/-- What the phone holds of a word of the computer's. -/
def VocabularyWord.ofEntry (entry : VocabularyEntry) : VocabularyWord where
  term := entry.term
  context := entry.context
  profiles := entry.profiles.toFinset
  keyTerm := entry.keyTerm
  priority := entry.starred
  source := entry.source
  frequency := entry.frequency
  lastUsedMs := entry.lastUsedMs

/-- What the phone holds of a profile of the computer's. -/
def WritingProfileSettings.ofProfile (profile : Speecher.WritingProfileSettings) : WritingProfileSettings :=
  (withCleanupLevel
      { instructions := profile.instructions, name := profile.name, outputLanguage := profile.outputLanguage }
      profile.cleanupStrength).withTone profile.tone

theorem WritingProfileSettings.ofProfile_frame (profile : Speecher.WritingProfileSettings) :
    (ofProfile profile).name = profile.name ∧ (ofProfile profile).instructions = profile.instructions ∧
      (ofProfile profile).outputLanguage = profile.outputLanguage ∧ (ofProfile profile).toneId = profile.tone ∧
        (ofProfile profile).cleanupLevelId = profile.cleanupStrength := by
  simp only [ofProfile, toneId_withTone, withTone_frame, withCleanupLevel_frame, cleanupLevelId_withCleanupLevel, and_self]

/-- What the phone holds of a level of the computer's. -/
def CustomCleanupLevel.ofLevel (level : Speecher.CustomCleanupLevel) : CustomCleanupLevel :=
  ⟨level.id, level.name, (CleanupStrength.entries.find? (·.id = level.base)).getD .balanced, level.instructions⟩

/-- What the phone has of the computer's settings: everything, in the same order, a level's base where it is one. -/
structure Recovers (settings : SentSettings) (computerName : Text) (read : ComputerSettings) : Prop where
  computer : read.computer = computerName
  vocabulary : read.vocabulary = settings.vocabulary.map VocabularyWord.ofEntry
  replacements : read.replacements = settings.bindings.map fun rule => ⟨rule.phrase, rule.replacement⟩
  writingProfiles :
    (read.writingProfiles.map fun p =>
        (p.1, p.2.name, p.2.instructions, p.2.outputLanguage, p.2.toneId, p.2.cleanupLevelId)) =
      settings.writingProfiles.map fun p =>
        (p.profile, p.name, p.instructions, p.outputLanguage, p.tone, p.cleanupStrength)
  customTones : read.customTones = settings.customTones.map fun tone => ⟨tone.id, tone.name, tone.instruction⟩
  customCleanupLevels :
    (read.customCleanupLevels.map fun level => (level.id, level.name, level.base.id, level.instructions)) =
      settings.customCleanupLevels.map fun level =>
        (level.id, level.name,
          if level.base ∈ CleanupStrength.entries.map CleanupStrength.id then level.base else CleanupStrength.balanced.id,
          level.instructions)
  additionalInstructions : read.additionalInstructions = settings.additionalInstructions

section Reading

variable (org : OrgJson)

theorem mapM_map {α β γ : Type} {f : α → β} {g : β → Option γ} {k : α → γ} :
    ∀ {l : List α}, (∀ a ∈ l, g (f a) = some (k a)) → (l.map f).mapM g = some (l.map k)
  | [], _ => rfl
  | a :: l, h => by
    rw [List.map_cons, List.mapM_cons, h a List.mem_cons_self, mapM_map fun b hb => h b (List.mem_cons_of_mem a hb)]
    rfl

theorem objects_array {object : Json} {key : String} {α : Type} {f : α → Json} {l : List α}
    (h : object.value key = some (.array (l.map f))) (hf : ∀ a, ∃ fields, f a = .object fields) :
    objects object key = some (l.map f) := by
  rw [objects, getJSONArray, h]
  refine mapM_map fun a _ => ?_
  obtain ⟨fields, hfields⟩ := hf a
  rw [hfields]

theorem readVocabularyWord_toTransfer {entry : VocabularyEntry} (h : entry.Sized) :
    readVocabularyWord org entry.toTransfer = some (VocabularyWord.ofEntry entry) := by
  have hprofiles : (entry.profiles.map Json.string).mapM org.string = some entry.profiles := by
    rw [mapM_map (k := id) fun text _ => org.string_string text, List.map_id]
  have hfrequency := org.int_number entry.frequency h.frequency.1 h.frequency.2
  have hlastUsed := org.long_number entry.lastUsedMs h.lastUsedMs.1 h.lastUsedMs.2
  simp [readVocabularyWord, VocabularyEntry.toTransfer, getString, getBoolean, getInt, getLong, getJSONArray, Json.ofTexts,
    hprofiles, hfrequency, hlastUsed, org.string_string, org.boolean_bool, VocabularyWord.ofEntry]

theorem readReplacement_toTransfer (rule : BindingRule) :
    readReplacement org rule.toTransfer = some ⟨rule.phrase, rule.replacement⟩ := by
  simp [readReplacement, BindingRule.toTransfer, getString, org.string_string]

theorem readWritingProfile_toTransfer (profile : Speecher.WritingProfileSettings) :
    readWritingProfile org profile.toTransfer =
      some (profile.profile, WritingProfileSettings.ofProfile profile) := by
  simp [readWritingProfile, Speecher.WritingProfileSettings.toTransfer, getString, org.string_string,
    WritingProfileSettings.ofProfile]

theorem readCustomTone_toTransfer (tone : Speecher.CustomTone) :
    readCustomTone org tone.toTransfer = some ⟨tone.id, tone.name, tone.instruction⟩ := by
  simp [readCustomTone, Speecher.CustomTone.toTransfer, getString, org.string_string]

theorem readCustomCleanupLevel_toTransfer (level : Speecher.CustomCleanupLevel) :
    readCustomCleanupLevel org level.toTransfer = some (CustomCleanupLevel.ofLevel level) := by
  simp [readCustomCleanupLevel, Speecher.CustomCleanupLevel.toTransfer, getString, org.string_string,
    CustomCleanupLevel.ofLevel]

/-- **The settings are read back.** -/
theorem parseComputerSettings_phoneTransferBundle (java : JavaText) (json : JsonText) (settings : SentSettings)
    (hsized : ∀ entry ∈ settings.vocabulary, entry.Sized) (hids : (settings.writingProfiles.map (·.profile)).Nodup)
    (computerName : Text) :
    ∃ read, parseComputerSettings org json (java.decode (phoneTransferBundle json settings computerName)) = some read ∧
      Recovers settings computerName read := by
  have hparse : json.fromJson (java.decode (phoneTransferBundle json settings computerName)) =
      some (.object (settings.toTransfer computerName)) := by
    rw [phoneTransferBundle, java.decode_utf8, json.fromJson_toJson]
  have hformat : getInt org (.object (settings.toTransfer computerName)) "format" = some 1 := by
    simpa [getInt, SentSettings.toTransfer, kFormat] using org.int_number 1 (by decide) (by decide)
  have hcomputer : getString org (.object (settings.toTransfer computerName)) "computer" = some computerName := by
    simp [getString, SentSettings.toTransfer, org.string_string]
  have hinstructions : getString org (.object (settings.toTransfer computerName)) "additionalInstructions" =
      some settings.additionalInstructions := by
    simp [getString, SentSettings.toTransfer, org.string_string]
  have hvocabulary : objects (.object (settings.toTransfer computerName)) "vocabulary" =
      some (settings.vocabulary.map VocabularyEntry.toTransfer) :=
    objects_array (by simp [SentSettings.toTransfer]) fun _ => ⟨_, rfl⟩
  have hreplacements : objects (.object (settings.toTransfer computerName)) "replacements" =
      some (settings.bindings.map BindingRule.toTransfer) :=
    objects_array (by simp [SentSettings.toTransfer]) fun _ => ⟨_, rfl⟩
  have hprofiles : objects (.object (settings.toTransfer computerName)) "writingProfiles" =
      some (settings.writingProfiles.map Speecher.WritingProfileSettings.toTransfer) :=
    objects_array (by simp [SentSettings.toTransfer]) fun _ => ⟨_, rfl⟩
  have htones : objects (.object (settings.toTransfer computerName)) "customTones" =
      some (settings.customTones.map Speecher.CustomTone.toTransfer) :=
    objects_array (by simp [SentSettings.toTransfer]) fun _ => ⟨_, rfl⟩
  have hlevels : objects (.object (settings.toTransfer computerName)) "customCleanupLevels" =
      some (settings.customCleanupLevels.map Speecher.CustomCleanupLevel.toTransfer) :=
    objects_array (by simp [SentSettings.toTransfer]) fun _ => ⟨_, rfl⟩
  have hentries : ((settings.writingProfiles.map fun p => (p.profile, WritingProfileSettings.ofProfile p)).map
      Prod.fst).Nodup := by
    rwa [List.map_map]
  have hread : parseComputerSettings org json (java.decode (phoneTransferBundle json settings computerName)) =
      some ⟨computerName, settings.vocabulary.map VocabularyWord.ofEntry,
        settings.bindings.map fun rule => ⟨rule.phrase, rule.replacement⟩,
        settings.writingProfiles.map fun p => (p.profile, WritingProfileSettings.ofProfile p),
        settings.customTones.map fun tone => ⟨tone.id, tone.name, tone.instruction⟩,
        settings.customCleanupLevels.map CustomCleanupLevel.ofLevel, settings.additionalInstructions⟩ := by
    simp only [parseComputerSettings, hparse, hformat, hcomputer, hinstructions, hvocabulary, hreplacements, hprofiles,
      htones, hlevels, Option.bind_eq_bind, Option.bind_some, guard_true, Option.pure_def,
      mapM_map fun entry hentry => readVocabularyWord_toTransfer org (hsized entry hentry),
      mapM_map fun rule _ => readReplacement_toTransfer org rule,
      mapM_map fun profile _ => readWritingProfile_toTransfer org profile,
      mapM_map fun tone _ => readCustomTone_toTransfer org tone,
      mapM_map fun level _ => readCustomCleanupLevel_toTransfer org level]
    rw [foldl_put [] hentries]
    rfl
  refine ⟨_, hread, ⟨rfl, rfl, rfl, ?_, rfl, ?_, rfl⟩⟩
  · rw [List.map_map]
    refine List.map_congr_left fun p _ => ?_
    simp only [Function.comp, WritingProfileSettings.ofProfile_frame]
  · rw [List.map_map]
    refine List.map_congr_left fun level _ => ?_
    simp only [Function.comp, CustomCleanupLevel.ofLevel, id_readBase]

end Reading

/-! ## The link and the settings -/

/-- **What the computer sends is what the phone reads.** The link, with one to four private addresses, and every part
of the settings. A level's base comes through where it is one that Speecher has, and as a balanced one where not. -/
theorem transfer_readsBack (java : JavaText) (json : JsonText) (org : OrgJson) :
    (∀ (addresses : List Inet4Address) (port : UInt16) (token key : List UInt8) (computerName : Text),
      addresses ≠ [] → addresses.length ≤ 4 → (∀ address ∈ addresses, address.isPrivateIPv4 = true) → port ≠ 0 →
      token.length = kTokenSize → key.length = kKeySize →
        parseImportLink java (phoneTransferLink (addresses.map Inet4Address.toText) port token key computerName) =
          .ok ⟨addresses, port.toNat, token, key, computerName⟩) ∧
      ∀ (settings : SentSettings) (computerName : Text), (∀ entry ∈ settings.vocabulary, entry.Sized) →
        (settings.writingProfiles.map (·.profile)).Nodup →
          ∃ read,
            parseComputerSettings org json (java.decode (phoneTransferBundle json settings computerName)) = some read ∧
              Recovers settings computerName read :=
  ⟨fun _ _ _ _ computerName hne hmax hprivate hport htoken hkey =>
      parseImportLink_phoneTransferLink java hne hmax hprivate hport htoken hkey computerName,
    fun settings computerName hsized hids =>
      parseComputerSettings_phoneTransferBundle org java json settings hsized hids computerName⟩

/-- A computer with one word, for one profile. -/
def kubernetesSettings : SentSettings where
  vocabulary := [⟨"Kubernetes".toList, "manual".toList, true, 41, 1790000000000, [], [WritingProfile.work], true⟩]
  learnedCorrections := []
  bindings := [⟨"my address".toList, "Flat 3".toList⟩]
  customTones := []
  customCleanupLevels := []
  writingProfiles := [defaultSettingsOf WritingProfile.work]
  appRecognitionRules := []
  defaultWritingProfile := WritingProfile.work
  writingProfileOverrides := []
  additionalInstructions := "Use British spelling.".toList

def homeAddresses : List Inet4Address := [⟨192, 168, 1, 20⟩, ⟨10, 0, 0, 5⟩]

theorem transfer_readsBack_kubernetes :
    parseImportLink .ascii
        (phoneTransferLink (homeAddresses.map Inet4Address.toText) 53817 (List.replicate 16 7) (List.replicate 32 9)
          "enzo's pc+1".toList) =
        .ok ⟨homeAddresses, 53817, List.replicate 16 7, List.replicate 32 9, "enzo's pc+1".toList⟩ ∧
      ∃ read,
        parseComputerSettings .strict .compact
            (JavaText.ascii.decode (phoneTransferBundle .compact kubernetesSettings "desk".toList)) = some read ∧
          Recovers kubernetesSettings "desk".toList read := by
  refine ⟨(transfer_readsBack .ascii .compact .strict).1 homeAddresses 53817 _ _ _ (by decide) (by decide) (by decide)
    (by decide) rfl rfl, (transfer_readsBack .ascii .compact .strict).2 kubernetesSettings _ ?_ ?_⟩
  · intro entry hentry
    rw [List.mem_singleton.mp hentry]
    exact ⟨by decide, by decide⟩
  · exact List.nodup_singleton _

/-- A settings file with a cleanup level on a base that Speecher has not. -/
def polishFile : SettingsFile :=
  { SettingsFile.empty with
    customCleanupLevels := .array
      [.object [("id", .string "custom_terse".toList), ("name", .string "Terse".toList), ("base", .string "polish".toList),
        ("instructions", .string "Cut filler.".toList)]] }

/-- The snapshot of a settings file, with no further instructions. -/
def snapshotOf (file : SettingsFile) : SentSettings := ⟨SettingsCodecs.snapshot .asciiLetters .basic .ascii file, []⟩

/-- A base that Speecher has not does not come through, nor is a link read whose port is 0. -/
theorem unknown_base_lost :
    (¬ ∀ file : SettingsFile, ((snapshotOf file).writingProfiles.map (·.profile)).Nodup →
      ∃ read,
        parseComputerSettings .strict .compact
            (JavaText.ascii.decode (phoneTransferBundle .compact (snapshotOf file) "desk".toList)) = some read ∧
          (read.customCleanupLevels.map fun level => (level.id, level.name, level.base.id, level.instructions)) =
            (snapshotOf file).customCleanupLevels.map fun level =>
              (level.id, level.name, level.base, level.instructions)) ∧
      parseImportLink .ascii
          (phoneTransferLink (homeAddresses.map Inet4Address.toText) 0 (List.replicate 16 7) (List.replicate 32 9) []) =
        .error .notSpeecherCode := by
  refine ⟨fun hall => ?_, by decide⟩
  have hids : ((snapshotOf polishFile).writingProfiles.map (·.profile)).Nodup := by decide
  have hwords : (snapshotOf polishFile).vocabulary = [] := by decide
  obtain ⟨read, hread, hlevels⟩ := hall polishFile hids
  obtain ⟨read', hread', hrecovers⟩ := parseComputerSettings_phoneTransferBundle .strict .ascii .compact
    (snapshotOf polishFile) (by rw [hwords]; exact fun _ h => absurd h List.not_mem_nil) hids "desk".toList
  obtain rfl : read = read' := Option.some.inj (hread.symm.trans hread')
  have hsame := hlevels.symm.trans hrecovers.customCleanupLevels
  exact absurd hsame (by decide)

end Android

end Speecher
