import Speecher.Bindings.Pipeline
import Speecher.Settings.Vocabulary

/-!
# The settings file

`SettingsCodecs`, as far as the user's lists go: how a snapshot of the settings is read from the file and
a draft written to it. A profile, tone or level the user deleted leaves what named it: the codecs check
each reference against the choices the file holds, when they read it and when they write it.

The file's JSON texts are held as the values they parse to, `null` for what is none. The other fields of
the settings are read and written each by itself and name no choice.
-/

namespace Speecher

/-- How the platform writes text in lower case. -/
structure LowerCase where
  char : Char → Text
  ne_nil : ∀ c, char c ≠ []
  space : ∀ c, ∀ d ∈ char c, isSpace d = isSpace c
  char_char : ∀ c, (char c).flatMap char = char c
  ascii : ∀ c, c.isLower = true ∨ c = '_' → char c = [c]

variable (lower : LowerCase)

/-- `QString::toLower`. -/
def LowerCase.text (text : Text) : Text := text.flatMap lower.char

/-- The lists of the settings file. -/
structure SettingsFile where
  refinementStyle : Option Text
  customTones : Json
  customCleanupLevels : Json
  /-- Nothing while no profile was saved. -/
  writingProfiles : Option Json
  appRecognitionRules : Json
  defaultWritingProfile : Option Text
  writingProfileOverrides : Json
  vocabularyEntries : Json
  legacyVocabulary : List Text
  corrections : CorrectionFile
  bindingRules : Json

/-- A file that holds nothing. -/
def SettingsFile.empty : SettingsFile :=
  ⟨none, .null, .null, none, .null, none, .null, .null, [], .empty, .null⟩

/-! ## Names -/

def appCategoryName : AppCategory → Text
  | .unknown => "unknown".toList
  | .general => "general".toList
  | .terminal => "terminal".toList
  | .browser => "browser".toList
  | .email => "email".toList
  | .office => "office".toList
  | .codeEditor => "code_editor".toList
  | .aiCoding => "ai_coding".toList

def appCategoryFromName (name : Text) : AppCategory :=
  ([AppCategory.general, .terminal, .browser, .email, .office, .codeEditor, .aiCoding].find? fun category =>
    lower.text (trimmed name) = appCategoryName category).getD .unknown

/-- The profile a stored id names; an old release's is Work, and an unknown one Other. -/
def writingProfileFromName (name : Text) : Text :=
  let normalized := lower.text (trimmed name)
  if normalized = "technical".toList then WritingProfile.work
  else if isBuiltInWritingProfile normalized || kCustomIdPrefix.isPrefixOf normalized then normalized
  else WritingProfile.other

/-- The id when it is built in or one of the custom choices. -/
def offeredChoice {α : Type} (value : Text) (builtIn : List Text) (custom : List α) (idOf : α → Text)
    (fallback : Text) : Text :=
  let id := lower.text (trimmed value)
  if builtIn.contains id || custom.any (idOf · = id) then id else fallback

def cleanupStrength (value : Text) (levels : List CustomCleanupLevel) : Text :=
  offeredChoice lower value kBuiltInCleanupLevels levels CustomCleanupLevel.id "balanced".toList

def writingTone (value : Text) (tones : List CustomTone) : Text :=
  offeredChoice lower value kBuiltInTones tones CustomTone.id "none".toList

/-! ## Entries as JSON -/

def CustomTone.toJson (tone : CustomTone) : Json :=
  .object [("id", .string tone.id), ("name", .string tone.name), ("instruction", .string tone.instruction)]

def CustomTone.ofJson (object : Json) : CustomTone where
  id := Json.toText (object.value "id")
  name := Json.toText (object.value "name")
  instruction := Json.toText (object.value "instruction")

def CustomCleanupLevel.toJson (level : CustomCleanupLevel) : Json :=
  .object
    [("id", .string level.id), ("name", .string level.name), ("base", .string level.base),
      ("instructions", .string level.instructions)]

def CustomCleanupLevel.ofJson (object : Json) : CustomCleanupLevel where
  id := Json.toText (object.value "id")
  name := Json.toText (object.value "name")
  base := Json.toText (object.value "base")
  instructions := Json.toText (object.value "instructions")

/-- Haiku 4.5, dated or not, has left the picker for Haiku 5.5. -/
def replacedAnthropicModel (model : Text) : Text :=
  if model = "claude-haiku-4-5".toList || model = "claude-haiku-4-5-20251001".toList then "claude-haiku-5-5".toList
  else model

/-- A profile's own provider for a role and its model. -/
def readProfileProvider (object : Json) (role : ProviderRole) (providerKey modelKey : String) : Text × Text :=
  let provider := Json.toText (object.value providerKey)
  if !isChainProviderId role provider then ([], [])
  else
    let model := trimmed (Json.toText (object.value modelKey))
    (provider, if (parseProviderId provider).any (·.id = .anthropic) then replacedAnthropicModel model else model)

/-- The two fields of a profile's own provider. -/
def writeProfileProvider (role : ProviderRole) (providerKey modelKey : String) (provider model : Text) :
    List (String × Option Json) :=
  if !isChainProviderId role provider then [(providerKey, none), (modelKey, none)]
  else [(providerKey, some (.string provider)), (modelKey, unlessEmpty (trimmed model))]

def WritingProfileSettings.toJson (levels : List CustomCleanupLevel) (tones : List CustomTone)
    (settings : WritingProfileSettings) : Json :=
  .ofFields <|
    [("profile", some (.string settings.profile)),
      ("cleanupStrength", some (.string (Speecher.cleanupStrength lower settings.cleanupStrength levels))),
      ("tone", some (.string (writingTone lower settings.tone tones))),
      ("instructions", some (.string settings.instructions)),
      ("name", if isBuiltInWritingProfile settings.profile then none else some (.string settings.name)),
      ("outputLanguage", unlessEmpty settings.outputLanguage)] ++
      writeProfileProvider .speech "speechProvider" "speechModel" settings.speechProvider settings.speechModel ++
      writeProfileProvider .refinement "refinementProvider" "refinementModel" settings.refinementProvider
        settings.refinementModel

def WritingProfileSettings.ofJson (levels : List CustomCleanupLevel) (tones : List CustomTone)
    (object : Json) : WritingProfileSettings :=
  let speech := readProfileProvider object .speech "speechProvider" "speechModel"
  let refinement := readProfileProvider object .refinement "refinementProvider" "refinementModel"
  { profile := writingProfileFromName lower (Json.toText (object.value "profile"))
    cleanupStrength := Speecher.cleanupStrength lower (Json.toText (object.value "cleanupStrength")) levels
    tone := writingTone lower (Json.toText (object.value "tone")) tones
    instructions := Json.toText (object.value "instructions")
    name := Json.toText (object.value "name")
    outputLanguage := Json.toText (object.value "outputLanguage")
    speechProvider := speech.1
    speechModel := speech.2
    refinementProvider := refinement.1
    refinementModel := refinement.2 }

/-- A rule pointing at a deleted profile loses the profile. -/
def withoutDeletedProfile (rule : AppRecognitionRule) (profiles : List WritingProfileSettings) : AppRecognitionRule :=
  if rule.writingProfile.any fun id => (offeredWritingProfile id profiles []).isEmpty then
    { rule with writingProfile := none }
  else rule

/-- A rule as it is stored, unless nothing is left to set. -/
def AppRecognitionRule.toJson (profiles : List WritingProfileSettings) (stored : AppRecognitionRule) : Option Json :=
  let rule := withoutDeletedProfile stored profiles
  if (trimmed rule.appMatch).isEmpty || (rule.category.isNone && rule.writingProfile.isNone) then none
  else
    some (.ofFields
      [("match", some (.string (trimmed rule.appMatch))),
        ("category", rule.category.map fun category => .string (appCategoryName category)),
        ("writingProfile", rule.writingProfile.map .string)])

def AppRecognitionRule.ofJson (profiles : List WritingProfileSettings) (object : Json) : Option AppRecognitionRule :=
  let category := Json.toText (object.value "category")
  let parsed := appCategoryFromName lower category
  let profile := Json.toText (object.value "writingProfile")
  let rule := withoutDeletedProfile
    { appMatch := trimmed (Json.toText (object.value "match"))
      category := if category.isEmpty || parsed = .unknown then none else some parsed
      writingProfile := if profile.isEmpty then none else some (writingProfileFromName lower profile) } profiles
  if rule.appMatch.isEmpty || (rule.category.isNone && rule.writingProfile.isNone) then none else some rule

def WritingProfileOverride.toJson (override : WritingProfileOverride) : Option Json :=
  let applicationId := trimmed override.applicationId
  if applicationId.isEmpty then none
  else
    some (.object
      [("applicationId", .string applicationId), ("profile", .string override.profile),
        ("enabled", .bool override.enabled)])

def WritingProfileOverride.ofJson (object : Json) : Option WritingProfileOverride :=
  let applicationId := trimmed (Json.toText (object.value "applicationId"))
  if applicationId.isEmpty then none
  else
    some ⟨applicationId, writingProfileFromName lower (Json.toText (object.value "profile")),
      Json.toBool true (object.value "enabled")⟩

def VocabularyEntry.toJson (entry : VocabularyEntry) : Json :=
  .ofFields
    [("term", some (.string entry.term)), ("source", some (.string entry.source)),
      ("starred", some (.bool entry.starred)), ("frequency", some (.number entry.frequency)),
      ("lastUsedMs", some (.number entry.lastUsedMs)), ("context", unlessEmpty entry.context),
      ("profiles", if entry.profiles.isEmpty then none else some (.ofTexts entry.profiles)),
      ("keyTerm", if entry.keyTerm then none else some (.bool false))]

def VocabularyEntry.ofJson (object : Json) : VocabularyEntry where
  term := Json.toText (object.value "term")
  source := match object.value "source" with
    | some (.string source) => source
    | _ => "manual".toList
  starred := Json.toBool false (object.value "starred")
  frequency := Json.toInt 0 (object.value "frequency")
  lastUsedMs := truncated (Json.toNumber 0 (object.value "lastUsedMs"))
  context := Json.toText (object.value "context")
  profiles := ((object.value "profiles").elim [] Json.items).map fun profile => Json.toText (some profile)
  keyTerm := Json.toBool true (object.value "keyTerm")

def BindingRule.toJson (rule : BindingRule) : Json :=
  .object [("phrase", .string rule.phrase), ("replacement", .string rule.replacement)]

def BindingRule.ofJson (object : Json) : Option BindingRule :=
  let phrase := trimmed (Json.toText (object.value "phrase"))
  let replacement := Json.toText (object.value "replacement")
  if phrase.isEmpty || (trimmed replacement).isEmpty then none else some ⟨phrase, replacement⟩

/-! ## Profiles -/

/-- The balanced profile without a tone. -/
def defaultSettingsOf (profile : Text) : WritingProfileSettings :=
  ⟨profile, "balanced".toList, "none".toList, [], [], [], [], [], [], []⟩

def builtInProfiles : List Text :=
  [WritingProfile.work, WritingProfile.email, WritingProfile.personal, WritingProfile.aiCoding, WritingProfile.other]

def defaultWritingProfileSettings : List WritingProfileSettings := builtInProfiles.map defaultSettingsOf

def writingProfileSettingsFor (settings : List WritingProfileSettings) (profile : Text) : WritingProfileSettings :=
  match settings.find? (·.profile = profile) with
  | some candidate => candidate
  | none => (defaultWritingProfileSettings.find? (·.profile = profile)).getD (defaultSettingsOf WritingProfile.other)

/-- The profiles the user added. -/
def customWritingProfiles (profiles : List WritingProfileSettings) : List WritingProfileSettings :=
  profiles.filter fun profile => kCustomIdPrefix.isPrefixOf profile.profile

/-- Settings saved before the AI coding profile existed inherit Work's tuning. -/
def resolvedProfile (settings : List WritingProfileSettings) (profile : Text) : WritingProfileSettings :=
  if profile = WritingProfile.aiCoding && !settings.any (·.profile = WritingProfile.aiCoding) then
    { writingProfileSettingsFor settings WritingProfile.work with profile := WritingProfile.aiCoding }
  else writingProfileSettingsFor settings profile

/-- Terms lose the profiles that are no longer there. -/
def withOfferedProfiles (entries : List VocabularyEntry) (profiles : List WritingProfileSettings) :
    List VocabularyEntry :=
  entries.map fun entry => { entry with profiles := offeredVocabularyProfiles entry.profiles profiles }

variable (u : Unicode) (fold : CaseFolding)

namespace SettingsCodecs

def customTones (file : SettingsFile) : List CustomTone := file.customTones.items.map CustomTone.ofJson

def setCustomTones (file : SettingsFile) (value : List CustomTone) : SettingsFile :=
  { file with customTones := .array (value.map CustomTone.toJson) }

def customCleanupLevels (file : SettingsFile) : List CustomCleanupLevel :=
  file.customCleanupLevels.items.map CustomCleanupLevel.ofJson

def setCustomCleanupLevels (file : SettingsFile) (value : List CustomCleanupLevel) : SettingsFile :=
  { file with customCleanupLevels := .array (value.map CustomCleanupLevel.toJson) }

def refinementStyle (file : SettingsFile) : Text :=
  let style := file.refinementStyle.getD "balanced".toList
  if style = "strong_polish".toList || style = "balanced".toList || style = "light_cleanup".toList then style
  else "balanced".toList

def writingProfileSettings (file : SettingsFile) : List WritingProfileSettings :=
  match file.writingProfiles with
  | none => defaultWritingProfileSettings.map ({ · with cleanupStrength := refinementStyle file })
  | some (.array items) =>
    let settings := items.map (.ofJson lower (customCleanupLevels file) (customTones file))
    builtInProfiles.map (resolvedProfile settings) ++ customWritingProfiles settings
  | some _ => defaultWritingProfileSettings

/-- The terms the file holds, or those of a release before terms had more than a text. -/
def loadVocabulary (file : SettingsFile) : List VocabularyEntry :=
  normalizeVocabularyEntries fold <|
    match file.vocabularyEntries with
    | .array items => items.map VocabularyEntry.ofJson
    | _ => file.legacyVocabulary.map fun term => { VocabularyEntry.ofTerm term with source := "legacy".toList }

def storeVocabulary (file : SettingsFile) (entries : List VocabularyEntry) : SettingsFile :=
  let normalized := normalizeVocabularyEntries fold entries
  { file with
    vocabularyEntries := .array (normalized.map VocabularyEntry.toJson)
    legacyVocabulary := normalized.map VocabularyEntry.term }

def vocabularyEntries (file : SettingsFile) : List VocabularyEntry :=
  withOfferedProfiles (loadVocabulary fold file) (writingProfileSettings lower file)

def setVocabularyEntries (file : SettingsFile) (entries : List VocabularyEntry) : SettingsFile :=
  storeVocabulary fold file (withOfferedProfiles entries (writingProfileSettings lower file))

def setWritingProfileSettings (file : SettingsFile) (value : List WritingProfileSettings) : SettingsFile :=
  let profiles := builtInProfiles.map (writingProfileSettingsFor value) ++ customWritingProfiles value
  let file :=
    { file with
      writingProfiles := some (.array (profiles.map (·.toJson lower (customCleanupLevels file) (customTones file)))) }
  -- A deleted profile leaves the stored terms it limited now, not only when they are next read.
  setVocabularyEntries lower fold file (vocabularyEntries lower fold file)

def appRecognitionRules (file : SettingsFile) : List AppRecognitionRule :=
  file.appRecognitionRules.items.filterMap (AppRecognitionRule.ofJson lower (writingProfileSettings lower file))

def setAppRecognitionRules (file : SettingsFile) (rules : List AppRecognitionRule) : SettingsFile :=
  { file with appRecognitionRules := .array (rules.filterMap (·.toJson (writingProfileSettings lower file))) }

def defaultWritingProfile (file : SettingsFile) : Text :=
  offeredWritingProfile (writingProfileFromName lower (file.defaultWritingProfile.getD WritingProfile.other))
    (writingProfileSettings lower file) WritingProfile.other

def setDefaultWritingProfile (file : SettingsFile) (value : Text) : SettingsFile :=
  { file with
    defaultWritingProfile := some (offeredWritingProfile (writingProfileFromName lower value)
      (writingProfileSettings lower file) WritingProfile.other) }

def writingProfileOverrides (file : SettingsFile) : List WritingProfileOverride :=
  file.writingProfileOverrides.items.filterMap (WritingProfileOverride.ofJson lower)

def setWritingProfileOverrides (file : SettingsFile) (value : List WritingProfileOverride) : SettingsFile :=
  { file with writingProfileOverrides := .array (value.filterMap WritingProfileOverride.toJson) }

def learnedCorrections (file : SettingsFile) : List LearnedCorrection := load file.corrections

def setLearnedCorrections (file : SettingsFile) (corrections : List LearnedCorrection) : SettingsFile :=
  { file with corrections := store file.corrections corrections }

def bindingRules (file : SettingsFile) : List BindingRule :=
  (validateRules u (file.bindingRules.items.filterMap BindingRule.ofJson)).rules

/-- Replacements with an issue are not stored. -/
def setBindingRules (file : SettingsFile) (rules : List BindingRule) : SettingsFile :=
  let validated := validateRules u rules
  if validated.issues.isEmpty then { file with bindingRules := .array (validated.rules.map BindingRule.toJson) }
  else file

def snapshot (file : SettingsFile) : AppSettings where
  customTones := customTones file
  customCleanupLevels := customCleanupLevels file
  writingProfiles := writingProfileSettings lower file
  appRecognitionRules := appRecognitionRules lower file
  defaultWritingProfile := defaultWritingProfile lower file
  writingProfileOverrides := writingProfileOverrides lower file
  vocabulary := vocabularyEntries lower fold file
  learnedCorrections := learnedCorrections file
  bindings := bindingRules u file

/-- The draft's fields written one after the other: tones and levels before the profiles that choose
them, and the profiles before what names them. -/
def writeSnapshot (file : SettingsFile) (draft : AppSettings) : SettingsFile :=
  let file := setCustomTones file draft.customTones
  let file := setCustomCleanupLevels file draft.customCleanupLevels
  let file := setWritingProfileSettings lower fold file draft.writingProfiles
  let file := setAppRecognitionRules lower file draft.appRecognitionRules
  let file := setDefaultWritingProfile lower file draft.defaultWritingProfile
  let file := setWritingProfileOverrides file draft.writingProfileOverrides
  let file := setVocabularyEntries lower fold file draft.vocabulary
  let file := setLearnedCorrections file draft.learnedCorrections
  setBindingRules u file draft.bindings

end SettingsCodecs

end Speecher
