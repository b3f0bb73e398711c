import Mathlib.Data.Finset.Filter
import Speecher.Settings.AndroidVocabulary
import Speecher.Settings.AppRecognition

/-!
# Importing a computer's settings

`withImported` merges a computer's settings into a phone's: a word is one of the same term, a replacement one of the same
phrase, a tone or a level one of the same id. The merged words are listed again, and what points at a tone, a level or a
profile that is not among the merged ones loses it (`withCustomChoices`, `withWritingProfiles`). `importPreview` says
beforehand what will be added and what will be changed.
-/

namespace Speecher.Android

/-! ## The phone's settings -/

/-- Falls back to Medium or no tone override when the custom level or tone chosen is gone. -/
def WritingProfileSettings.withoutDeleted (tones : List CustomTone) (levels : List CustomCleanupLevel)
    (settings : WritingProfileSettings) : WritingProfileSettings :=
  let leveled :=
    if settings.customCleanupLevel.any fun id => levels.all (·.id ≠ id) then
      settings.withCleanupLevel CleanupStrength.balanced.id
    else settings
  if settings.customTone.any fun id => tones.all (·.id ≠ id) then leveled.withTone Tone.none.id else leveled

/-- A phone's settings, those that importing reads or changes. -/
@[ext]
structure SpeecherSettings where
  vocabulary : List VocabularyWord
  replacements : List Replacement
  defaultWritingProfile : Text
  writingProfiles : List (Text × WritingProfileSettings)
  appRules : List AppRecognitionRule
  additionalInstructions : Text
  customTones : List CustomTone
  customCleanupLevels : List CustomCleanupLevel
  deriving DecidableEq

/-- A word limited to none but the profiles there are. -/
def VocabularyWord.confined (word : VocabularyWord) (profiles : List Text) : VocabularyWord :=
  { word with profiles := word.profiles.filter (· ∈ profiles) }

namespace SpeecherSettings

variable (settings : SpeecherSettings)

/-- The ids of the profiles. -/
def profileIds : List Text := settings.writingProfiles.map Prod.fst

/-- Settings whose profiles use no tone and no level that is gone. -/
def withCustomChoices : SpeecherSettings :=
  { settings with
    writingProfiles := settings.writingProfiles.map fun it =>
      (it.1, it.2.withoutDeleted settings.customTones settings.customCleanupLevels) }

/-- Settings in which nothing points at a profile that is gone. -/
def withWritingProfiles : SpeecherSettings :=
  { settings with
    appRules :=
      (settings.appRules.map fun it =>
          if it.writingProfile.any (· ∈ settings.profileIds) then it else { it with writingProfile := none }).filter
        fun it => it.category.isSome || it.writingProfile.isSome
    defaultWritingProfile :=
      if settings.defaultWritingProfile ∈ settings.profileIds then settings.defaultWritingProfile
      else WritingProfile.other
    vocabulary := settings.vocabulary.map (·.confined settings.profileIds) }

end SpeecherSettings

/-! ## Importing -/

section Importing

variable (u : Unicode) (fold : CaseFolding)

def termKey (word : VocabularyWord) : Text := foldCase fold word.term

def phraseKey (rule : Replacement) : Text := normalizedPhrase u rule.phrase

/-- The computer's version of a word that the phone has. -/
def importedWord (phone incoming : VocabularyWord) : VocabularyWord :=
  { incoming with
    source := phone.source
    frequency := max phone.frequency incoming.frequency
    lastUsedMs := max phone.lastUsedMs incoming.lastUsedMs }

/-- The computer's version of a replacement that the phone has. -/
def importedReplacement (phone incoming : Replacement) : Replacement := { phone with text := incoming.text }

/-- The phone's settings with the computer's merged in. -/
def SpeecherSettings.withImported (phone : SpeecherSettings) (computer : ComputerSettings) : SpeecherSettings :=
  SpeecherSettings.withWritingProfiles <| SpeecherSettings.withCustomChoices
    { phone with
      vocabulary :=
        normalizedVocabulary fold
          (mergedBy (termKey fold) importedWord phone.vocabulary (normalizedVocabulary fold computer.vocabulary))
      replacements := mergedBy (phraseKey u) importedReplacement phone.replacements computer.replacements
      writingProfiles := mergedBy Prod.fst (fun _ it => it) phone.writingProfiles computer.writingProfiles
      customTones := mergedBy CustomTone.id (fun _ it => it) phone.customTones computer.customTones
      customCleanupLevels :=
        mergedBy CustomCleanupLevel.id (fun _ it => it) phone.customCleanupLevels computer.customCleanupLevels
      additionalInstructions :=
        if computer.additionalInstructions.isEmpty then phone.additionalInstructions
        else computer.additionalInstructions }

/-! ## The preview -/

/-- What importing changes, by name. -/
structure ImportPreview where
  vocabulary : Changes Text
  replacements : Changes Text
  writingProfiles : Changes Text
  tonesAndLevels : Changes Text
  additionalInstructions : Option Text
  deriving DecidableEq

def ImportPreview.changesNothing (preview : ImportPreview) : Bool :=
  preview.vocabulary.isEmpty && preview.replacements.isEmpty && preview.writingProfiles.isEmpty &&
    preview.tonesAndLevels.isEmpty && preview.additionalInstructions.isNone

/-- What of a word is a setting. -/
def VocabularyWord.setting (word : VocabularyWord) : VocabularyWord :=
  { word with source := [], frequency := 0, lastUsedMs := 0 }

def importPreview (phone : SpeecherSettings) (computer : ComputerSettings) : ImportPreview :=
  let merged := phone.withImported u fold computer
  let tones := changes CustomTone.id CustomTone.name id phone.customTones merged.customTones
  let levels :=
    changes CustomCleanupLevel.id CustomCleanupLevel.name id phone.customCleanupLevels merged.customCleanupLevels
  { vocabulary :=
      changes (termKey fold) VocabularyWord.term VocabularyWord.setting phone.vocabulary merged.vocabulary
    replacements := changes (phraseKey u) Replacement.phrase id phone.replacements merged.replacements
    writingProfiles := changes Prod.fst Prod.fst id phone.writingProfiles merged.writingProfiles
    tonesAndLevels := ⟨tones.added ++ levels.added, tones.updated ++ levels.updated⟩
    additionalInstructions :=
      if merged.additionalInstructions ≠ phone.additionalInstructions then some merged.additionalInstructions else none }

end Importing

end Speecher.Android
