import Speecher.Bindings.Matcher
import Speecher.Settings.WritingProfiles

/-!
# The user's lists in the settings

The settings hold the user's vocabulary, learned corrections and replacements, and what a dictation
is written like: the writing profiles, the tones and cleanup levels they choose from, and the
applications that get one. `AppSettings` keeps these fields of the draft a settings page edits.
-/

namespace Speecher

/-- A term the user dictates. -/
@[ext] structure VocabularyEntry where
  term : Text
  source : Text
  starred : Bool
  frequency : ℤ
  lastUsedMs : ℤ
  context : Text
  profiles : List Text
  keyTerm : Bool
  deriving DecidableEq

/-- A term as the user adds it. -/
def VocabularyEntry.ofTerm (term : Text) : VocabularyEntry := ⟨term, "manual".toList, false, 0, 0, [], [], true⟩

structure WritingProfileSettings where
  profile : Text
  cleanupStrength : Text
  tone : Text
  instructions : Text
  name : Text
  outputLanguage : Text
  speechProvider : Text
  speechModel : Text
  refinementProvider : Text
  refinementModel : Text
  deriving DecidableEq

/-- A tone the user defined. -/
structure CustomTone where
  id : Text
  name : Text
  instruction : Text
  deriving DecidableEq

/-- A cleanup level the user defined, on a built-in one or on none. -/
structure CustomCleanupLevel where
  id : Text
  name : Text
  base : Text
  instructions : Text
  deriving DecidableEq

/-- The lists of a settings draft, and the profile a dictation gets by default. -/
@[ext] structure AppSettings where
  vocabulary : List VocabularyEntry
  learnedCorrections : List LearnedCorrection
  bindings : List BindingRule
  customTones : List CustomTone
  customCleanupLevels : List CustomCleanupLevel
  writingProfiles : List WritingProfileSettings
  appRecognitionRules : List AppRecognitionRule
  defaultWritingProfile : Text
  writingProfileOverrides : List WritingProfileOverride
  deriving DecidableEq

/-! ## Ids -/

/-- What the id of every profile, tone and level of the user's starts with. -/
def kCustomIdPrefix : Text := "custom_".toList

def kBuiltInTones : List Text := ["none", "formal", "casual", "very_casual", "excited", "gen_z"].map String.toList

def kBuiltInCleanupLevels : List Text := ["none", "light_cleanup", "balanced", "strong_polish"].map String.toList

def kCustomOnlyCleanupBase : Text := "custom_only".toList

def isBuiltInWritingProfile (id : Text) : Bool :=
  id = WritingProfile.work || id = WritingProfile.email || id = WritingProfile.personal ||
    id = WritingProfile.aiCoding || id = WritingProfile.other

/-- A built-in's label. -/
def builtInLabel (id : Text) : Option Text :=
  if id = WritingProfile.work then some "Work".toList
  else if id = WritingProfile.email then some "Email".toList
  else if id = WritingProfile.personal then some "Personal".toList
  else if id = WritingProfile.aiCoding then some "AI coding".toList
  else if id = WritingProfile.other then some "Other".toList
  else none

/-- A built-in's label or the name of the profile with the id. -/
def writingProfileLabel (id : Text) (profiles : List WritingProfileSettings) : Text :=
  (builtInLabel id).getD (((profiles.find? (·.profile = id)).map (·.name)).getD [])

/-- The id when it is built in or the profiles hold it. -/
def offeredWritingProfile (id : Text) (profiles : List WritingProfileSettings) (fallback : Text) : Text :=
  if isBuiltInWritingProfile id then id
  else if profiles.any (·.profile = id) then id
  else fallback

theorem not_builtIn_of_custom {id : Text} (h : kCustomIdPrefix.isPrefixOf id = true) :
    isBuiltInWritingProfile id = false := by
  refine Bool.eq_false_iff.mpr fun hbuiltIn => ?_
  simp only [isBuiltInWritingProfile, Bool.or_eq_true, decide_eq_true_eq] at hbuiltIn
  rcases hbuiltIn with (((rfl | rfl) | rfl) | rfl) | rfl <;> exact absurd h (by decide)

/-! ## Providers -/

inductive ProviderRole
  | speech
  | refinement
  deriving DecidableEq

inductive ProviderId
  | claude
  | codex
  | openAi
  | anthropic
  | localModel
  | endpoint
  deriving DecidableEq

/-- A provider's key and what it serves. -/
structure ProviderInfo where
  id : ProviderId
  key : String
  speech : Bool
  refinement : Bool

def kProviders : List ProviderInfo :=
  [⟨.claude, "claude", true, false⟩, ⟨.codex, "codex", true, false⟩, ⟨.openAi, "openai", false, true⟩,
    ⟨.anthropic, "anthropic", false, true⟩, ⟨.localModel, "local", true, true⟩,
    ⟨.endpoint, "endpoint", true, true⟩]

def ProviderInfo.serves (info : ProviderInfo) : ProviderRole → Bool
  | .speech => info.speech
  | .refinement => info.refinement

/-- The provider a key names. -/
def parseProviderId (key : Text) : Option ProviderInfo := kProviders.find? fun provider => key = provider.key.toList

def isChainProviderId (role : ProviderRole) (id : Text) : Bool := (parseProviderId id).any (·.serves role)

end Speecher
