import Speecher.Bindings.Pipeline
import Speecher.Settings.Vocabulary

/-!
# Edits of the user's lists

What a settings page does to a draft of the settings: it adds an entry to one of the user's lists,
changes one, or removes one and gets the edit that undoes that. An edit that would leave two entries a
user cannot tell apart, or one that says too little, is refused.

Terms are tidied before every edit of one, and the profile overrides of old releases become application
rules before every edit of a rule (`Edit.prepared`). `Edit.apply` is an edit of any list; `Draft.run` a
page's edits one after the other, with every undo a removal gave still at hand.
-/

namespace Speecher

/-- A change to a draft of the settings, such as the one that undoes a removal. -/
abbrev SettingsEdit := AppSettings → AppSettings

/-- Why an edit was refused; `none` when it was not. -/
inductive EditRefusal
  | none
  | blank
  | taken
  | incomplete
  | missing
  | builtIn
  deriving DecidableEq

/-! ## Editing a list -/

section

variable {α β : Type}

/-- An entry of the list but the one at `self` is `same` as the value. -/
def takenByAnother (list : List α) (self : Option ℕ) (same : α → Bool) : Bool :=
  (List.range list.length).any fun i => decide (some i ≠ self) && list[i]?.any same

/-- A change to an entry of the list, when `check`, which may tidy it, refuses nothing. -/
def changeEntry (list : List α) (index : Option (Fin list.length)) (change : α → α)
    (check : α → Option ℕ → α × EditRefusal) : EditRefusal × List α :=
  match index with
  | none => (.missing, list)
  | some i =>
    let checked := check (change list[i]) (some i)
    (checked.2, if checked.2 = .none then list.set i checked.1 else list)

/-- An entry changed to one apart from the others leaves the list unique. -/
theorem unique_changeEntry {same : α → α → Bool} {list : List α} (hcomm : ∀ a b, same a b = same b a)
    (h : Unique same list) {index : Option (Fin list.length)} {change : α → α}
    {check : α → Option ℕ → α × EditRefusal}
    (hcheck : ∀ i ∈ index, (check (change list[i]) (some i)).2 = .none →
      ∀ j (hj : j < list.length), j ≠ i → same list[j] (check (change list[i]) (some i)).1 = false) :
    Unique same (changeEntry list index change check).2 := by
  cases index with
  | none => exact h
  | some i =>
    rw [changeEntry]
    split
    · rename_i hnone
      exact h.set hcomm (hcheck i rfl hnone)
    · exact h

/-- An entry more, when `check` refuses nothing. -/
def appendEntry (list : List α) (entry : α) (check : α → Option ℕ → α × EditRefusal) : EditRefusal × List α :=
  let checked := check entry none
  (checked.2, if checked.2 = .none then list ++ [checked.1] else list)

/-- Puts an entry back at its place, unless the list has it by then. -/
def putBack (index : ℕ) (removed : α) (same : α → α → Bool) (back : List α) : List α :=
  if back.any (same · removed) then back else back.insertIdx (min index back.length) removed

/-- The list without an entry, and what puts it back. -/
def takeEntry (list : List α) (index : Fin list.length) (same : α → α → Bool) : List α × (List α → List α) :=
  (list.eraseIdx index, putBack index list[index] same)

end

variable (u : Unicode) (fold : CaseFolding)

/-! ## Terms, corrections and replacements -/

/-- The draft with its terms as the page lists them. -/
def listedTerms (settings : AppSettings) : AppSettings :=
  { settings with vocabulary := normalizeVocabularyEntries fold settings.vocabulary }

def indexOfTerm (terms : List VocabularyEntry) (term : Text) : Option (Fin terms.length) :=
  terms.findFinIdx? fun entry => sameText fold entry.term (simplified term)

def checkTerm (settings : AppSettings) (entry : VocabularyEntry) (self : Option ℕ) : VocabularyEntry × EditRefusal :=
  let entry :=
    { entry with
      term := simplified entry.term
      context := trimmed entry.context
      profiles := offeredVocabularyProfiles entry.profiles settings.writingProfiles }
  if entry.term.isEmpty then (entry, .blank)
  else if takenByAnother settings.vocabulary self (sameTerm fold · entry) then (entry, .taken)
  else (entry, .none)

/-- Two corrections of the same words in the same application. -/
def sameCorrection (left right : LearnedCorrection) : Bool :=
  sameText fold left.original right.original && sameText fold left.applicationId right.applicationId

def checkCorrection (corrections : List LearnedCorrection) (correction : LearnedCorrection) (self : Option ℕ) :
    LearnedCorrection × EditRefusal :=
  let correction :=
    { correction with original := trimmed correction.original, corrected := trimmed correction.corrected }
  if correction.original.isEmpty then (correction, .blank)
  else if correction.corrected.isEmpty then (correction, .incomplete)
  else if takenByAnother corrections self (sameCorrection fold · correction) then (correction, .taken)
  else (correction, .none)

def samePhrase (left right : BindingRule) : Bool := normalizedPhrase u left.phrase = normalizedPhrase u right.phrase

def checkReplacement (rules : List BindingRule) (rule : BindingRule) (self : Option ℕ) : BindingRule × EditRefusal :=
  let rule := { rule with phrase := trimmed rule.phrase }
  match (validateRules u [rule]).issues with
  | issue :: _ => (rule, if issue.type = .emptyPhrase then .blank else .incomplete)
  | [] => if takenByAnother rules self (samePhrase u · rule) then (rule, .taken) else (rule, .none)

def indexOfPhrase (rules : List BindingRule) (phrase : Text) : Option (Fin rules.length) :=
  rules.findFinIdx? fun rule => samePhrase u rule ⟨phrase, []⟩

/-! ## Writing profiles -/

def cleanupBases : List Text :=
  ["light_cleanup".toList, "balanced".toList, "strong_polish".toList, kCustomOnlyCleanupBase]

/-- No entry but the one at `self` goes by the name. -/
def nameFree {α : Type} (list : List α) (self : Option ℕ) (name : Text) (nameOf : α → Text) : Bool :=
  !takenByAnother list self fun entry => sameText fold (nameOf entry) name

/-- A new entry's id: one of the user's, and not one the list holds. -/
def idFree {α : Type} (list : List α) (idOf : α → Text) (id : Text) : Bool :=
  kCustomIdPrefix.isPrefixOf id && !list.any (idOf · = id)

def levelOffered (id : Text) (settings : AppSettings) : Bool :=
  kBuiltInCleanupLevels.contains id || settings.customCleanupLevels.any (·.id = id)

def toneOffered (id : Text) (settings : AppSettings) : Bool :=
  kBuiltInTones.contains id || settings.customTones.any (·.id = id)

/-- An empty service is the one a settings page chose. -/
def serviceOffered (role : ProviderRole) (id : Text) : Bool := id.isEmpty || isChainProviderId role id

/-- Every choice of the profile is offered, or the one it held before. -/
def choicesOffered (profile : WritingProfileSettings) (stored : Option WritingProfileSettings)
    (settings : AppSettings) : EditRefusal :=
  if (stored.any (·.cleanupStrength = profile.cleanupStrength) || levelOffered profile.cleanupStrength settings) &&
      (stored.any (·.tone = profile.tone) || toneOffered profile.tone settings) &&
      (stored.any (·.speechProvider = profile.speechProvider) || serviceOffered .speech profile.speechProvider) &&
      (stored.any (·.refinementProvider = profile.refinementProvider) ||
        serviceOffered .refinement profile.refinementProvider) then .none
  else .missing

def checkProfile (settings : AppSettings) (stored : Option WritingProfileSettings) (profile : WritingProfileSettings)
    (self : Option ℕ) : WritingProfileSettings × EditRefusal :=
  let profile :=
    { profile with
      outputLanguage := trimmed profile.outputLanguage
      speechModel := trimmed profile.speechModel
      refinementModel := trimmed profile.refinementModel }
  if isBuiltInWritingProfile profile.profile then
    if stored.any (·.name ≠ profile.name) then (profile, .builtIn)
    else (profile, choicesOffered profile stored settings)
  else
    let profile := { profile with name := trimmed profile.name }
    if profile.name.isEmpty then (profile, .blank)
    else if !nameFree fold settings.writingProfiles self profile.name fun other =>
        writingProfileLabel other.profile settings.writingProfiles then (profile, .taken)
    else (profile, choicesOffered profile stored settings)

/-! ## Tones and cleanup levels -/

/-- No other custom choice, and no built-in one the page shows, goes by the name. -/
def choiceNameFree {α : Type} (list : List α) (self : Option ℕ) (name : Text) (builtInNames : List Text)
    (nameOf : α → Text) : Bool :=
  !builtInNames.any (sameText fold · name) && nameFree fold list self name nameOf

def checkTone (tones : List CustomTone) (builtInNames : List Text) (tone : CustomTone) (self : Option ℕ) :
    CustomTone × EditRefusal :=
  let tone := { tone with name := trimmed tone.name }
  if tone.name.isEmpty then (tone, .blank)
  else if !choiceNameFree fold tones self tone.name builtInNames CustomTone.name then (tone, .taken)
  else (tone, if (trimmed tone.instruction).isEmpty then .incomplete else .none)

def checkLevel (levels : List CustomCleanupLevel) (builtInNames : List Text) (level : CustomCleanupLevel)
    (self : Option ℕ) : CustomCleanupLevel × EditRefusal :=
  let level := { level with name := trimmed level.name }
  if level.name.isEmpty then (level, .blank)
  else if !choiceNameFree fold levels self level.name builtInNames CustomCleanupLevel.name then (level, .taken)
  else if !cleanupBases.contains level.base then (level, .missing)
  -- Custom only is nothing but the instructions.
  else
    (level, if level.base ≠ kCustomOnlyCleanupBase || !(trimmed level.instructions).isEmpty then .none else .incomplete)

/-- A list of the user's choices, and the field of a profile that holds one of them: each is a field of its
own. -/
structure Choices (α : Type) where
  entries : AppSettings → List α
  withEntries : AppSettings → List α → AppSettings
  id : α → Text
  name : α → Text
  chosen : WritingProfileSettings → Text
  withChosen : WritingProfileSettings → Text → WritingProfileSettings
  entries_withEntries : ∀ s l, entries (withEntries s l) = l := by intros; rfl
  withEntries_entries : ∀ s, withEntries s (entries s) = s := by intros; rfl
  withEntries_withEntries : ∀ s l l', withEntries (withEntries s l) l' = withEntries s l' := by intros; rfl
  entries_profiles : ∀ s l, entries { s with writingProfiles := l } = entries s := by intros; rfl
  withEntries_profiles : ∀ s l l',
    withEntries { s with writingProfiles := l } l' = { withEntries s l' with writingProfiles := l } := by intros; rfl
  profiles_withEntries : ∀ s l, (withEntries s l).writingProfiles = s.writingProfiles := by intros; rfl
  chosen_withChosen : ∀ profile choice, chosen (withChosen profile choice) = choice := by intros; rfl
  withChosen_chosen : ∀ profile choice,
    withChosen (withChosen profile choice) (chosen profile) = profile := by intros; rfl
  profile_withChosen : ∀ profile choice, (withChosen profile choice).profile = profile.profile := by intros; rfl
  name_withChosen : ∀ profile choice, (withChosen profile choice).name = profile.name := by intros; rfl

def Choices.tones : Choices CustomTone where
  entries := AppSettings.customTones
  withEntries settings customTones := { settings with customTones }
  id := CustomTone.id
  name := CustomTone.name
  chosen := WritingProfileSettings.tone
  withChosen profile tone := { profile with tone }

def Choices.levels : Choices CustomCleanupLevel where
  entries := AppSettings.customCleanupLevels
  withEntries settings customCleanupLevels := { settings with customCleanupLevels }
  id := CustomCleanupLevel.id
  name := CustomCleanupLevel.name
  chosen := WritingProfileSettings.cleanupStrength
  withChosen profile cleanupStrength := { profile with cleanupStrength }

/-- Two choices with one id or one name. -/
def Choices.same {α : Type} (choices : Choices α) (left right : α) : Bool :=
  choices.id left = choices.id right || sameText fold (choices.name left) (choices.name right)

/-- The profiles with one choice in place of another, where `which` says so. -/
def Choices.point {α : Type} (choices : Choices α) (which : WritingProfileSettings → Bool) (choice : Text)
    (profiles : List WritingProfileSettings) : List WritingProfileSettings :=
  profiles.map fun profile => if which profile then choices.withChosen profile choice else profile

/-- What undoes the removal of a choice: the entry is back at its place, and so are the profiles that
still hold what they got instead. -/
def Choices.undo {α : Type} (choices : Choices α) (putBack : List α → List α) (moved : List Text) (id instead : Text) :
    SettingsEdit := fun draft =>
  let back := putBack (choices.entries draft)
  let draft := choices.withEntries draft back
  if !back.any (choices.id · = id) then draft
  else
    { draft with
      writingProfiles := choices.point
        (fun profile => moved.contains profile.profile && choices.chosen profile = instead) id draft.writingProfiles }

/-- The draft without a choice, which no profile holds any longer, and what undoes that. -/
def removeChoice {α : Type} (choices : Choices α) (settings : AppSettings) (id instead : Text) :
    Option SettingsEdit × AppSettings :=
  match (choices.entries settings).findFinIdx? (choices.id · = id) with
  | none => (none, settings)
  | some index =>
    let taken := takeEntry (choices.entries settings) index (choices.same fold)
    let moved := settings.writingProfiles.filter (choices.chosen · = id)
    let settings := choices.withEntries settings taken.1
    (some (choices.undo taken.2 (moved.map WritingProfileSettings.profile) id instead),
      { settings with
        writingProfiles := choices.point (choices.chosen · = id) instead settings.writingProfiles })

/-- The level the profiles of a removed one get. -/
def levelBelow (levels : List CustomCleanupLevel) (id : Text) : Text :=
  match levels.find? (·.id = id) with
  | some level => if level.base = kCustomOnlyCleanupBase then "balanced".toList else level.base
  | none => "balanced".toList

/-! ## Application rules -/

def sameMatch (left right : AppRecognitionRule) : Bool := sameText fold left.appMatch right.appMatch

/-- The draft with its overrides folded into the application rules. -/
def rulesWithOverridesRetired (settings : AppSettings) : AppSettings :=
  { settings with
    appRecognitionRules :=
      recognitionRulesWithMigratedProfileOverrides settings.appRecognitionRules settings.writingProfileOverrides
    writingProfileOverrides := [] }

def indexOfMatch (rules : List AppRecognitionRule) (appMatch : Text) : Option (Fin rules.length) :=
  rules.findFinIdx? fun rule => sameText fold rule.appMatch (trimmed appMatch)

def checkRule (settings : AppSettings) (rule : AppRecognitionRule) (self : Option ℕ) :
    AppRecognitionRule × EditRefusal :=
  let rule := { rule with appMatch := trimmed rule.appMatch }
  if rule.appMatch.isEmpty then (rule, .blank)
  else if !nameFree fold settings.appRecognitionRules self rule.appMatch AppRecognitionRule.appMatch then (rule, .taken)
  else if rule.category.isNone && rule.writingProfile.isNone then (rule, .incomplete)
  else
    (rule, if rule.writingProfile.all fun profile =>
      !(offeredWritingProfile profile settings.writingProfiles []).isEmpty then .none else .missing)

/-! ## Edits -/

/-- An edit of one of the lists. A change says what the edit sets on a copy of an entry. -/
inductive Edit
  | addVocabularyEntry (entry : VocabularyEntry)
  | editVocabularyEntry (term : Text) (change : VocabularyEntry → VocabularyEntry)
  | removeVocabularyEntry (term : Text)
  | editLearnedCorrection (id : Text) (change : LearnedCorrection → LearnedCorrection)
  | removeLearnedCorrection (id : Text)
  | addBindingRule (rule : BindingRule)
  | editBindingRule (phrase : Text) (change : BindingRule → BindingRule)
  | removeBindingRule (phrase : Text)
  | addWritingProfile (profile : WritingProfileSettings)
  | editWritingProfile (id : Text) (change : WritingProfileSettings → WritingProfileSettings)
  | removeWritingProfile (id : Text)
  | addCustomTone (tone : CustomTone) (builtInNames : List Text)
  | editCustomTone (id : Text) (change : CustomTone → CustomTone) (builtInNames : List Text)
  | removeCustomTone (id : Text)
  | addCustomCleanupLevel (level : CustomCleanupLevel) (builtInNames : List Text)
  | editCustomCleanupLevel (id : Text) (change : CustomCleanupLevel → CustomCleanupLevel) (builtInNames : List Text)
  | removeCustomCleanupLevel (id : Text)
  | addAppRecognitionRule (rule : AppRecognitionRule)
  | editAppRecognitionRule (appMatch : Text) (change : AppRecognitionRule → AppRecognitionRule)
  | removeAppRecognitionRule (appMatch : Text)

/-- What an edit did: the draft after it, why it was refused, and what undoes it. -/
structure Edited where
  settings : AppSettings
  refusal : EditRefusal
  undo : Option SettingsEdit

/-- An addition or a change. -/
def Edited.ofEntry {α : Type} (withEntries : List α → AppSettings) (result : EditRefusal × List α) : Edited :=
  ⟨withEntries result.2, result.1, none⟩

/-- A removal from a list nothing refers to. -/
def Edited.ofTaken {α : Type} (settings : AppSettings) (list : List α) (index : Option (Fin list.length))
    (same : α → α → Bool) (withEntries : List α → AppSettings) (undo : (List α → List α) → SettingsEdit) : Edited :=
  match index with
  | none => ⟨settings, .none, none⟩
  | some index =>
    let taken := takeEntry list index same
    ⟨withEntries taken.1, .none, some (undo taken.2)⟩

/-- A removal that found nothing, or took an entry out. -/
theorem Edited.ofTaken_cases {α : Type} (settings : AppSettings) (list : List α) (index : Option (Fin list.length))
    (same : α → α → Bool) (withEntries : List α → AppSettings) (undo : (List α → List α) → SettingsEdit) :
    Edited.ofTaken settings list index same withEntries undo = ⟨settings, .none, none⟩ ∨
      ∃ i : Fin list.length, Edited.ofTaken settings list index same withEntries undo =
        ⟨withEntries (list.eraseIdx i), .none, some (undo (putBack i list[i] same))⟩ := by
  cases index with
  | none => exact .inl rfl
  | some i => exact .inr ⟨i, rfl⟩

/-- A removal with its undo, when there was something to remove. -/
def Edited.ofRemoved (result : Option SettingsEdit × AppSettings) : Edited := ⟨result.2, .none, result.1⟩

def addVocabularyEntry (settings : AppSettings) (entry : VocabularyEntry) : Edited :=
  let listed := listedTerms fold settings
  .ofEntry ({ listed with vocabulary := · }) (appendEntry listed.vocabulary entry (checkTerm fold listed))

def editVocabularyEntry (settings : AppSettings) (term : Text) (change : VocabularyEntry → VocabularyEntry) : Edited :=
  let listed := listedTerms fold settings
  .ofEntry ({ listed with vocabulary := · })
    (changeEntry listed.vocabulary (indexOfTerm fold listed.vocabulary term) change (checkTerm fold listed))

def removeVocabularyEntry (settings : AppSettings) (term : Text) : Edited :=
  let listed := listedTerms fold settings
  .ofTaken listed listed.vocabulary (indexOfTerm fold listed.vocabulary term) (sameTerm fold)
    ({ listed with vocabulary := · }) fun putBack draft =>
      let listed := listedTerms fold draft
      { listed with vocabulary := putBack listed.vocabulary }

def editLearnedCorrection (settings : AppSettings) (id : Text) (change : LearnedCorrection → LearnedCorrection) :
    Edited :=
  .ofEntry ({ settings with learnedCorrections := · })
    (changeEntry settings.learnedCorrections (settings.learnedCorrections.findFinIdx? (·.id = id)) change
      (checkCorrection fold settings.learnedCorrections))

/-- Dictation learned the correction again. -/
def learnedAgain (entry removed : LearnedCorrection) : Bool := entry.id = removed.id || sameCorrection fold entry removed

def removeLearnedCorrection (settings : AppSettings) (id : Text) : Edited :=
  .ofTaken settings settings.learnedCorrections (settings.learnedCorrections.findFinIdx? (·.id = id))
    (learnedAgain fold) ({ settings with learnedCorrections := · }) fun putBack draft =>
      { draft with learnedCorrections := putBack draft.learnedCorrections }

def addBindingRule (settings : AppSettings) (rule : BindingRule) : Edited :=
  .ofEntry ({ settings with bindings := · }) (appendEntry settings.bindings rule (checkReplacement u settings.bindings))

def editBindingRule (settings : AppSettings) (phrase : Text) (change : BindingRule → BindingRule) : Edited :=
  .ofEntry ({ settings with bindings := · })
    (changeEntry settings.bindings (indexOfPhrase u settings.bindings phrase) change
      (checkReplacement u settings.bindings))

def removeBindingRule (settings : AppSettings) (phrase : Text) : Edited :=
  .ofTaken settings settings.bindings (indexOfPhrase u settings.bindings phrase) (samePhrase u)
    ({ settings with bindings := · }) fun putBack draft => { draft with bindings := putBack draft.bindings }

def addWritingProfile (settings : AppSettings) (profile : WritingProfileSettings) : Edited :=
  if !idFree settings.writingProfiles WritingProfileSettings.profile profile.profile then ⟨settings, .taken, none⟩
  else
    .ofEntry ({ settings with writingProfiles := · })
      (appendEntry settings.writingProfiles profile (checkProfile fold settings none))

def editWritingProfile (settings : AppSettings) (id : Text)
    (change : WritingProfileSettings → WritingProfileSettings) : Edited :=
  let index := settings.writingProfiles.findFinIdx? (·.profile = id)
  .ofEntry ({ settings with writingProfiles := · })
    (changeEntry settings.writingProfiles index change
      (checkProfile fold settings (index.map (settings.writingProfiles[·]))))

def removeWritingProfile (settings : AppSettings) (id : Text) : Edited :=
  if isBuiltInWritingProfile id then ⟨settings, .none, none⟩
  else
    ⟨{ settings with writingProfiles := settings.writingProfiles.filter (·.profile ≠ id) }, .none, none⟩

def addCustomTone (settings : AppSettings) (tone : CustomTone) (builtInNames : List Text) : Edited :=
  if !idFree settings.customTones CustomTone.id tone.id then ⟨settings, .taken, none⟩
  else
    .ofEntry ({ settings with customTones := · })
      (appendEntry settings.customTones tone (checkTone fold settings.customTones builtInNames))

def editCustomTone (settings : AppSettings) (id : Text) (change : CustomTone → CustomTone)
    (builtInNames : List Text) : Edited :=
  .ofEntry ({ settings with customTones := · })
    (changeEntry settings.customTones (settings.customTones.findFinIdx? (·.id = id)) change
      (checkTone fold settings.customTones builtInNames))

def addCustomCleanupLevel (settings : AppSettings) (level : CustomCleanupLevel) (builtInNames : List Text) : Edited :=
  if !idFree settings.customCleanupLevels CustomCleanupLevel.id level.id then ⟨settings, .taken, none⟩
  else
    .ofEntry ({ settings with customCleanupLevels := · })
      (appendEntry settings.customCleanupLevels level (checkLevel fold settings.customCleanupLevels builtInNames))

def editCustomCleanupLevel (settings : AppSettings) (id : Text)
    (change : CustomCleanupLevel → CustomCleanupLevel) (builtInNames : List Text) : Edited :=
  .ofEntry ({ settings with customCleanupLevels := · })
    (changeEntry settings.customCleanupLevels (settings.customCleanupLevels.findFinIdx? (·.id = id)) change
      (checkLevel fold settings.customCleanupLevels builtInNames))

def removeCustomTone (settings : AppSettings) (id : Text) : Edited :=
  .ofRemoved (removeChoice fold .tones settings id "none".toList)

def removeCustomCleanupLevel (settings : AppSettings) (id : Text) : Edited :=
  .ofRemoved (removeChoice fold .levels settings id (levelBelow settings.customCleanupLevels id))

def addAppRecognitionRule (settings : AppSettings) (rule : AppRecognitionRule) : Edited :=
  let retired := rulesWithOverridesRetired settings
  .ofEntry ({ retired with appRecognitionRules := · })
    (appendEntry retired.appRecognitionRules rule (checkRule fold retired))

def editAppRecognitionRule (settings : AppSettings) (appMatch : Text)
    (change : AppRecognitionRule → AppRecognitionRule) : Edited :=
  let retired := rulesWithOverridesRetired settings
  .ofEntry ({ retired with appRecognitionRules := · })
    (changeEntry retired.appRecognitionRules (indexOfMatch fold retired.appRecognitionRules appMatch) change
      (checkRule fold retired))

def removeAppRecognitionRule (settings : AppSettings) (appMatch : Text) : Edited :=
  let retired := rulesWithOverridesRetired settings
  .ofTaken retired retired.appRecognitionRules (indexOfMatch fold retired.appRecognitionRules appMatch)
    (sameMatch fold) ({ retired with appRecognitionRules := · }) fun putBack draft =>
      let retired := rulesWithOverridesRetired draft
      { retired with appRecognitionRules := putBack retired.appRecognitionRules }

def Edit.apply (settings : AppSettings) : Edit → Edited
  | addVocabularyEntry entry => Speecher.addVocabularyEntry fold settings entry
  | editVocabularyEntry term change => Speecher.editVocabularyEntry fold settings term change
  | removeVocabularyEntry term => Speecher.removeVocabularyEntry fold settings term
  | editLearnedCorrection id change => Speecher.editLearnedCorrection fold settings id change
  | removeLearnedCorrection id => Speecher.removeLearnedCorrection fold settings id
  | addBindingRule rule => Speecher.addBindingRule u settings rule
  | editBindingRule phrase change => Speecher.editBindingRule u settings phrase change
  | removeBindingRule phrase => Speecher.removeBindingRule u settings phrase
  | addWritingProfile profile => Speecher.addWritingProfile fold settings profile
  | editWritingProfile id change => Speecher.editWritingProfile fold settings id change
  | removeWritingProfile id => Speecher.removeWritingProfile settings id
  | addCustomTone tone builtInNames => Speecher.addCustomTone fold settings tone builtInNames
  | editCustomTone id change builtInNames => Speecher.editCustomTone fold settings id change builtInNames
  | removeCustomTone id => Speecher.removeCustomTone fold settings id
  | addCustomCleanupLevel level builtInNames => Speecher.addCustomCleanupLevel fold settings level builtInNames
  | editCustomCleanupLevel id change builtInNames =>
    Speecher.editCustomCleanupLevel fold settings id change builtInNames
  | removeCustomCleanupLevel id => Speecher.removeCustomCleanupLevel fold settings id
  | addAppRecognitionRule rule => Speecher.addAppRecognitionRule fold settings rule
  | editAppRecognitionRule appMatch change => Speecher.editAppRecognitionRule fold settings appMatch change
  | removeAppRecognitionRule appMatch => Speecher.removeAppRecognitionRule fold settings appMatch

/-- The draft an edit sets out from: terms tidied before one of them is edited, overrides retired before
an application rule is. -/
def Edit.prepared (settings : AppSettings) : Edit → AppSettings
  | addVocabularyEntry _ | editVocabularyEntry _ _ | removeVocabularyEntry _ => listedTerms fold settings
  | addAppRecognitionRule _ | editAppRecognitionRule _ _ | removeAppRecognitionRule _ =>
    rulesWithOverridesRetired settings
  | _ => settings

/-! ## Runs -/

/-- A page's draft, and the undos it can still offer. -/
structure Draft where
  settings : AppSettings
  undos : List SettingsEdit

/-- What a page does: edit a list, or undo a removal. -/
inductive Draft.Step
  | edit (edit : Edit)
  | undo (index : ℕ)

def Draft.step (draft : Draft) : Step → Draft
  | .edit edit =>
    let edited := edit.apply u fold draft.settings
    ⟨edited.settings, edited.undo.toList ++ draft.undos⟩
  | .undo index =>
    match draft.undos[index]? with
    | some undo => { draft with settings := undo draft.settings }
    | none => draft

def Draft.run (draft : Draft) (steps : List Draft.Step) : Draft := steps.foldl (step u fold) draft

end Speecher
