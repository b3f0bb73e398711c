import Speecher.Settings.Edits

/-!
# What edits keep of the lists

A draft is `Keyed` when no list holds two entries a user cannot tell apart. Every edit and every undo
keeps a draft so (`keyed_apply`, `keyed_undo`); an undo that follows its removal at once gives back the
draft the edit set out from (`undo_apply`), and a refused edit leaves that draft (`refused_apply`).

* `edits_keep_keys`: all of it for every run of edits and undos.
-/

namespace Speecher

section

variable {α : Type} {same same' : α → α → Bool} {list : List α}

theorem takenByAnother_eq_false {self : Option ℕ} {p : α → Bool} (h : takenByAnother list self p = false) {j : ℕ}
    (hj : j < list.length) (hself : some j ≠ self) : p list[j] = false := by
  rw [takenByAnother, List.any_eq_false] at h
  have := h j (List.mem_range.mpr hj)
  rw [List.getElem?_eq_getElem hj] at this
  simpa [hself] using this

theorem unique_appendEntry (h : Unique same list) {entry : α} {check : α → Option ℕ → α × EditRefusal}
    (hcheck : (check entry none).2 = .none →
      ∀ j (hj : j < list.length), same list[j] (check entry none).1 = false) :
    Unique same (appendEntry list entry check).2 := by
  rw [appendEntry]
  split
  · rename_i hnone
    refine h.append fun b hb => ?_
    obtain ⟨j, hj, rfl⟩ := List.getElem_of_mem hb
    exact hcheck hnone j hj
  · exact h

theorem unique_putBack (hcomm : ∀ a b, same a b = same b a) (h : Unique same list) (i : ℕ) (removed : α)
    (himp : ∀ a b, same' a b = false → same a b = false) : Unique same (putBack i removed same' list) := by
  rw [putBack]
  split
  · exact h
  · rename_i hany
    refine h.insertIdx hcomm (fun b hb => himp _ _ ?_) (min_le_right _ _)
    simpa using List.any_eq_false.mp (Bool.not_eq_true _ ▸ hany) b hb

/-- An entry taken out and put back at once. -/
theorem putBack_takeEntry (hcomm : ∀ a b, same a b = same b a) (h : Unique same list) (i : Fin list.length) :
    (takeEntry list i same).2 (takeEntry list i same).1 = list := by
  have hnone : (list.eraseIdx i).any (same · list[i]) = false :=
    List.any_eq_false.mpr fun b hb => by simpa using h.apart_of_mem_eraseIdx hcomm i.isLt hb
  have hle : (i : ℕ) ≤ (list.eraseIdx i).length := by
    rw [List.length_eraseIdx_of_lt i.isLt]
    omega
  show putBack i list[i] same (list.eraseIdx i) = list
  rw [putBack, hnone, min_eq_left hle]
  exact insertIdx_eraseIdx_self i.isLt

theorem refused_changeEntry {index : Option (Fin list.length)} {change : α → α}
    {check : α → Option ℕ → α × EditRefusal} (h : (changeEntry list index change check).1 ≠ .none) :
    (changeEntry list index change check).2 = list := by
  cases index with
  | none => rfl
  | some i => exact if_neg h

theorem refused_appendEntry {entry : α} {check : α → Option ℕ → α × EditRefusal}
    (h : (appendEntry list entry check).1 ≠ .none) : (appendEntry list entry check).2 = list :=
  if_neg h

end

variable (u : Unicode) (fold : CaseFolding)

/-! ## Keys -/

/-- A built-in's label, or the name the user gave. -/
def WritingProfileSettings.label (profile : WritingProfileSettings) : Text :=
  (builtInLabel profile.profile).getD profile.name

/-- Two profiles with one id or one label. -/
def sameProfile (left right : WritingProfileSettings) : Bool :=
  left.profile = right.profile || sameText fold left.label right.label

/-- No list holds two entries with one key: a term, a phrase, a correction's id or its words and
application, the id or the name of a profile, tone or level, an application rule's match. The overrides
still to be retired count as the rules they become. -/
structure AppSettings.Keyed (settings : AppSettings) : Prop where
  vocabulary : Unique (sameTerm fold) settings.vocabulary
  learnedCorrections : Unique (learnedAgain fold) settings.learnedCorrections
  bindings : Unique (samePhrase u) settings.bindings
  writingProfiles : Unique (sameProfile fold) settings.writingProfiles
  customTones : Unique (Choices.tones.same fold) settings.customTones
  customCleanupLevels : Unique (Choices.levels.same fold) settings.customCleanupLevels
  appRecognitionRules : Unique (sameMatch fold)
    (recognitionRulesWithMigratedProfileOverrides settings.appRecognitionRules settings.writingProfileOverrides)

theorem sameCorrection_comm (left right : LearnedCorrection) :
    sameCorrection fold left right = sameCorrection fold right left := by
  rw [sameCorrection, sameCorrection, sameText_comm, sameText_comm fold left.applicationId]

theorem learnedAgain_comm (left right : LearnedCorrection) :
    learnedAgain fold left right = learnedAgain fold right left := by
  rw [learnedAgain, learnedAgain, sameCorrection_comm, decide_eq_decide.mpr eq_comm]

theorem samePhrase_comm (left right : BindingRule) : samePhrase u left right = samePhrase u right left := by
  rw [samePhrase, samePhrase, decide_eq_decide.mpr eq_comm]

theorem sameProfile_comm (left right : WritingProfileSettings) :
    sameProfile fold left right = sameProfile fold right left := by
  rw [sameProfile, sameProfile, sameText_comm, decide_eq_decide.mpr eq_comm]

theorem Choices.same_comm {α : Type} (choices : Choices α) (left right : α) :
    choices.same fold left right = choices.same fold right left := by
  rw [Choices.same, Choices.same, sameText_comm, decide_eq_decide.mpr eq_comm]

theorem sameMatch_comm (left right : AppRecognitionRule) : sameMatch fold left right = sameMatch fold right left :=
  sameText_comm fold _ _

/-! ## What the checks let through -/

variable {fold}

theorem apart_of_checkTerm {settings : AppSettings} {entry : VocabularyEntry} {self : Option ℕ}
    (h : (checkTerm fold settings entry self).2 = .none) :
    takenByAnother settings.vocabulary self (sameTerm fold · (checkTerm fold settings entry self).1) = false := by
  revert h
  unfold checkTerm
  dsimp only
  split_ifs with hblank htaken
  · exact fun h => nomatch h
  · exact fun h => nomatch h
  · exact fun _ => by simpa using htaken

theorem apart_of_checkCorrection {corrections : List LearnedCorrection} {correction : LearnedCorrection}
    {self : Option ℕ} (h : (checkCorrection fold corrections correction self).2 = .none) :
    (checkCorrection fold corrections correction self).1.id = correction.id ∧
      takenByAnother corrections self
        (sameCorrection fold · (checkCorrection fold corrections correction self).1) = false := by
  revert h
  unfold checkCorrection
  dsimp only
  split_ifs with hblank hincomplete htaken
  · exact fun h => nomatch h
  · exact fun h => nomatch h
  · exact fun h => nomatch h
  · exact fun _ => ⟨rfl, by simpa using htaken⟩

variable {u} in
theorem apart_of_checkReplacement {rules : List BindingRule} {rule : BindingRule} {self : Option ℕ}
    (h : (checkReplacement u rules rule self).2 = .none) :
    takenByAnother rules self (samePhrase u · (checkReplacement u rules rule self).1) = false := by
  revert h
  unfold checkReplacement
  dsimp only
  split
  · split_ifs <;> exact fun h => nomatch h
  · split_ifs with htaken
    · exact fun h => nomatch h
    · exact fun _ => by simpa using htaken

theorem free_of_choiceNameFree {α : Type} {list : List α} {self : Option ℕ} {name : Text} {builtInNames : List Text}
    {nameOf : α → Text} (h : choiceNameFree fold list self name builtInNames nameOf = true) :
    takenByAnother list self (fun entry => sameText fold (nameOf entry) name) = false := by
  rw [choiceNameFree, nameFree, Bool.and_eq_true, Bool.not_eq_true'] at h
  simpa using h.2

theorem apart_of_checkTone {tones : List CustomTone} {builtInNames : List Text} {tone : CustomTone}
    {self : Option ℕ} (h : (checkTone fold tones builtInNames tone self).2 = .none) :
    (checkTone fold tones builtInNames tone self).1.id = tone.id ∧
      takenByAnother tones self
        (fun other => sameText fold other.name (checkTone fold tones builtInNames tone self).1.name) = false := by
  revert h
  unfold checkTone
  dsimp only
  split_ifs with hblank htaken hinstruction
  · exact fun h => nomatch h
  · exact fun h => nomatch h
  · exact fun h => nomatch h
  · exact fun _ => ⟨rfl, free_of_choiceNameFree (by simpa using htaken)⟩

theorem apart_of_checkLevel {levels : List CustomCleanupLevel} {builtInNames : List Text}
    {level : CustomCleanupLevel} {self : Option ℕ} (h : (checkLevel fold levels builtInNames level self).2 = .none) :
    (checkLevel fold levels builtInNames level self).1.id = level.id ∧
      takenByAnother levels self
        (fun other => sameText fold other.name (checkLevel fold levels builtInNames level self).1.name) = false := by
  revert h
  unfold checkLevel
  dsimp only
  split_ifs with hblank htaken hbase hinstructed
  · exact fun h => nomatch h
  · exact fun h => nomatch h
  · exact fun h => nomatch h
  · exact fun _ => ⟨rfl, free_of_choiceNameFree (by simpa using htaken)⟩
  · exact fun h => nomatch h

theorem apart_of_checkRule {settings : AppSettings} {rule : AppRecognitionRule} {self : Option ℕ}
    (h : (checkRule fold settings rule self).2 = .none) :
    takenByAnother settings.appRecognitionRules self
      (sameMatch fold · (checkRule fold settings rule self).1) = false := by
  revert h
  unfold checkRule
  dsimp only
  split_ifs with hblank htaken hincomplete hprofile
  · exact fun h => nomatch h
  · exact fun h => nomatch h
  · exact fun h => nomatch h
  · exact fun _ => by simpa [nameFree, sameMatch] using htaken
  · exact fun h => nomatch h

theorem isBuiltIn_iff (id : Text) : isBuiltInWritingProfile id = (builtInLabel id).isSome := by
  unfold isBuiltInWritingProfile builtInLabel
  split_ifs <;> simp_all

/-- A profile of a list without copies goes by its own label. -/
theorem writingProfileLabel_eq {profiles : List WritingProfileSettings} (h : Unique (sameProfile fold) profiles)
    {profile : WritingProfileSettings} (hp : profile ∈ profiles) :
    writingProfileLabel profile.profile profiles = profile.label := by
  have hfind : profiles.find? (·.profile = profile.profile) = some profile := by
    induction profiles with
    | nil => cases hp
    | cons other profiles ih =>
      obtain ⟨hother, hrest⟩ := List.pairwise_cons.mp h
      rcases List.mem_cons.mp hp with rfl | hp
      · exact List.find?_cons_of_pos (by simp)
      · have hne := hother profile hp
        rw [sameProfile, Bool.or_eq_false_iff, decide_eq_false_iff_not] at hne
        rw [List.find?_cons_of_neg (by simpa using hne.1)]
        exact ih hrest hp
  rw [writingProfileLabel, WritingProfileSettings.label, hfind]
  rfl

theorem apart_of_checkProfile {settings : AppSettings} (h : Unique (sameProfile fold) settings.writingProfiles)
    {stored : Option WritingProfileSettings} {profile : WritingProfileSettings} {self : Option ℕ}
    (hnone : (checkProfile fold settings stored profile self).2 = .none) :
    (checkProfile fold settings stored profile self).1.profile = profile.profile ∧
      if isBuiltInWritingProfile profile.profile then
        (checkProfile fold settings stored profile self).1.name = profile.name ∧
          ∀ held ∈ stored, held.name = profile.name
      else
        ∀ j (hj : j < settings.writingProfiles.length), some j ≠ self →
          sameText fold settings.writingProfiles[j].label
            (checkProfile fold settings stored profile self).1.name = false := by
  revert hnone
  unfold checkProfile
  dsimp only
  split_ifs with hbuiltIn hname hblank htaken
  · exact fun h => nomatch h
  · refine fun _ => ⟨rfl, rfl, fun held hheld => ?_⟩
    rw [Option.mem_def.mp hheld] at hname
    simpa using hname
  · exact fun h => nomatch h
  · exact fun h => nomatch h
  · refine fun _ => ⟨rfl, fun j hj hself => ?_⟩
    rw [nameFree, Bool.not_not, Bool.not_eq_true] at htaken
    rw [← writingProfileLabel_eq h (List.getElem_mem hj)]
    exact takenByAnother_eq_false htaken hj hself

/-! ## Edits keep a draft keyed -/

/-- A change keeps the id of what it changes. -/
def Edit.KeepsId : Edit → Prop
  | editLearnedCorrection _ change => ∀ correction, (change correction).id = correction.id
  | editWritingProfile _ change => ∀ profile, (change profile).profile = profile.profile
  | editCustomTone _ change _ => ∀ tone, (change tone).id = tone.id
  | editCustomCleanupLevel _ change _ => ∀ level, (change level).id = level.id
  | _ => True

theorem label_of_not_builtIn (profile : WritingProfileSettings) (h : isBuiltInWritingProfile profile.profile = false) :
    profile.label = profile.name := by
  rw [isBuiltIn_iff, Option.isSome_eq_false_iff, Option.isNone_iff_eq_none] at h
  rw [WritingProfileSettings.label, h]
  rfl

theorem not_mem_of_idFree {α : Type} {list : List α} {idOf : α → Text} {id : Text}
    (h : idFree list idOf id = true) {j : ℕ} (hj : j < list.length) : idOf list[j] ≠ id := by
  intro hid
  rw [idFree, Bool.and_eq_true, Bool.not_eq_true', List.any_eq_false] at h
  exact h.2 _ (List.getElem_mem hj) (by simpa using hid)

variable {u} {settings : AppSettings}

theorem keyed_listedTerms (h : settings.Keyed u fold) : (listedTerms fold settings).Keyed u fold :=
  { h with vocabulary := (tidy_normalize fold _).unique }

theorem retired_nil (rules : List AppRecognitionRule) : recognitionRulesWithMigratedProfileOverrides rules [] = rules :=
  List.append_nil rules

theorem keyed_retired (h : settings.Keyed u fold) : (rulesWithOverridesRetired settings).Keyed u fold :=
  { h with
    appRecognitionRules := (retired_nil _).symm ▸ h.appRecognitionRules }

theorem unique_retired (h : settings.Keyed u fold) :
    Unique (sameMatch fold) (rulesWithOverridesRetired settings).appRecognitionRules := h.appRecognitionRules

/-- The rules of a draft without overrides. -/
theorem keyed_withRules (h : settings.Keyed u fold) {rules : List AppRecognitionRule}
    (hrules : Unique (sameMatch fold) rules) :
    AppSettings.Keyed u fold { rulesWithOverridesRetired settings with appRecognitionRules := rules } :=
  { h with
    appRecognitionRules := (retired_nil _).symm ▸ hrules }

theorem keyed_addVocabularyEntry (h : settings.Keyed u fold) (entry : VocabularyEntry) :
    (addVocabularyEntry fold settings entry).settings.Keyed u fold :=
  { keyed_listedTerms h with
    vocabulary := unique_appendEntry (keyed_listedTerms h).vocabulary fun hnone _ hj =>
      takenByAnother_eq_false (apart_of_checkTerm hnone) hj (by simp) }

theorem keyed_editVocabularyEntry (h : settings.Keyed u fold) (term : Text)
    (change : VocabularyEntry → VocabularyEntry) :
    (editVocabularyEntry fold settings term change).settings.Keyed u fold :=
  { keyed_listedTerms h with
    vocabulary := unique_changeEntry (sameTerm_comm fold) (keyed_listedTerms h).vocabulary fun _ _ hnone _ hj hne =>
      takenByAnother_eq_false (apart_of_checkTerm hnone) hj (by simpa using hne) }

/-- What is left of a correction's list is apart in both senses. -/
theorem keyed_editLearnedCorrection (h : settings.Keyed u fold) (id : Text)
    {change : LearnedCorrection → LearnedCorrection} (hchange : ∀ correction, (change correction).id = correction.id) :
    (editLearnedCorrection fold settings id change).settings.Keyed u fold := by
  refine { h with
    learnedCorrections := unique_changeEntry (learnedAgain_comm fold) h.learnedCorrections fun i _ hnone j hj hne => ?_ }
  obtain ⟨hid, htaken⟩ := apart_of_checkCorrection hnone
  have hsame := h.learnedCorrections.apart (learnedAgain_comm fold) hj i.isLt hne
  rw [learnedAgain, Bool.or_eq_false_iff] at hsame ⊢
  rw [hid, hchange]
  exact ⟨hsame.1, takenByAnother_eq_false htaken hj (by simpa using hne)⟩

theorem keyed_addBindingRule (h : settings.Keyed u fold) (rule : BindingRule) :
    (addBindingRule u settings rule).settings.Keyed u fold :=
  { h with
    bindings := unique_appendEntry h.bindings fun hnone _ hj =>
      takenByAnother_eq_false (apart_of_checkReplacement hnone) hj (by simp) }

theorem keyed_editBindingRule (h : settings.Keyed u fold) (phrase : Text) (change : BindingRule → BindingRule) :
    (editBindingRule u settings phrase change).settings.Keyed u fold :=
  { h with
    bindings := unique_changeEntry (samePhrase_comm u) h.bindings fun _ _ hnone _ hj hne =>
      takenByAnother_eq_false (apart_of_checkReplacement hnone) hj (by simpa using hne) }

theorem keyed_addWritingProfile (h : settings.Keyed u fold) (profile : WritingProfileSettings) :
    (addWritingProfile fold settings profile).settings.Keyed u fold := by
  rw [addWritingProfile]
  split
  · exact h
  · rename_i hfree
    rw [Bool.not_eq_true', Bool.not_eq_false] at hfree
    have hcustom := not_builtIn_of_custom (Bool.and_eq_true_iff.mp hfree).1
    refine { h with writingProfiles := unique_appendEntry h.writingProfiles fun hnone j hj => ?_ }
    obtain ⟨hid, hname⟩ := apart_of_checkProfile h.writingProfiles hnone
    rw [hcustom, if_neg Bool.false_ne_true] at hname
    rw [sameProfile, Bool.or_eq_false_iff, hid, decide_eq_false_iff_not,
      label_of_not_builtIn (checkProfile fold settings none profile none).1 (by rw [hid, hcustom])]
    exact ⟨not_mem_of_idFree hfree hj, hname j hj (by simp)⟩

theorem keyed_editWritingProfile (h : settings.Keyed u fold) (id : Text)
    {change : WritingProfileSettings → WritingProfileSettings}
    (hchange : ∀ profile, (change profile).profile = profile.profile) :
    (editWritingProfile fold settings id change).settings.Keyed u fold := by
  rw [editWritingProfile]
  cases hindex : settings.writingProfiles.findFinIdx? (·.profile = id) with
  | none => exact h
  | some index =>
    refine { h with
      writingProfiles := unique_changeEntry (sameProfile_comm fold) h.writingProfiles fun i hi hnone j hj hne => ?_ }
    obtain rfl : index = i := Option.some.inj hi
    obtain ⟨hid, hname⟩ := apart_of_checkProfile h.writingProfiles hnone
    have hsame := h.writingProfiles.apart (sameProfile_comm fold) hj index.isLt hne
    generalize (checkProfile fold settings ((some index).map (settings.writingProfiles[·]))
      (change settings.writingProfiles[index]) (some index)).1 = checked at hid hname ⊢
    rw [sameProfile, Bool.or_eq_false_iff] at hsame ⊢
    refine ⟨by rw [hid, hchange]; exact hsame.1, ?_⟩
    by_cases hbuiltIn : isBuiltInWritingProfile (change settings.writingProfiles[index]).profile = true
    · rw [if_pos hbuiltIn] at hname
      have hlabel : checked.label = settings.writingProfiles[index].label := by
        rw [WritingProfileSettings.label, WritingProfileSettings.label, hid, hchange, hname.1, ← hname.2 _ rfl]
      exact hlabel ▸ hsame.2
    · rw [if_neg hbuiltIn] at hname
      rw [label_of_not_builtIn checked (by rw [hid]; exact Bool.eq_false_iff.mpr hbuiltIn)]
      exact hname j hj (by simpa using hne)

theorem keyed_removeWritingProfile (h : settings.Keyed u fold) (id : Text) :
    (removeWritingProfile settings id).settings.Keyed u fold := by
  rw [removeWritingProfile]
  split
  · exact h
  · exact { h with writingProfiles := h.writingProfiles.sublist List.filter_sublist }

/-- A choice whose id and name no other has. -/
theorem apart_of_choice {α : Type} {choices : Choices α} {list : List α} {self : Option ℕ} {checked : α}
    (hname : takenByAnother list self (fun other => sameText fold (choices.name other) (choices.name checked)) = false)
    {j : ℕ} (hj : j < list.length) (hself : some j ≠ self) (hid : choices.id list[j] ≠ choices.id checked) :
    choices.same fold list[j] checked = false := by
  rw [Choices.same, Bool.or_eq_false_iff, decide_eq_false_iff_not]
  exact ⟨hid, takenByAnother_eq_false hname hj hself⟩

theorem id_ne_of_apart {α : Type} {choices : Choices α} {a b : α} (h : choices.same fold a b = false) :
    choices.id a ≠ choices.id b := by
  rw [Choices.same, Bool.or_eq_false_iff, decide_eq_false_iff_not] at h
  exact h.1

theorem keyed_addCustomTone (h : settings.Keyed u fold) (tone : CustomTone) (builtInNames : List Text) :
    (addCustomTone fold settings tone builtInNames).settings.Keyed u fold := by
  rw [addCustomTone]
  split
  · exact h
  · rename_i hfree
    rw [Bool.not_eq_true', Bool.not_eq_false] at hfree
    refine { h with customTones := unique_appendEntry h.customTones fun hnone j hj => ?_ }
    obtain ⟨hid, hname⟩ := apart_of_checkTone hnone
    exact apart_of_choice hname hj (by simp) fun heq => not_mem_of_idFree hfree hj (heq.trans hid)

theorem keyed_editCustomTone (h : settings.Keyed u fold) (id : Text) {change : CustomTone → CustomTone}
    (hchange : ∀ tone, (change tone).id = tone.id) (builtInNames : List Text) :
    (editCustomTone fold settings id change builtInNames).settings.Keyed u fold := by
  refine { h with
    customTones := unique_changeEntry (Choices.same_comm fold _) h.customTones fun i _ hnone j hj hne => ?_ }
  obtain ⟨hid, hname⟩ := apart_of_checkTone hnone
  refine apart_of_choice hname hj (by simpa using hne) ?_
  have hsame := id_ne_of_apart (h.customTones.apart (Choices.same_comm fold _) hj i.isLt hne)
  exact fun heq => hsame (heq.trans (hid.trans (hchange _)))

theorem keyed_addCustomCleanupLevel (h : settings.Keyed u fold) (level : CustomCleanupLevel)
    (builtInNames : List Text) : (addCustomCleanupLevel fold settings level builtInNames).settings.Keyed u fold := by
  rw [addCustomCleanupLevel]
  split
  · exact h
  · rename_i hfree
    rw [Bool.not_eq_true', Bool.not_eq_false] at hfree
    refine { h with customCleanupLevels := unique_appendEntry h.customCleanupLevels fun hnone j hj => ?_ }
    obtain ⟨hid, hname⟩ := apart_of_checkLevel hnone
    exact apart_of_choice hname hj (by simp) fun heq => not_mem_of_idFree hfree hj (heq.trans hid)

theorem keyed_editCustomCleanupLevel (h : settings.Keyed u fold) (id : Text)
    {change : CustomCleanupLevel → CustomCleanupLevel} (hchange : ∀ level, (change level).id = level.id)
    (builtInNames : List Text) : (editCustomCleanupLevel fold settings id change builtInNames).settings.Keyed u fold := by
  refine { h with
    customCleanupLevels :=
      unique_changeEntry (Choices.same_comm fold _) h.customCleanupLevels fun i _ hnone j hj hne => ?_ }
  obtain ⟨hid, hname⟩ := apart_of_checkLevel hnone
  refine apart_of_choice hname hj (by simpa using hne) ?_
  have hsame := id_ne_of_apart (h.customCleanupLevels.apart (Choices.same_comm fold _) hj i.isLt hne)
  exact fun heq => hsame (heq.trans (hid.trans (hchange _)))

theorem keyed_addAppRecognitionRule (h : settings.Keyed u fold) (rule : AppRecognitionRule) :
    (addAppRecognitionRule fold settings rule).settings.Keyed u fold :=
  keyed_withRules h (unique_appendEntry (unique_retired h) fun hnone _ hj =>
    takenByAnother_eq_false (apart_of_checkRule hnone) hj (by simp))

theorem keyed_editAppRecognitionRule (h : settings.Keyed u fold) (appMatch : Text)
    (change : AppRecognitionRule → AppRecognitionRule) :
    (editAppRecognitionRule fold settings appMatch change).settings.Keyed u fold :=
  keyed_withRules h (unique_changeEntry (sameMatch_comm fold) (unique_retired h) fun _ _ hnone _ hj hne =>
    takenByAnother_eq_false (apart_of_checkRule hnone) hj (by simpa using hne))

/-! ## Removals and what undoes them -/

variable (u fold) in
/-- What is owed of an edit: the draft after it is keyed, what undoes it keeps a draft keyed, and undone
at once it leaves the draft the edit set out from. -/
structure Edited.Sound (prepared : AppSettings) (edited : Edited) : Prop where
  keyed : edited.settings.Keyed u fold
  undo_keyed : ∀ undo ∈ edited.undo, ∀ draft : AppSettings, draft.Keyed u fold → (undo draft).Keyed u fold
  undo_self : ∀ undo ∈ edited.undo, undo edited.settings = prepared

variable (u fold) in
/-- An edit that gives nothing to undo it with. -/
theorem Edited.Sound.of_keyed {prepared : AppSettings} {edited : Edited} (h : edited.settings.Keyed u fold)
    (hundo : edited.undo = none) : edited.Sound u fold prepared where
  keyed := h
  undo_keyed undo hmem := by rw [hundo] at hmem; cases hmem
  undo_self undo hmem := by rw [hundo] at hmem; cases hmem

theorem sound_removeVocabularyEntry (h : settings.Keyed u fold) (term : Text) :
    (removeVocabularyEntry fold settings term).Sound u fold (listedTerms fold settings) := by
  have hlisted := keyed_listedTerms h
  rw [removeVocabularyEntry]
  rcases Edited.ofTaken_cases (listedTerms fold settings) (listedTerms fold settings).vocabulary
    (indexOfTerm fold (listedTerms fold settings).vocabulary term) (sameTerm fold) _ _ with heq | ⟨i, heq⟩ <;>
    rw [heq]
  · exact .of_keyed u fold hlisted rfl
  · refine ⟨{ hlisted with vocabulary := hlisted.vocabulary.eraseIdx _ }, ?_, ?_⟩
    · rintro _ ⟨⟩ draft hdraft
      have hdraft' := keyed_listedTerms hdraft
      exact { hdraft' with
        vocabulary := unique_putBack (sameTerm_comm fold) hdraft'.vocabulary _ _ fun _ _ hab => hab }
    · rintro _ ⟨⟩
      have htidy : Tidy fold ((listedTerms fold settings).vocabulary.eraseIdx i) :=
        (tidy_normalize fold settings.vocabulary).sublist (List.eraseIdx_sublist _ i)
      have hback : putBack i _ (sameTerm fold) ((listedTerms fold settings).vocabulary.eraseIdx i) = _ :=
        putBack_takeEntry (sameTerm_comm fold) hlisted.vocabulary i
      rw [← normalize_of_tidy fold htidy] at hback
      exact congrArg (fun vocabulary => { listedTerms fold settings with vocabulary }) hback

theorem sound_removeLearnedCorrection (h : settings.Keyed u fold) (id : Text) :
    (removeLearnedCorrection fold settings id).Sound u fold settings := by
  rw [removeLearnedCorrection]
  rcases Edited.ofTaken_cases settings settings.learnedCorrections
    (settings.learnedCorrections.findFinIdx? (·.id = id)) (learnedAgain fold) _ _ with heq | ⟨i, heq⟩ <;> rw [heq]
  · exact .of_keyed u fold h rfl
  · refine ⟨{ h with learnedCorrections := h.learnedCorrections.eraseIdx _ }, ?_, ?_⟩
    · rintro _ ⟨⟩ draft hdraft
      exact { hdraft with
        learnedCorrections :=
          unique_putBack (learnedAgain_comm fold) hdraft.learnedCorrections _ _ fun _ _ hab => hab }
    · rintro _ ⟨⟩
      exact congrArg (fun learnedCorrections => { settings with learnedCorrections })
        (putBack_takeEntry (learnedAgain_comm fold) h.learnedCorrections i)

theorem sound_removeBindingRule (h : settings.Keyed u fold) (phrase : Text) :
    (removeBindingRule u settings phrase).Sound u fold settings := by
  rw [removeBindingRule]
  rcases Edited.ofTaken_cases settings settings.bindings (indexOfPhrase u settings.bindings phrase) (samePhrase u) _ _
    with heq | ⟨i, heq⟩ <;> rw [heq]
  · exact .of_keyed u fold h rfl
  · refine ⟨{ h with bindings := h.bindings.eraseIdx _ }, ?_, ?_⟩
    · rintro _ ⟨⟩ draft hdraft
      exact { hdraft with
        bindings := unique_putBack (samePhrase_comm u) hdraft.bindings _ _ fun _ _ hab => hab }
    · rintro _ ⟨⟩
      exact congrArg (fun bindings => { settings with bindings })
        (putBack_takeEntry (samePhrase_comm u) h.bindings i)

theorem sound_removeAppRecognitionRule (h : settings.Keyed u fold) (appMatch : Text) :
    (removeAppRecognitionRule fold settings appMatch).Sound u fold (rulesWithOverridesRetired settings) := by
  rw [removeAppRecognitionRule]
  rcases Edited.ofTaken_cases (rulesWithOverridesRetired settings)
    (rulesWithOverridesRetired settings).appRecognitionRules
    (indexOfMatch fold (rulesWithOverridesRetired settings).appRecognitionRules appMatch) (sameMatch fold) _ _
    with heq | ⟨i, heq⟩ <;> rw [heq]
  · exact .of_keyed u fold (keyed_retired h) rfl
  · refine ⟨keyed_withRules h ((unique_retired h).eraseIdx _), ?_, ?_⟩
    · rintro _ ⟨⟩ draft hdraft
      exact keyed_withRules hdraft
        (unique_putBack (sameMatch_comm fold) (unique_retired hdraft) _ _ fun _ _ hab => hab)
    · rintro _ ⟨⟩
      have hback : putBack i _ (sameMatch fold) ((rulesWithOverridesRetired settings).appRecognitionRules.eraseIdx i) = _ :=
        putBack_takeEntry (sameMatch_comm fold) (unique_retired h) i
      rw [← retired_nil ((rulesWithOverridesRetired settings).appRecognitionRules.eraseIdx i)] at hback
      exact congrArg (fun appRecognitionRules => { rulesWithOverridesRetired settings with appRecognitionRules }) hback

theorem Choices.profile_point {α : Type} (choices : Choices α) (which : WritingProfileSettings → Bool) (choice : Text)
    (left right : WritingProfileSettings) :
    sameProfile fold (if which left then choices.withChosen left choice else left)
        (if which right then choices.withChosen right choice else right) = sameProfile fold left right := by
  have hprofile : ∀ profile : WritingProfileSettings,
      (if which profile then choices.withChosen profile choice else profile).profile = profile.profile := by
    intro profile
    split
    · exact choices.profile_withChosen ..
    · rfl
  have hlabel : ∀ profile : WritingProfileSettings,
      (if which profile then choices.withChosen profile choice else profile).label = profile.label := by
    intro profile
    rw [WritingProfileSettings.label, WritingProfileSettings.label, hprofile]
    split
    · rw [choices.name_withChosen]
    · rfl
  rw [sameProfile, sameProfile, hprofile, hprofile, hlabel, hlabel]

theorem Choices.unique_point {α : Type} (choices : Choices α) (which : WritingProfileSettings → Bool) (choice : Text)
    {profiles : List WritingProfileSettings} (h : Unique (sameProfile fold) profiles) :
    Unique (sameProfile fold) (choices.point which choice profiles) := by
  refine List.pairwise_map.mpr (List.Pairwise.imp (fun {left right} hab => ?_) h)
  rw [choices.profile_point, hab]

/-- The profiles that held a choice hold it again, and no other changed. -/
theorem Choices.point_point {α : Type} (choices : Choices α) (id instead : Text)
    {profiles : List WritingProfileSettings} (h : Unique (sameProfile fold) profiles) :
    choices.point
        (fun profile => (((profiles.filter (choices.chosen · = id)).map WritingProfileSettings.profile).contains
          profile.profile) && choices.chosen profile = instead) id
        (choices.point (choices.chosen · = id) instead profiles) = profiles := by
  rw [Choices.point, Choices.point, List.map_map]
  refine (List.map_congr_left fun profile hprofile => ?_).trans (List.map_id _)
  have hmoved : ((profiles.filter (choices.chosen · = id)).map WritingProfileSettings.profile).contains
      profile.profile = true → choices.chosen profile = id := by
    intro hcontains
    obtain ⟨other, hother, hsame⟩ := List.mem_map.mp (List.contains_iff_mem.mp hcontains)
    obtain ⟨hmem, hchosen⟩ := List.mem_filter.mp hother
    obtain ⟨i, hi, rfl⟩ := List.getElem_of_mem hmem
    obtain ⟨j, hj, rfl⟩ := List.getElem_of_mem hprofile
    by_cases hij : i = j
    · subst hij
      simpa using hchosen
    · have hapart := h.apart (sameProfile_comm fold) hi hj hij
      rw [sameProfile, Bool.or_eq_false_iff, decide_eq_false_iff_not] at hapart
      exact absurd hsame hapart.1
  by_cases hchosen : choices.chosen profile = id
  · have hmem : ((profiles.filter (choices.chosen · = id)).map WritingProfileSettings.profile).contains
        profile.profile = true :=
      List.contains_iff_mem.mpr (List.mem_map_of_mem (List.mem_filter.mpr ⟨hprofile, by simpa using hchosen⟩))
    simp only [Function.comp_apply, hchosen, decide_true, if_true, choices.profile_withChosen,
      choices.chosen_withChosen, hmem, Bool.and_self]
    rw [← hchosen]
    exact choices.withChosen_chosen ..
  · simp only [Function.comp_apply, hchosen, decide_false, Bool.false_eq_true, if_false]
    rw [if_neg fun hmoved' => hchosen (hmoved (Bool.and_eq_true_iff.mp hmoved').1)]
    rfl

/-- Removing a choice, where a draft's choices are keyed with the draft. -/
theorem sound_removeChoice {α : Type} (choices : Choices α)
    (hentries : ∀ draft : AppSettings, draft.Keyed u fold → Unique (choices.same fold) (choices.entries draft))
    (hwith : ∀ (draft : AppSettings) (list : List α), draft.Keyed u fold → Unique (choices.same fold) list →
      (choices.withEntries draft list).Keyed u fold)
    (h : settings.Keyed u fold) (id instead : Text) :
    (Edited.ofRemoved (removeChoice fold choices settings id instead)).Sound u fold settings := by
  have hpoint : ∀ (draft : AppSettings) (which : WritingProfileSettings → Bool) (choice : Text),
      draft.Keyed u fold → AppSettings.Keyed u fold
        { draft with writingProfiles := choices.point which choice draft.writingProfiles } :=
    fun draft which choice hdraft =>
      { hdraft with writingProfiles := choices.unique_point which choice hdraft.writingProfiles }
  rw [removeChoice]
  cases hindex : (choices.entries settings).findFinIdx? (choices.id · = id) with
  | none => exact .of_keyed u fold h rfl
  | some i =>
    refine ⟨hpoint _ _ _ (hwith _ _ h ((hentries _ h).eraseIdx _)), ?_, ?_⟩
    · rintro _ ⟨⟩ draft hdraft
      have hback := hwith _ _ hdraft
        (unique_putBack (Choices.same_comm fold choices) (hentries _ hdraft) i (choices.entries settings)[i]
          fun _ _ hab => hab)
      exact iteInduction (motive := AppSettings.Keyed u fold) (fun _ => hback) fun _ => hpoint _ _ _ hback
    · rintro _ ⟨⟩
      have hid : choices.id (choices.entries settings)[i] = id := by
        simpa using (List.findFinIdx?_eq_some_iff.mp hindex).1
      have hany : (choices.entries settings).any (choices.id · = id) = true :=
        List.any_eq_true.mpr ⟨_, List.getElem_mem i.isLt, by simpa using hid⟩
      have hback : putBack i _ (choices.same fold) ((choices.entries settings).eraseIdx i) = _ :=
        putBack_takeEntry (Choices.same_comm fold choices) (hentries _ h) i
      have hleft : ∀ profiles, choices.entries
          { choices.withEntries settings ((choices.entries settings).eraseIdx i) with writingProfiles := profiles } =
          (choices.entries settings).eraseIdx i := by
        intro profiles
        rw [choices.entries_profiles, choices.entries_withEntries]
      have hall : ∀ profiles, choices.withEntries
          { choices.withEntries settings ((choices.entries settings).eraseIdx i) with writingProfiles := profiles }
          (choices.entries settings) = { settings with writingProfiles := profiles } := by
        intro profiles
        rw [choices.withEntries_profiles, choices.withEntries_withEntries, choices.withEntries_entries]
      show choices.undo (putBack i (choices.entries settings)[i] (choices.same fold)) _ id instead
        { choices.withEntries settings ((choices.entries settings).eraseIdx i) with writingProfiles := _ } = settings
      rw [Choices.undo, hleft, hback, hall, hany, choices.profiles_withEntries]
      exact congrArg (fun writingProfiles => { settings with writingProfiles })
        (choices.point_point id instead h.writingProfiles)

theorem sound_removeCustomTone (h : settings.Keyed u fold) (id : Text) :
    (removeCustomTone fold settings id).Sound u fold settings :=
  sound_removeChoice .tones (fun _ hdraft => hdraft.customTones)
    (fun _ _ hdraft hlist => { hdraft with customTones := hlist }) h _ _

theorem sound_removeCustomCleanupLevel (h : settings.Keyed u fold) (id : Text) :
    (removeCustomCleanupLevel fold settings id).Sound u fold settings :=
  sound_removeChoice .levels (fun _ hdraft => hdraft.customCleanupLevels)
    (fun _ _ hdraft hlist => { hdraft with customCleanupLevels := hlist }) h _ _

/-! ## Runs -/

theorem sound_apply (h : settings.Keyed u fold) {edit : Edit} (hedit : edit.KeepsId) :
    (edit.apply u fold settings).Sound u fold (edit.prepared fold settings) := by
  have haddProfile : ∀ profile, (addWritingProfile fold settings profile).undo = none := by
    intro profile
    rw [addWritingProfile]
    split <;> rfl
  have hremoveProfile : ∀ id, (removeWritingProfile settings id).undo = none := by
    intro id
    rw [removeWritingProfile]
    split <;> rfl
  have haddTone : ∀ tone builtInNames, (addCustomTone fold settings tone builtInNames).undo = none := by
    intro tone builtInNames
    rw [addCustomTone]
    split <;> rfl
  have haddLevel : ∀ level builtInNames, (addCustomCleanupLevel fold settings level builtInNames).undo = none := by
    intro level builtInNames
    rw [addCustomCleanupLevel]
    split <;> rfl
  cases edit with
  | addVocabularyEntry entry => exact .of_keyed u fold (keyed_addVocabularyEntry h entry) rfl
  | editVocabularyEntry term change => exact .of_keyed u fold (keyed_editVocabularyEntry h term change) rfl
  | removeVocabularyEntry term => exact sound_removeVocabularyEntry h term
  | editLearnedCorrection id change => exact .of_keyed u fold (keyed_editLearnedCorrection h id hedit) rfl
  | removeLearnedCorrection id => exact sound_removeLearnedCorrection h id
  | addBindingRule rule => exact .of_keyed u fold (keyed_addBindingRule h rule) rfl
  | editBindingRule phrase change => exact .of_keyed u fold (keyed_editBindingRule h phrase change) rfl
  | removeBindingRule phrase => exact sound_removeBindingRule h phrase
  | addWritingProfile profile => exact .of_keyed u fold (keyed_addWritingProfile h profile) (haddProfile profile)
  | editWritingProfile id change => exact .of_keyed u fold (keyed_editWritingProfile h id hedit) rfl
  | removeWritingProfile id => exact .of_keyed u fold (keyed_removeWritingProfile h id) (hremoveProfile id)
  | addCustomTone tone builtInNames => exact .of_keyed u fold (keyed_addCustomTone h tone builtInNames) (haddTone ..)
  | editCustomTone id change builtInNames => exact .of_keyed u fold (keyed_editCustomTone h id hedit builtInNames) rfl
  | removeCustomTone id => exact sound_removeCustomTone h id
  | addCustomCleanupLevel level builtInNames =>
    exact .of_keyed u fold (keyed_addCustomCleanupLevel h level builtInNames) (haddLevel ..)
  | editCustomCleanupLevel id change builtInNames =>
    exact .of_keyed u fold (keyed_editCustomCleanupLevel h id hedit builtInNames) rfl
  | removeCustomCleanupLevel id => exact sound_removeCustomCleanupLevel h id
  | addAppRecognitionRule rule => exact .of_keyed u fold (keyed_addAppRecognitionRule h rule) rfl
  | editAppRecognitionRule appMatch change =>
    exact .of_keyed u fold (keyed_editAppRecognitionRule h appMatch change) rfl
  | removeAppRecognitionRule appMatch => exact sound_removeAppRecognitionRule h appMatch

/-- Only a removal can be undone, and a removal changes no id. -/
theorem keepsId_of_undo {edit : Edit} {undo : SettingsEdit} (h : undo ∈ (edit.apply u fold settings).undo) :
    edit.KeepsId := by
  cases edit <;> first | exact trivial | cases h

/-- A refused edit leaves the draft it set out from. -/
theorem refused_apply {edit : Edit} (h : (edit.apply u fold settings).refusal ≠ .none) :
    (edit.apply u fold settings).settings = edit.prepared fold settings := by
  have hentry : ∀ {α : Type} (prepared : AppSettings) (withEntries : List α → AppSettings) (list : List α)
      (result : EditRefusal × List α), withEntries list = prepared → (result.1 ≠ .none → result.2 = list) →
      (Edited.ofEntry withEntries result).refusal ≠ .none → (Edited.ofEntry withEntries result).settings = prepared :=
    fun _ _ _ _ hlist hresult hrefused => (congrArg _ (hresult hrefused)).trans hlist
  have htaken : ∀ {α : Type} (prepared : AppSettings) (list : List α) (index : Option (Fin list.length))
      (same : α → α → Bool) (withEntries : List α → AppSettings) (undo : (List α → List α) → SettingsEdit),
      (Edited.ofTaken prepared list index same withEntries undo).refusal = .none := by
    intro α prepared list index same withEntries undo
    rcases Edited.ofTaken_cases prepared list index same withEntries undo with heq | ⟨i, heq⟩ <;> rw [heq]
  cases edit with
  | addVocabularyEntry entry => exact hentry _ _ _ _ rfl refused_appendEntry h
  | editVocabularyEntry term change => exact hentry _ _ _ _ rfl refused_changeEntry h
  | removeVocabularyEntry term => exact absurd (htaken ..) h
  | editLearnedCorrection id change => exact hentry _ _ _ _ rfl refused_changeEntry h
  | removeLearnedCorrection id => exact absurd (htaken ..) h
  | addBindingRule rule => exact hentry _ _ _ _ rfl refused_appendEntry h
  | editBindingRule phrase change => exact hentry _ _ _ _ rfl refused_changeEntry h
  | removeBindingRule phrase => exact absurd (htaken ..) h
  | addWritingProfile profile =>
    simp only [Edit.apply, addWritingProfile, Edit.prepared] at h ⊢
    split at h
    · rename_i hfree; rw [if_pos hfree]
    · rename_i hfree; rw [if_neg hfree]; exact hentry _ _ _ _ rfl refused_appendEntry h
  | editWritingProfile id change => exact hentry _ _ _ _ rfl refused_changeEntry h
  | removeWritingProfile id =>
    simp only [Edit.apply, removeWritingProfile] at h
    split at h <;> exact absurd rfl h
  | addCustomTone tone builtInNames =>
    simp only [Edit.apply, addCustomTone, Edit.prepared] at h ⊢
    split at h
    · rename_i hfree; rw [if_pos hfree]
    · rename_i hfree; rw [if_neg hfree]; exact hentry _ _ _ _ rfl refused_appendEntry h
  | editCustomTone id change builtInNames => exact hentry _ _ _ _ rfl refused_changeEntry h
  | removeCustomTone id => exact absurd rfl h
  | addCustomCleanupLevel level builtInNames =>
    simp only [Edit.apply, addCustomCleanupLevel, Edit.prepared] at h ⊢
    split at h
    · rename_i hfree; rw [if_pos hfree]
    · rename_i hfree; rw [if_neg hfree]; exact hentry _ _ _ _ rfl refused_appendEntry h
  | editCustomCleanupLevel id change builtInNames => exact hentry _ _ _ _ rfl refused_changeEntry h
  | removeCustomCleanupLevel id => exact absurd rfl h
  | addAppRecognitionRule rule => exact hentry _ _ _ _ rfl refused_appendEntry h
  | editAppRecognitionRule appMatch change => exact hentry _ _ _ _ rfl refused_changeEntry h
  | removeAppRecognitionRule appMatch => exact absurd (htaken ..) h

/-- A draft whose terms are tidied and whose overrides are retired is the one every edit sets out from. -/
theorem prepared_eq_self (hterms : Tidy fold settings.vocabulary) (hretired : settings.writingProfileOverrides = [])
    (edit : Edit) : edit.prepared fold settings = settings := by
  have hlisted : listedTerms fold settings = settings :=
    congrArg (fun vocabulary => { settings with vocabulary }) (normalize_of_tidy fold hterms)
  have hrules : rulesWithOverridesRetired settings = settings := by
    obtain ⟨_, _, _, _, _, _, rules, _, overrides⟩ := settings
    obtain rfl : overrides = [] := hretired
    rw [rulesWithOverridesRetired, retired_nil]
  cases edit <;> first | exact hlisted | exact hrules | rfl

variable (u fold) in
/-- A page's draft is keyed, and stays so under every undo it can offer. -/
structure Draft.Sound (draft : Draft) : Prop where
  keyed : draft.settings.Keyed u fold
  undos : ∀ undo ∈ draft.undos, ∀ settings : AppSettings, settings.Keyed u fold → (undo settings).Keyed u fold

theorem Draft.sound_step {draft : Draft} (h : draft.Sound u fold) {step : Draft.Step}
    (hstep : ∀ edit, step = .edit edit → edit.KeepsId) : (draft.step u fold step).Sound u fold := by
  cases step with
  | edit edit =>
    have hsound := sound_apply h.keyed (hstep edit rfl)
    refine ⟨hsound.keyed, fun undo hundo => ?_⟩
    rcases List.mem_append.mp hundo with hundo | hundo
    · exact hsound.undo_keyed undo (Option.mem_toList.mp hundo)
    · exact h.undos undo hundo
  | undo index =>
    rw [Draft.step]
    split
    · rename_i undo hundo
      exact ⟨h.undos undo (List.mem_of_getElem? hundo) _ h.keyed, h.undos⟩
    · exact h

theorem Draft.sound_run {draft : Draft} (h : draft.Sound u fold) {steps : List Draft.Step}
    (hsteps : ∀ edit, .edit edit ∈ steps → edit.KeepsId) : (draft.run u fold steps).Sound u fold := by
  induction steps generalizing draft with
  | nil => exact h
  | cons step steps ih =>
    refine ih (Draft.sound_step h fun edit hedit => ?_) fun edit hedit => hsteps edit (List.mem_cons_of_mem _ hedit)
    exact hsteps edit (hedit ▸ List.mem_cons_self)

/-- **Every run of edits and undos keeps a draft keyed**; in the draft it leaves, an undo that follows its
removal at once and a refused edit leave what the edit set out from, which is the draft itself once its
terms are tidied and its overrides retired. -/
theorem edits_keep_keys (h : settings.Keyed u fold) (steps : List Draft.Step)
    (hsteps : ∀ edit, .edit edit ∈ steps → edit.KeepsId) :
    let draft := ((⟨settings, []⟩ : Draft).run u fold steps).settings
    draft.Keyed u fold ∧
      ∀ edit : Edit,
        (∀ undo ∈ (edit.apply u fold draft).undo,
          undo (edit.apply u fold draft).settings = edit.prepared fold draft) ∧
        ((edit.apply u fold draft).refusal ≠ .none →
          (edit.apply u fold draft).settings = edit.prepared fold draft) ∧
        (Tidy fold draft.vocabulary → draft.writingProfileOverrides = [] → edit.prepared fold draft = draft) := by
  have hdraft : Draft.Sound u fold ⟨settings, []⟩ := ⟨h, fun undo hundo => nomatch hundo⟩
  have hsound := Draft.sound_run hdraft hsteps
  refine ⟨hsound.keyed, fun edit => ⟨fun undo hundo => ?_, refused_apply, fun hterms hretired =>
    prepared_eq_self hterms hretired edit⟩⟩
  exact (sound_apply hsound.keyed (keepsId_of_undo hundo)).undo_self undo hundo

/-- A draft with nothing in its lists. -/
def bareSettings : AppSettings := ⟨[], [], [], [], [], [], [], WritingProfile.other, []⟩

/-- A draft with a tone that a profile chose. -/
def dryWork : AppSettings :=
  { bareSettings with
    customTones := [⟨"custom_dry".toList, "Dry".toList, "Be dry.".toList⟩]
    writingProfiles :=
      [⟨WritingProfile.work, "balanced".toList, "custom_dry".toList, [], [], [], [], [], [], []⟩,
        ⟨WritingProfile.email, "balanced".toList, "none".toList, [], [], [], [], [], [], []⟩] }

/-- The tone removed in one run and put back in another: the profile that chose it chooses it again. -/
theorem edits_keep_keys_dryWork :
    ((⟨dryWork, []⟩ : Draft).run .basic .ascii [.edit (.removeCustomTone "custom_dry".toList), .undo 0]).settings.Keyed
        .basic .ascii ∧
      ∀ undo ∈ ((Edit.removeCustomTone "custom_dry".toList).apply .basic .ascii dryWork).undo,
        undo ((Edit.removeCustomTone "custom_dry".toList).apply .basic .ascii dryWork).settings = dryWork := by
  have hkeyed : dryWork.Keyed .basic .ascii :=
    ⟨by decide, by decide, by decide, by decide, by decide,
      by decide, by decide⟩
  refine ⟨(edits_keep_keys hkeyed _ fun edit hedit => ?_).1,
    ((edits_keep_keys hkeyed [] fun edit hedit => nomatch hedit).2 _).1⟩
  rcases List.mem_cons.mp hedit with hedit | hedit
  · cases hedit
    exact trivial
  · cases List.mem_singleton.mp hedit

def termA : VocabularyEntry := .ofTerm "a".toList
def termB : VocabularyEntry := .ofTerm "b".toList
def termC : VocabularyEntry := .ofTerm "c".toList

def kateRule (profile : Text) : AppRecognitionRule := ⟨"kate".toList, none, some profile⟩

/-- Two corrections of other words that share an id. -/
def twins : List LearnedCorrection :=
  [⟨"id".toList, "a".toList, "b".toList, [], 0, 1, true, 1, 0⟩, ⟨"id".toList, "c".toList, "d".toList, [], 0, 1, true, 1, 0⟩]

def kateOverride : WritingProfileOverride := ⟨"kate".toList, WritingProfile.email, true⟩

def toneA : CustomTone := ⟨"custom_a".toList, "A".toList, "A".toList⟩
def toneB : CustomTone := ⟨"custom_b".toList, "B".toList, "B".toList⟩

/-- What the lists do not keep: a refused rule edit retires the overrides; retiring one gives an
application two rules; a refused term edit, and a removal with its undo, sort the terms; a change of the
id gives two tones one; and where two corrections share an id, a removed one does not come back. -/
theorem edits_change_lists :
    (let settings := { bareSettings with writingProfileOverrides := [kateOverride] }
      let edited := addAppRecognitionRule .ascii settings (AppRecognitionRule.mk [] none none)
      edited.refusal = .blank ∧ edited.settings.appRecognitionRules = [kateRule WritingProfile.email]) ∧
    (let settings :=
        { bareSettings with
          appRecognitionRules := [kateRule WritingProfile.work], writingProfileOverrides := [kateOverride] }
      let edited := removeAppRecognitionRule .ascii settings "zed".toList
      ¬ Unique (sameMatch .ascii) edited.settings.appRecognitionRules) ∧
    (let settings := { bareSettings with vocabulary := [termB, termA] }
      let edited := addVocabularyEntry .ascii settings (.ofTerm [])
      edited.refusal = .blank ∧ edited.settings.vocabulary = [termA, termB]) ∧
    (let settings := { bareSettings with vocabulary := [termB, termA, termC] }
      let edited := removeVocabularyEntry .ascii settings "c".toList
      edited.undo.map (· edited.settings) = some { settings with vocabulary := [termA, termB, termC] }) ∧
    (let settings := { bareSettings with customTones := [toneA, toneB] }
      let edited := editCustomTone .ascii settings toneB.id (fun tone => { tone with id := toneA.id }) []
      ¬ Unique (Choices.tones.same .ascii) edited.settings.customTones) ∧
    (let settings := { bareSettings with learnedCorrections := twins }
      let edited := removeLearnedCorrection .ascii settings "id".toList
      Unique (sameCorrection .ascii) twins ∧ edited.undo.map (· edited.settings) ≠ some settings) := by
  refine ⟨?_, ?_, ?_, ?_, ?_, ?_⟩ <;> decide

end Speecher
