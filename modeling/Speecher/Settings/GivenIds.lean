import Mathlib.Data.List.InsertIdx
import Speecher.Settings.EditedLists
import Speecher.Settings.StoredReferences

/-!
# The ids of what the user adds

A settings page gives each profile, tone and level it adds an id of the page's own and a random part
(`newCustomId`), makes an edit in the settings the file gives, and saves them at once unless the edit was
refused or found nothing (`Library.step`).

* `givenIds_run`: however pages edit and undo, the ids the user's profiles, tones and levels have are ones
  a page gave, and no two of a list are one.
-/

namespace Speecher

/-! ## Random ids -/

/-- A digit of a random id. -/
def IsIdDigit (c : Char) : Prop := (48 ≤ c.toNat ∧ c.toNat ≤ 57) ∨ (97 ≤ c.toNat ∧ c.toNat ≤ 102)

instance (c : Char) : Decidable (IsIdDigit c) := inferInstanceAs (Decidable (_ ∨ _))

/-- `QUuid::toString(QUuid::Id128)` of a random id. -/
structure Uuid where
  digits : Text
  length_digits : digits.length = 32
  isIdDigit : ∀ c ∈ digits, IsIdDigit c

/-- Long enough that two ids made a moment apart never meet. -/
def randomIdLength : ℕ := 8

/-- An id of one kind. -/
def customId (kind : Text) (uuid : Uuid) : Text := kind ++ '_' :: uuid.digits.take randomIdLength

/-- An id none of `taken`: the first that is free of those the platform draws. -/
def newCustomId (kind : Text) (taken : List Text) (drawn : List Uuid) : Option Text :=
  (drawn.map (customId kind)).find? fun id => !taken.contains id

def profileKind : Text := "custom_profile".toList
def toneKind : Text := "custom_tone".toList
def levelKind : Text := "custom_level".toList

/-- A page gives the id. -/
def GivenId (kind id : Text) : Prop := ∃ taken drawn, newCustomId kind taken drawn = some id

theorem exists_uuid {kind id : Text} (h : GivenId kind id) : ∃ uuid, customId kind uuid = id := by
  obtain ⟨taken, drawn, hid⟩ := h
  obtain ⟨uuid, -, huuid⟩ := List.mem_map.mp (List.mem_of_find?_eq_some hid)
  exact ⟨uuid, huuid⟩

/-- The digits of one kind's ids are all that tells them apart. -/
theorem exists_digits {kind id : Text} (h : GivenId kind id) :
    ∃ digits : Text, digits.length = randomIdLength ∧ (∀ c ∈ digits, IsIdDigit c) ∧ id = kind ++ '_' :: digits := by
  obtain ⟨uuid, rfl⟩ := exists_uuid h
  refine ⟨uuid.digits.take randomIdLength, ?_, fun c hc => uuid.isIdDigit c (List.mem_of_mem_take hc), rfl⟩
  rw [List.length_take, uuid.length_digits]
  rfl

theorem isSpace_of_idDigit {c : Char} (h : IsIdDigit c) : isSpace c = false := by
  simp only [IsIdDigit] at h
  simp only [isSpace, Bool.or_eq_false_iff, Bool.and_eq_false_iff, decide_eq_false_iff_not]
  omega

/-- The kinds of ids a page gives. -/
def IsKind (kind : Text) : Prop := kCustomIdPrefix <+: kind ∧ IsPlain kind

theorem isKind_profile : IsKind profileKind := ⟨by decide, by decide⟩
theorem isKind_tone : IsKind toneKind := ⟨by decide, by decide⟩
theorem isKind_level : IsKind levelKind := ⟨by decide, by decide⟩

/-- A given id is one of the user's. -/
theorem GivenId.custom {kind id : Text} (hkind : IsKind kind) (h : GivenId kind id) :
    kCustomIdPrefix.isPrefixOf id = true := by
  obtain ⟨digits, -, -, rfl⟩ := exists_digits h
  exact List.isPrefixOf_iff_prefix.mpr (hkind.1.trans (List.prefix_append _ _))

/-- A given id is written in small letters, underscores and digits. -/
theorem GivenId.char {kind id : Text} (hkind : IsKind kind) (h : GivenId kind id) :
    ∀ c ∈ id, (c.isLower = true ∨ c = '_') ∨ IsIdDigit c := by
  obtain ⟨digits, -, hdigits, rfl⟩ := exists_digits h
  intro c hc
  rcases List.mem_append.mp hc with hc | hc
  · exact .inl (hkind.2.2 c hc)
  · rcases List.mem_cons.mp hc with rfl | hc
    · exact .inl (.inr rfl)
    · exact .inr (hdigits c hc)

theorem GivenId.space {kind id : Text} (hkind : IsKind kind) (h : GivenId kind id) :
    ∀ c ∈ id, isSpace c = false := fun c hc =>
  (h.char hkind c hc).elim isSpace_of_plain isSpace_of_idDigit

/-- The platform's lower case, which leaves ASCII but for its capital letters as it is. -/
structure AsciiLowerCase extends LowerCase where
  kept : ∀ c : Char, c.toNat < 128 → c.isUpper = false → char c = [c]

/-- ASCII letters are written in lower case, and nothing else is. -/
def AsciiLowerCase.letters : AsciiLowerCase where
  toLowerCase := .asciiLetters
  kept c _ hupper := by
    refine congrArg (fun d => [d]) (toLower_of_not_upper fun h => ?_)
    delta Char.isUpper at hupper
    simp only [decide_eq_false_iff_not, ge_iff_le, UInt32.le_iff_toNat_le] at hupper
    exact hupper h

variable (lower : AsciiLowerCase)

/-- Text that is not written differently in lower case. -/
theorem lowered_eq_self {text : Text} (h : ∀ c ∈ text, c.toNat < 128 ∧ c.isUpper = false) : lower.text text = text := by
  rw [LowerCase.text, List.flatMap_congr (g := fun c => [c]) fun c hc => lower.kept c (h c hc).1 (h c hc).2]
  simp

theorem ascii_of_plain {c : Char} (h : (c.isLower = true ∨ c = '_') ∨ IsIdDigit c) :
    c.toNat < 128 ∧ c.isUpper = false := by
  have hupper : ∀ c : Char, (c.toNat < 65 ∨ 90 < c.toNat) → c.isUpper = false := by
    intro c hc
    delta Char.isUpper
    simp only [decide_eq_false_iff_not, ge_iff_le, UInt32.le_iff_toNat_le]
    rintro ⟨h₁, h₂⟩
    have h₁' : 65 ≤ c.toNat := h₁
    have h₂' : c.toNat ≤ 90 := h₂
    omega
  rcases h with (h | rfl) | h
  · obtain ⟨h₁, h₂⟩ := toNat_of_isLower h
    exact ⟨by omega, hupper c (by omega)⟩
  · exact ⟨by decide, by decide⟩
  · simp only [IsIdDigit] at h
    exact ⟨by omega, hupper c (by omega)⟩

theorem GivenId.lowered {kind id : Text} (hkind : IsKind kind) (h : GivenId kind id) : lower.text id = id :=
  lowered_eq_self lower fun c hc => ascii_of_plain (h.char hkind c hc)

/-- The file names a profile by the id a page gave it. -/
theorem GivenId.stored {kind id : Text} (hkind : IsKind kind) (h : GivenId kind id) :
    StoredId lower.toLowerCase id := by
  have htrimmed : trimmed id = id := trimmed_eq_self (fun c hc => h.space hkind c (List.mem_of_mem_head? hc))
    fun c hc => h.space hkind c (List.mem_of_getLast? hc)
  refine storedId_of_lowered _ ?_ (.inr (h.custom hkind))
  rw [htrimmed, h.lowered lower hkind]

/-! ## Lists of given ids -/

/-- The ids are given ones of a kind, and differ. -/
structure Given (kind : Text) (ids : List Text) : Prop where
  nodup : ids.Nodup
  given : ∀ id ∈ ids, GivenId kind id

section

variable {kind : Text} {ids : List Text}

theorem given_nil (kind : Text) : Given kind [] := ⟨List.nodup_nil, fun _ h => absurd h List.not_mem_nil⟩

theorem Given.sublist {left : List Text} (h : Given kind ids) (hleft : left.Sublist ids) : Given kind left :=
  ⟨h.nodup.sublist hleft, fun id hid => h.given id (hleft.subset hid)⟩

theorem Given.perm {other : List Text} (h : Given kind ids) (hperm : other.Perm ids) : Given kind other :=
  ⟨hperm.nodup_iff.mpr h.nodup, fun id hid => h.given id (hperm.mem_iff.mp hid)⟩

theorem Given.cons {id : Text} (h : Given kind ids) (hid : GivenId kind id) (hfree : id ∉ ids) :
    Given kind (id :: ids) :=
  ⟨List.nodup_cons.mpr ⟨hfree, h.nodup⟩, List.forall_mem_cons.mpr ⟨hid, h.given⟩⟩

theorem Given.append {id : Text} (h : Given kind ids) (hid : GivenId kind id) (hfree : id ∉ ids) :
    Given kind (ids ++ [id]) :=
  (h.cons hid hfree).perm (List.perm_append_singleton id ids)

variable {α : Type} {list : List α} {idOf : α → Text}

/-- An id that is put back is not there twice. -/
theorem Given.putBack (h : Given kind (list.map idOf)) {removed : α} (hid : GivenId kind (idOf removed)) (index : ℕ)
    {same : α → α → Bool} (hsame : ∀ entry, idOf entry = idOf removed → same entry removed = true) :
    Given kind ((putBack index removed same list).map idOf) := by
  unfold Speecher.putBack
  split_ifs with hback
  · exact h
  · have hfree : idOf removed ∉ list.map idOf := by
      intro hmem
      obtain ⟨entry, hentry, heq⟩ := List.mem_map.mp hmem
      exact hback (List.any_eq_true.mpr ⟨entry, hentry, hsame entry heq⟩)
    refine (h.cons hid hfree).perm ?_
    exact (List.perm_insertIdx removed list (Nat.min_le_right _ _)).map idOf

/-- A change that keeps the ids of what it changes. -/
theorem map_changeEntry {index : Option (Fin list.length)} {change : α → α} {check : α → Option ℕ → α × EditRefusal}
    (hchange : ∀ entry, idOf (change entry) = idOf entry)
    (hcheck : ∀ entry self, idOf (check entry self).1 = idOf entry) :
    (changeEntry list index change check).2.map idOf = list.map idOf := by
  cases index with
  | none => rfl
  | some i =>
    rw [changeEntry]
    dsimp only
    split_ifs
    · refine List.ext_getElem (by simp) fun j hj _ => ?_
      rw [List.getElem_map, List.getElem_map, List.getElem_set]
      split_ifs with hself
      · subst hself
        rw [hcheck, hchange]
        rfl
      · rfl
    · rfl

/-- An addition whose id is free. -/
theorem Given.appendEntry (h : Given kind (list.map idOf)) {entry : α} {check : α → Option ℕ → α × EditRefusal}
    (hcheck : ∀ entry self, idOf (check entry self).1 = idOf entry) (hid : GivenId kind (idOf entry))
    (hfree : idFree list idOf (idOf entry) = true) : Given kind ((appendEntry list entry check).2.map idOf) := by
  have hfree' : idOf entry ∉ list.map idOf := by
    intro hmem
    obtain ⟨other, hother, heq⟩ := List.mem_map.mp hmem
    obtain ⟨j, hj, rfl⟩ := List.mem_iff_getElem.mp hother
    exact not_mem_of_idFree hfree hj heq
  rw [Speecher.appendEntry]
  dsimp only
  split_ifs
  · rw [List.map_append, List.map_singleton, hcheck]
    exact h.append hid hfree'
  · exact h

end

/-! ## Edits -/

/-- The ids of the profiles the user added. -/
def customIds (profiles : List WritingProfileSettings) : List Text :=
  (profiles.map WritingProfileSettings.profile).filter (kCustomIdPrefix.isPrefixOf ·)

theorem customIds_eq (profiles : List WritingProfileSettings) :
    customIds profiles = (customWritingProfiles profiles).map WritingProfileSettings.profile := by
  rw [customIds, customWritingProfiles, List.filter_map]
  rfl

/-- Every profile, tone and level the user added has an id of its own that a page gave it. -/
structure AppSettings.GivenIds (settings : AppSettings) : Prop where
  tones : Given toneKind (settings.customTones.map CustomTone.id)
  levels : Given levelKind (settings.customCleanupLevels.map CustomCleanupLevel.id)
  profiles : Given profileKind (customIds settings.writingProfiles)

/-- An edit a page makes: what it adds has the id the page gave it, and what it changes keeps its id. -/
def Edit.ByPage : Edit → Prop
  | addWritingProfile profile => GivenId profileKind profile.profile
  | addCustomTone tone _ => GivenId toneKind tone.id
  | addCustomCleanupLevel level _ => GivenId levelKind level.id
  | edit => edit.KeepsId

variable (u : Unicode) (fold : CaseFolding)

theorem profile_checkProfile (settings : AppSettings) (stored : Option WritingProfileSettings)
    (profile : WritingProfileSettings) (self : Option ℕ) :
    (checkProfile fold settings stored profile self).1.profile = profile.profile := by
  unfold checkProfile
  dsimp only
  split_ifs <;> rfl

theorem id_checkTone (tones : List CustomTone) (builtInNames : List Text) (tone : CustomTone) (self : Option ℕ) :
    (checkTone fold tones builtInNames tone self).1.id = tone.id := by
  unfold checkTone
  dsimp only
  split_ifs <;> rfl

theorem id_checkLevel (levels : List CustomCleanupLevel) (builtInNames : List Text) (level : CustomCleanupLevel)
    (self : Option ℕ) : (checkLevel fold levels builtInNames level self).1.id = level.id := by
  unfold checkLevel
  dsimp only
  split_ifs <;> rfl

theorem map_profile_point {α : Type} (choices : Choices α) (which : WritingProfileSettings → Bool) (choice : Text)
    (profiles : List WritingProfileSettings) :
    (choices.point which choice profiles).map WritingProfileSettings.profile =
      profiles.map WritingProfileSettings.profile := by
  rw [Choices.point, List.map_map]
  refine List.map_congr_left fun profile _ => ?_
  rw [Function.comp_apply]
  split
  · exact choices.profile_withChosen ..
  · rfl

variable {u fold} {settings : AppSettings}

/-- What is owed of an edit: ids stay given ones in the draft after it and under what undoes it. -/
structure Edited.KeepsGiven (edited : Edited) : Prop where
  settings : edited.settings.GivenIds
  undo : ∀ undo ∈ edited.undo, ∀ draft : AppSettings, draft.GivenIds → (undo draft).GivenIds

theorem Edited.KeepsGiven.of_settings {edited : Edited} (h : edited.settings.GivenIds) (hundo : edited.undo = none) :
    edited.KeepsGiven where
  settings := h
  undo undo hmem := by rw [hundo] at hmem; cases hmem

/-- A removal from a list whose entries have no such ids. -/
theorem Edited.KeepsGiven.ofTaken {α : Type} {list : List α} {index : Option (Fin list.length)} {same : α → α → Bool}
    {withEntries : List α → AppSettings} {undo : (List α → List α) → SettingsEdit} (h : settings.GivenIds)
    (hwith : ∀ l, (withEntries l).GivenIds)
    (hundo : ∀ back (draft : AppSettings), draft.GivenIds → (undo back draft).GivenIds) :
    (Edited.ofTaken settings list index same withEntries undo).KeepsGiven := by
  rcases Edited.ofTaken_cases settings list index same withEntries undo with heq | ⟨i, heq⟩
  · rw [heq]
    exact .of_settings h rfl
  · rw [heq]
    refine ⟨hwith _, ?_⟩
    rintro _ ⟨⟩ draft hdraft
    exact hundo _ draft hdraft

theorem givenIds_addWritingProfile (h : settings.GivenIds) {profile : WritingProfileSettings}
    (hid : GivenId profileKind profile.profile) : (addWritingProfile fold settings profile).settings.GivenIds := by
  rw [addWritingProfile]
  split_ifs with hfree
  · exact h
  · refine { h with profiles := ?_ }
    rw [Bool.not_eq_true', Bool.not_eq_false] at hfree
    have hnew : profile.profile ∉ customIds settings.writingProfiles := by
      intro hmem
      obtain ⟨other, hother, heq⟩ := List.mem_map.mp (List.mem_filter.mp hmem).1
      obtain ⟨j, hj, rfl⟩ := List.mem_iff_getElem.mp hother
      exact not_mem_of_idFree hfree hj heq
    show Given profileKind (customIds (appendEntry _ _ _).2)
    rw [appendEntry]
    dsimp only
    split_ifs
    · rw [customIds, List.map_append, List.filter_append, List.map_singleton, profile_checkProfile,
        List.filter_cons_of_pos (hid.custom isKind_profile), List.filter_nil]
      exact h.profiles.append hid hnew
    · exact h.profiles

theorem givenIds_editWritingProfile (h : settings.GivenIds) (id : Text)
    {change : WritingProfileSettings → WritingProfileSettings}
    (hchange : ∀ profile, (change profile).profile = profile.profile) :
    (editWritingProfile fold settings id change).settings.GivenIds := by
  refine { h with profiles := ?_ }
  show Given profileKind (customIds (changeEntry _ _ _ _).2)
  rw [customIds, map_changeEntry hchange fun _ _ => profile_checkProfile ..]
  exact h.profiles

theorem givenIds_removeWritingProfile (h : settings.GivenIds) (id : Text) :
    (removeWritingProfile settings id).settings.GivenIds := by
  rw [removeWritingProfile]
  split_ifs
  · exact h
  · exact { h with profiles := h.profiles.sublist ((List.filter_sublist.map _).filter _) }

theorem givenIds_addCustomTone (h : settings.GivenIds) {tone : CustomTone} (hid : GivenId toneKind tone.id)
    (builtInNames : List Text) : (addCustomTone fold settings tone builtInNames).settings.GivenIds := by
  rw [addCustomTone]
  split_ifs with hfree
  · exact h
  · exact { h with tones := h.tones.appendEntry (fun _ _ => id_checkTone ..) hid (by simpa using hfree) }

theorem givenIds_addCustomCleanupLevel (h : settings.GivenIds) {level : CustomCleanupLevel}
    (hid : GivenId levelKind level.id) (builtInNames : List Text) :
    (addCustomCleanupLevel fold settings level builtInNames).settings.GivenIds := by
  rw [addCustomCleanupLevel]
  split_ifs with hfree
  · exact h
  · exact { h with levels := h.levels.appendEntry (fun _ _ => id_checkLevel ..) hid (by simpa using hfree) }

theorem givenIds_editCustomTone (h : settings.GivenIds) (id : Text) {change : CustomTone → CustomTone}
    (hchange : ∀ tone, (change tone).id = tone.id) (builtInNames : List Text) :
    (editCustomTone fold settings id change builtInNames).settings.GivenIds := by
  refine { h with tones := ?_ }
  show Given toneKind ((changeEntry _ _ _ _).2.map _)
  rw [map_changeEntry hchange fun _ _ => id_checkTone ..]
  exact h.tones

theorem givenIds_editCustomCleanupLevel (h : settings.GivenIds) (id : Text)
    {change : CustomCleanupLevel → CustomCleanupLevel} (hchange : ∀ level, (change level).id = level.id)
    (builtInNames : List Text) :
    (editCustomCleanupLevel fold settings id change builtInNames).settings.GivenIds := by
  refine { h with levels := ?_ }
  show Given levelKind ((changeEntry _ _ _ _).2.map _)
  rw [map_changeEntry hchange fun _ _ => id_checkLevel ..]
  exact h.levels

theorem givenIds_point {α : Type} (h : settings.GivenIds) (choices : Choices α)
    (which : WritingProfileSettings → Bool) (choice : Text) : AppSettings.GivenIds
      { settings with writingProfiles := choices.point which choice settings.writingProfiles } := by
  refine { h with profiles := ?_ }
  show Given profileKind (customIds (choices.point _ _ _))
  rw [customIds, map_profile_point]
  exact h.profiles

/-- Removing a choice, where a draft's choices have given ids when the draft has. -/
theorem keepsGiven_removeChoice {α : Type} (choices : Choices α) {kind : Text}
    (hentries : ∀ draft : AppSettings, draft.GivenIds → Given kind ((choices.entries draft).map choices.id))
    (hwith : ∀ (draft : AppSettings) (list : List α), draft.GivenIds → Given kind (list.map choices.id) →
      (choices.withEntries draft list).GivenIds)
    (h : settings.GivenIds) (id instead : Text) :
    (Edited.ofRemoved (removeChoice fold choices settings id instead)).KeepsGiven := by
  rw [removeChoice]
  cases hindex : (choices.entries settings).findFinIdx? (choices.id · = id) with
  | none => exact .of_settings h rfl
  | some i =>
    have hleft := hwith settings ((choices.entries settings).eraseIdx i) h
      ((hentries _ h).sublist (List.Sublist.map _ (List.eraseIdx_sublist ..)))
    refine ⟨?_, ?_⟩
    · exact givenIds_point hleft choices (choices.chosen · = id) instead
    · rintro _ ⟨⟩ draft hdraft
      have hgiven := (hentries _ h).given _ (List.mem_map_of_mem (List.getElem_mem i.isLt))
      have hback := hwith draft (putBack i (choices.entries settings)[i] (choices.same fold) (choices.entries draft))
        hdraft ((hentries _ hdraft).putBack hgiven i fun entry heq => by
          rw [Choices.same, decide_eq_true heq, Bool.true_or])
      exact iteInduction (motive := AppSettings.GivenIds) (fun _ => hback) fun _ => givenIds_point hback choices _ _

theorem keepsGiven_apply (h : settings.GivenIds) {edit : Edit} (hedit : edit.ByPage) :
    (edit.apply u fold settings).KeepsGiven := by
  have haddProfile : ∀ profile, (addWritingProfile fold settings profile).undo = none := by
    intro profile
    rw [addWritingProfile]
    split <;> rfl
  have hremoveProfile : ∀ id, (removeWritingProfile settings id).undo = none := by
    intro id
    rw [removeWritingProfile]
    split <;> rfl
  have haddTone : ∀ tone builtInNames, (addCustomTone fold settings tone builtInNames).undo = none := by
    intro tone builtInNames
    rw [addCustomTone]
    split <;> rfl
  have haddLevel : ∀ level builtInNames, (addCustomCleanupLevel fold settings level builtInNames).undo = none := by
    intro level builtInNames
    rw [addCustomCleanupLevel]
    split <;> rfl
  have hother : ∀ edited : Edited, edited.settings.customTones = settings.customTones →
      edited.settings.customCleanupLevels = settings.customCleanupLevels →
      edited.settings.writingProfiles = settings.writingProfiles → edited.undo = none → edited.KeepsGiven := by
    intro edited htones hlevels hprofiles hundo
    exact .of_settings ⟨htones ▸ h.tones, hlevels ▸ h.levels, hprofiles ▸ h.profiles⟩ hundo
  have hkept : ∀ draft edited : AppSettings, draft.GivenIds → edited.customTones = draft.customTones →
      edited.customCleanupLevels = draft.customCleanupLevels → edited.writingProfiles = draft.writingProfiles →
      edited.GivenIds := by
    intro draft edited hdraft htones hlevels hprofiles
    exact ⟨htones ▸ hdraft.tones, hlevels ▸ hdraft.levels, hprofiles ▸ hdraft.profiles⟩
  cases edit with
  | addVocabularyEntry entry => exact hother _ rfl rfl rfl rfl
  | editVocabularyEntry term change => exact hother _ rfl rfl rfl rfl
  | removeVocabularyEntry term =>
    rw [Edit.apply, removeVocabularyEntry]
    exact .ofTaken (hkept _ _ h rfl rfl rfl) (fun _ => hkept _ _ h rfl rfl rfl) fun _ draft hdraft =>
      hkept draft _ hdraft rfl rfl rfl
  | editLearnedCorrection id change => exact hother _ rfl rfl rfl rfl
  | removeLearnedCorrection id =>
    rw [Edit.apply, removeLearnedCorrection]
    exact .ofTaken h (fun _ => hkept _ _ h rfl rfl rfl) fun _ draft hdraft => hkept draft _ hdraft rfl rfl rfl
  | addBindingRule rule => exact hother _ rfl rfl rfl rfl
  | editBindingRule phrase change => exact hother _ rfl rfl rfl rfl
  | removeBindingRule phrase =>
    rw [Edit.apply, removeBindingRule]
    exact .ofTaken h (fun _ => hkept _ _ h rfl rfl rfl) fun _ draft hdraft => hkept draft _ hdraft rfl rfl rfl
  | addWritingProfile profile => exact .of_settings (givenIds_addWritingProfile h hedit) (haddProfile profile)
  | editWritingProfile id change => exact .of_settings (givenIds_editWritingProfile h id hedit) rfl
  | removeWritingProfile id => exact .of_settings (givenIds_removeWritingProfile h id) (hremoveProfile id)
  | addCustomTone tone builtInNames =>
    exact .of_settings (givenIds_addCustomTone h hedit builtInNames) (haddTone ..)
  | editCustomTone id change builtInNames =>
    exact .of_settings (givenIds_editCustomTone h id hedit builtInNames) rfl
  | removeCustomTone id =>
    exact keepsGiven_removeChoice .tones (fun _ hdraft => hdraft.tones)
      (fun _ _ hdraft hlist => { hdraft with tones := hlist }) h _ _
  | addCustomCleanupLevel level builtInNames =>
    exact .of_settings (givenIds_addCustomCleanupLevel h hedit builtInNames) (haddLevel ..)
  | editCustomCleanupLevel id change builtInNames =>
    exact .of_settings (givenIds_editCustomCleanupLevel h id hedit builtInNames) rfl
  | removeCustomCleanupLevel id =>
    exact keepsGiven_removeChoice .levels (fun _ hdraft => hdraft.levels)
      (fun _ _ hdraft hlist => { hdraft with levels := hlist }) h _ _
  | addAppRecognitionRule rule => exact hother _ rfl rfl rfl rfl
  | editAppRecognitionRule appMatch change => exact hother _ rfl rfl rfl rfl
  | removeAppRecognitionRule appMatch =>
    rw [Edit.apply, removeAppRecognitionRule]
    exact .ofTaken (hkept _ _ h rfl rfl rfl) (fun _ => hkept _ _ h rfl rfl rfl) fun _ draft hdraft =>
      hkept draft _ hdraft rfl rfl rfl

/-! ## Saved edits -/

/-- The settings file, and the undos pages can still offer. -/
structure Library where
  file : SettingsFile
  undos : List SettingsEdit

/-- Whether a page saves an edit: a removal that found something, any other that was not refused. -/
def Edit.saved (settings : AppSettings) (edited : Edited) : Edit → Bool
  | removeVocabularyEntry _ | removeLearnedCorrection _ | removeBindingRule _ | removeCustomTone _
  | removeCustomCleanupLevel _ | removeAppRecognitionRule _ => edited.undo.isSome
  | removeWritingProfile id => !isBuiltInWritingProfile id && settings.writingProfiles.any (·.profile = id)
  | _ => edited.refusal = .none

open SettingsCodecs

variable (u fold)

/-- An edit, or the undo of a removal, in the settings the file gives, saved. -/
def Library.step (library : Library) : Draft.Step → Library
  | .edit edit =>
    let settings := snapshot lower.toLowerCase u fold library.file
    let edited := edit.apply u fold settings
    if edit.saved settings edited then
      ⟨writeSnapshot lower.toLowerCase u fold library.file edited.settings, edited.undo.toList ++ library.undos⟩
    else library
  | .undo index =>
    match library.undos[index]? with
    | some undo =>
      { library with
        file := writeSnapshot lower.toLowerCase u fold library.file
          (undo (snapshot lower.toLowerCase u fold library.file)) }
    | none => library

def Library.run (library : Library) (steps : List Draft.Step) : Library := steps.foldl (step lower u fold) library

/-- The ids are read back as they were saved. -/
theorem givenIds_stored {draft : AppSettings} (h : draft.GivenIds) (held : List BindingRule) :
    (draft.stored lower.toLowerCase u fold held).GivenIds where
  tones := h.tones
  levels := h.levels
  profiles := by
    have hids : customIds (storedProfiles lower.toLowerCase draft) = customIds draft.writingProfiles := by
      rw [customIds, storedProfiles, List.map_map, List.map_append, List.filter_append]
      have hbuiltIn : ((builtInProfiles.map (writingProfileSettingsFor draft.writingProfiles)).map
          (WritingProfileSettings.profile ∘ (·.stored lower.toLowerCase draft.customCleanupLevels draft.customTones))
          ).filter (kCustomIdPrefix.isPrefixOf ·) = [] := by
        refine List.filter_eq_nil_iff.mpr fun id hid => ?_
        simp only [List.map_map, List.mem_map, Function.comp_apply] at hid
        obtain ⟨builtIn, hmem, rfl⟩ := hid
        have hname : (writingProfileSettingsFor draft.writingProfiles builtIn).profile = builtIn :=
          profile_settingsFor _ hmem
        show ¬ kCustomIdPrefix.isPrefixOf (writingProfileFromName _ _) = true
        rw [hname, storedId_of_builtIn _ ((isBuiltIn_iff_mem builtIn).mpr hmem), not_custom_of_builtIn hmem]
        exact Bool.false_ne_true
      have hcustom : (customWritingProfiles draft.writingProfiles).map
          (WritingProfileSettings.profile ∘ (·.stored lower.toLowerCase draft.customCleanupLevels draft.customTones)) =
          customIds draft.writingProfiles := by
        rw [customIds_eq]
        refine List.map_congr_left fun profile hprofile => ?_
        have hmem : profile.profile ∈ customIds draft.writingProfiles := by
          rw [customIds_eq]
          exact List.mem_map_of_mem hprofile
        exact (h.profiles.given _ hmem).stored lower isKind_profile
      rw [hbuiltIn, List.nil_append, hcustom]
      exact List.filter_eq_self.mpr fun id hid => (List.mem_filter.mp hid).2
    show Given profileKind (customIds (storedProfiles lower.toLowerCase draft))
    rw [hids]
    exact h.profiles

theorem givenIds_saved {draft : AppSettings} (h : draft.GivenIds) (file : SettingsFile) :
    (snapshot lower.toLowerCase u fold (writeSnapshot lower.toLowerCase u fold file draft)).GivenIds := by
  rw [snapshot_writeSnapshot]
  exact givenIds_stored lower u fold h _

/-- The file's ids are given ones, and stay so under every undo that can still be offered. -/
structure Library.Given (library : Library) : Prop where
  file : (snapshot lower.toLowerCase u fold library.file).GivenIds
  undos : ∀ undo ∈ library.undos, ∀ settings : AppSettings, settings.GivenIds → (undo settings).GivenIds

variable {lower u fold}

theorem Library.given_step {library : Library} (h : library.Given lower u fold) {step : Draft.Step}
    (hstep : ∀ edit, step = .edit edit → edit.ByPage) : (library.step lower u fold step).Given lower u fold := by
  cases step with
  | edit edit =>
    have hkept : (edit.apply u fold _).KeepsGiven := keepsGiven_apply h.file (hstep edit rfl)
    rw [Library.step]
    split
    · refine ⟨givenIds_saved lower u fold hkept.settings _, fun undo hundo => ?_⟩
      rcases List.mem_append.mp hundo with hundo | hundo
      · exact hkept.undo undo (Option.mem_toList.mp hundo)
      · exact h.undos undo hundo
    · exact h
  | undo index =>
    rw [Library.step]
    split
    · rename_i undo hundo
      exact ⟨givenIds_saved lower u fold (h.undos undo (List.mem_of_getElem? hundo) _ h.file) _, h.undos⟩
    · exact h

/-- **However pages edit and undo, the ids of what the user added are given ones and differ.** -/
theorem givenIds_run {library : Library} (h : library.Given lower u fold) {steps : List Draft.Step}
    (hsteps : ∀ edit, .edit edit ∈ steps → edit.ByPage) : (library.run lower u fold steps).Given lower u fold := by
  induction steps generalizing library with
  | nil => exact h
  | cons step steps ih =>
    refine ih (Library.given_step h fun edit hedit => ?_) fun edit hedit => hsteps edit (List.mem_cons_of_mem _ hedit)
    exact hsteps edit (hedit ▸ List.mem_cons_self)

end Speecher
