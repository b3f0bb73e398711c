import Speecher.Transfer.ComputerImport

/-!
# Importing merges

What `withImported` leaves a phone with: each of its five lists is a merge of the phone's and the computer's
(`MergeOf`), and importing the same settings again leaves them as they are. The phone's settings are as its store loads
them (`Loaded`), and no list of either side has two items of one key. Where a list of the computer's has, importing twice
is not importing once (`withImported_twice`).

* `withImported_merges`: the lists, importing again, and when the preview says that nothing changes.
-/

namespace Speecher.Android

variable (u : Unicode) (fold : CaseFolding)

/-- A phone's settings as they are loaded: the vocabulary listed, nothing that points at what is gone, one item a key. -/
structure Loaded (phone : SpeecherSettings) : Prop where
  vocabulary : normalizedVocabulary fold phone.vocabulary = phone.vocabulary
  phrases : (phone.replacements.map (phraseKey u)).Nodup
  profiles : phone.profileIds.Nodup
  tones : (phone.customTones.map CustomTone.id).Nodup
  levels : (phone.customCleanupLevels.map CustomCleanupLevel.id).Nodup
  choices : ∀ it ∈ phone.writingProfiles, it.2.withoutDeleted phone.customTones phone.customCleanupLevels = it.2
  rules : ∀ it ∈ phone.appRules,
    (∀ profile ∈ it.writingProfile, profile ∈ phone.profileIds) ∧ (it.category.isSome ∨ it.writingProfile.isSome)
  fallback : phone.defaultWritingProfile ∈ phone.profileIds
  words : ∀ word ∈ phone.vocabulary, ∀ profile ∈ word.profiles, profile ∈ phone.profileIds

/-- A computer's settings, one item a key. -/
structure Apart (computer : ComputerSettings) : Prop where
  phrases : (computer.replacements.map (phraseKey u)).Nodup
  profiles : (computer.writingProfiles.map Prod.fst).Nodup
  tones : (computer.customTones.map CustomTone.id).Nodup
  levels : (computer.customCleanupLevels.map CustomCleanupLevel.id).Nodup

/-- Every list of the phone's is a merge of what it was and the computer's. -/
structure Merges (phone : SpeecherSettings) (computer : ComputerSettings) (merged : SpeecherSettings) : Prop where
  vocabulary : MergeOf (termKey fold)
    (fun word it => (importedWord word it).confined merged.profileIds) (·.confined merged.profileIds)
    phone.vocabulary (normalizedVocabulary fold computer.vocabulary) merged.vocabulary
  words : ∀ word ∈ computer.vocabulary, simplified word.term ≠ [] →
    foldCase fold (simplified word.term) ∈ merged.vocabulary.map (termKey fold)
  replacements : MergeOf (phraseKey u) (fun rule it => { rule with text := it.text }) id
    phone.replacements computer.replacements merged.replacements
  writingProfiles : MergeOf Prod.fst
    (fun _ it => (it.1, it.2.withoutDeleted merged.customTones merged.customCleanupLevels))
    (fun it => (it.1, it.2.withoutDeleted merged.customTones merged.customCleanupLevels))
    phone.writingProfiles computer.writingProfiles merged.writingProfiles
  customTones : MergeOf CustomTone.id (fun _ it => it) id phone.customTones computer.customTones merged.customTones
  customCleanupLevels : MergeOf CustomCleanupLevel.id (fun _ it => it) id
    phone.customCleanupLevels computer.customCleanupLevels merged.customCleanupLevels

/-- Settings that are the same but for use counts, sources and order. -/
structure SameButCounts (phone merged : SpeecherSettings) : Prop where
  vocabulary : (merged.vocabulary.map VocabularyWord.setting).Perm (phone.vocabulary.map VocabularyWord.setting)
  replacements : merged.replacements.Perm phone.replacements
  writingProfiles : merged.writingProfiles.Perm phone.writingProfiles
  customTones : merged.customTones.Perm phone.customTones
  customCleanupLevels : merged.customCleanupLevels.Perm phone.customCleanupLevels
  appRules : merged.appRules.Perm phone.appRules
  defaultWritingProfile : merged.defaultWritingProfile = phone.defaultWritingProfile
  additionalInstructions : merged.additionalInstructions = phone.additionalInstructions

/-! ## What is left of a reference -/

namespace WritingProfileSettings

variable (tones : List CustomTone) (levels : List CustomCleanupLevel) (settings : WritingProfileSettings)

theorem withCleanupLevel_balanced : settings.withCleanupLevel CleanupStrength.balanced.id =
    { settings with cleanupStrength := .balanced, customCleanupLevel := none } := by
  have hfind : CleanupStrength.entries.find? (·.id = CleanupStrength.balanced.id) = some .balanced := by decide
  rw [withCleanupLevel, hfind]

theorem withTone_none : settings.withTone Tone.none.id = { settings with tone := .none, customTone := none } := by
  have hfind : Tone.entries.find? (·.id = Tone.none.id) = some .none := by decide
  rw [withTone, hfind]

/-- The level chosen is gone. -/
def levelGone : Bool := settings.customCleanupLevel.any fun id => levels.all (·.id ≠ id)

/-- The tone chosen is gone. -/
def toneGone : Bool := settings.customTone.any fun id => tones.all (·.id ≠ id)

theorem withoutDeleted_eq : settings.withoutDeleted tones levels =
    { settings with
      cleanupStrength := if settings.levelGone levels then .balanced else settings.cleanupStrength
      customCleanupLevel := if settings.levelGone levels then none else settings.customCleanupLevel
      tone := if settings.toneGone tones then .none else settings.tone
      customTone := if settings.toneGone tones then none else settings.customTone } := by
  simp only [withoutDeleted, withCleanupLevel_balanced, withTone_none]
  rw [← levelGone, ← toneGone]
  cases hlevel : settings.levelGone levels <;> cases htone : settings.toneGone tones <;> rfl

theorem withoutDeleted_eq_self : settings.withoutDeleted tones levels = settings ↔
    settings.levelGone levels = false ∧ settings.toneGone tones = false := by
  rw [withoutDeleted_eq]
  constructor
  · intro h
    refine ⟨Bool.eq_false_iff.mpr fun hgone => ?_, Bool.eq_false_iff.mpr fun hgone => ?_⟩
    · have hnone := congrArg customCleanupLevel h
      rw [show customCleanupLevel _ = none from if_pos hgone] at hnone
      simp [levelGone, ← hnone] at hgone
    · have hnone := congrArg customTone h
      rw [show customTone _ = none from if_pos hgone] at hnone
      simp [toneGone, ← hnone] at hgone
  · rintro ⟨hlevel, htone⟩
    rw [hlevel, htone]
    rfl

/-- What is gone is let go once. -/
theorem withoutDeleted_withoutDeleted :
    (settings.withoutDeleted tones levels).withoutDeleted tones levels = settings.withoutDeleted tones levels := by
  rw [withoutDeleted_eq_self, withoutDeleted_eq]
  constructor
  · cases h : settings.levelGone levels with
    | true => rfl
    | false => exact h
  · cases h : settings.toneGone tones with
    | true => rfl
    | false => exact h

/-- What is among some tones and levels is among more. -/
theorem withoutDeleted_of_subset {tones' : List CustomTone} {levels' : List CustomCleanupLevel}
    (htones : ∀ tone ∈ tones, tone.id ∈ tones'.map CustomTone.id)
    (hlevels : ∀ level ∈ levels, level.id ∈ levels'.map CustomCleanupLevel.id)
    (h : settings.withoutDeleted tones levels = settings) : settings.withoutDeleted tones' levels' = settings := by
  rw [withoutDeleted_eq_self] at h ⊢
  refine ⟨Bool.eq_false_iff.mpr fun hgone => Bool.false_ne_true (h.1.symm.trans ?_),
    Bool.eq_false_iff.mpr fun hgone => Bool.false_ne_true (h.2.symm.trans ?_)⟩
  · obtain ⟨id, hid, hall⟩ := (Option.any_eq_true ..).mp hgone
    refine (Option.any_eq_true ..).mpr ⟨id, hid, List.all_eq_true.mpr fun level hmem => ?_⟩
    obtain ⟨level', hlevel', heq⟩ := List.mem_map.mp (hlevels level hmem)
    rw [← heq]
    exact List.all_eq_true.mp hall level' hlevel'
  · obtain ⟨id, hid, hall⟩ := (Option.any_eq_true ..).mp hgone
    refine (Option.any_eq_true ..).mpr ⟨id, hid, List.all_eq_true.mpr fun tone hmem => ?_⟩
    obtain ⟨tone', htone', heq⟩ := List.mem_map.mp (htones tone hmem)
    rw [← heq]
    exact List.all_eq_true.mp hall tone' htone'

end WritingProfileSettings

namespace VocabularyWord

variable {profiles : List Text} {word : VocabularyWord}

theorem confined_confined : (word.confined profiles).confined profiles = word.confined profiles := by
  simp [confined, Finset.filter_filter]

theorem confined_of_subset (h : ∀ profile ∈ word.profiles, profile ∈ profiles) : word.confined profiles = word := by
  rw [confined, Finset.filter_true_of_mem h]

theorem Tidied.confined (h : word.Tidied) : (word.confined profiles).Tidied :=
  ⟨by
    obtain ⟨hterm, hcontext, -, -, -, hsource, hfrequency, hused⟩ := VocabularyWord.mk.inj h.tidied
    exact VocabularyWord.mk.injEq .. ▸ ⟨hterm, hcontext, rfl, rfl, rfl, hsource, hfrequency, hused⟩, h.term⟩

theorem Tidied.imported {phone incoming : VocabularyWord} (h : phone.Tidied) (h' : incoming.Tidied) :
    (importedWord phone incoming).Tidied := by
  refine ⟨?_, h'.term⟩
  obtain ⟨-, -, -, -, -, hsource, hfrequency, hused⟩ := VocabularyWord.mk.inj h.tidied
  obtain ⟨hterm, hcontext, -, -, -, -, -, -⟩ := VocabularyWord.mk.inj h'.tidied
  refine VocabularyWord.mk.injEq .. ▸ ⟨hterm, hcontext, rfl, rfl, rfl, hsource, ?_, ?_⟩
  · exact max_eq_right ((max_eq_right_iff.mp hfrequency).trans (le_max_left _ _))
  · exact max_eq_right ((max_eq_right_iff.mp hused).trans (le_max_left _ _))

end VocabularyWord

/-! ## The words -/

section Words

variable {fold} {words others : List VocabularyWord} {profiles : List Text}

theorem keepsKey_importedWord : KeepsKey (termKey fold) importedWord := fun _ _ h => h.symm

/-- Merged words are tidied, one a term, where those of both lists are. -/
theorem apart_mergedWords (hwords : ∀ word ∈ words, word.Tidied) (hothers : ∀ word ∈ others, word.Tidied)
    (hunique : Unique (sameWord fold) words) (hunique' : Unique (sameWord fold) others) :
    (∀ word ∈ mergedBy (termKey fold) importedWord words others, word.Tidied) ∧
      Unique (sameWord fold) (mergedBy (termKey fold) importedWord words others) := by
  refine ⟨fun word hword => ?_, (unique_iff_nodup fold).mpr
    (nodup_mergedBy keepsKey_importedWord ((unique_iff_nodup fold).mp hunique) ((unique_iff_nodup fold).mp hunique'))⟩
  rcases mem_mergedBy.mp hword with ⟨phone, hphone, rfl⟩ | ⟨hmem, -⟩
  · cases h : lastOf (termKey fold) others (termKey fold phone) with
    | none =>
      rw [updated_of_none h]
      exact hwords phone hphone
    | some incoming =>
      rw [updated_of_some h]
      exact (hwords phone hphone).imported (hothers incoming (lastOf_some h).1)
  · exact hothers word hmem

/-- What the order compares is not where a word is used. -/
theorem sendKey_confined (word : VocabularyWord) : (word.confined profiles).sendKey fold = word.sendKey fold := rfl

/-- Words of a list are listed still when they are limited to fewer profiles. -/
theorem normalizedVocabulary_map_confined (h : normalizedVocabulary fold words = words) :
    normalizedVocabulary fold (words.map (·.confined profiles)) = words.map (·.confined profiles) := by
  obtain ⟨htidied, hunique⟩ := h ▸ tidy_normalizedVocabulary fold words
  have hsorted := h ▸ pairwise_normalizedVocabulary fold words
  rw [normalizedVocabulary_of_apart]
  · exact (List.pairwise_map.mpr (by simpa only [sendKey_confined] using hsorted)).insertionSort_eq
  · intro word hword
    obtain ⟨word, hmem, rfl⟩ := List.mem_map.mp hword
    exact (htidied word hmem).confined
  · exact List.pairwise_map.mpr hunique

end Words

/-! ## Importing -/

variable {u fold} {phone : SpeecherSettings} {computer : ComputerSettings}

theorem keepsKey_importedReplacement : KeepsKey (phraseKey u) importedReplacement := fun _ _ _ => rfl

theorem keepsKey_second {α κ : Type*} {key : α → κ} : KeepsKey key fun _ it => it := fun _ _ h => h.symm

theorem profileIds_withImported : (phone.withImported u fold computer).profileIds =
    (mergedBy Prod.fst (fun _ it => it) phone.writingProfiles computer.writingProfiles).map Prod.fst :=
  List.map_map ..

/-- A phone's profiles are there after importing. -/
theorem mem_profileIds_withImported {profile : Text} (h : profile ∈ phone.profileIds) :
    profile ∈ (phone.withImported u fold computer).profileIds := by
  rw [profileIds_withImported, mem_keys_mergedBy keepsKey_second]
  exact .inl h

variable (computer) in
/-- The words that are merged are tidied, one a term. -/
theorem Loaded.mergedWords (h : Loaded u fold phone) :
    (∀ word ∈ mergedBy (termKey fold) importedWord phone.vocabulary (normalizedVocabulary fold computer.vocabulary),
      word.Tidied) ∧
    Unique (sameWord fold)
      (mergedBy (termKey fold) importedWord phone.vocabulary (normalizedVocabulary fold computer.vocabulary)) := by
  obtain ⟨htidied, hunique⟩ := h.vocabulary ▸ tidy_normalizedVocabulary fold phone.vocabulary
  obtain ⟨htidied', hunique'⟩ := tidy_normalizedVocabulary fold computer.vocabulary
  exact apart_mergedWords htidied htidied' hunique hunique'

variable (computer) in
theorem Loaded.vocabulary_perm (h : Loaded u fold phone) :
    (normalizedVocabulary fold
      (mergedBy (termKey fold) importedWord phone.vocabulary (normalizedVocabulary fold computer.vocabulary))).Perm
      (mergedBy (termKey fold) importedWord phone.vocabulary (normalizedVocabulary fold computer.vocabulary)) := by
  obtain ⟨htidied, hunique⟩ := h.mergedWords computer
  rw [normalizedVocabulary_of_apart htidied hunique]
  exact List.perm_insertionSort _ _

/-- No rule is about a profile that is gone. -/
theorem Loaded.appRules (h : Loaded u fold phone) : (phone.withImported u fold computer).appRules = phone.appRules := by
  have hmap : (phone.appRules.map fun it =>
      if it.writingProfile.any (· ∈ (phone.withImported u fold computer).profileIds) then it
      else { it with writingProfile := none }) = phone.appRules := by
    refine (List.map_congr_left fun it hit => ?_).trans (List.map_id _)
    obtain ⟨hprofile, -⟩ := h.rules it hit
    split
    · rfl
    · rename_i hnone
      cases hsome : it.writingProfile with
      | none => rw [← hsome]; rfl
      | some profile =>
        refine absurd ((Option.any_eq_true ..).mpr ⟨profile, hsome, ?_⟩) hnone
        exact decide_eq_true (mem_profileIds_withImported (hprofile profile hsome))
  show List.filter _ (phone.appRules.map fun it =>
      if it.writingProfile.any (· ∈ (phone.withImported u fold computer).profileIds) then it
      else { it with writingProfile := none }) = _
  rw [hmap]
  refine List.filter_eq_self.mpr fun it hit => ?_
  rw [Bool.or_eq_true]
  exact (h.rules it hit).2

theorem Loaded.defaultWritingProfile (h : Loaded u fold phone) :
    (phone.withImported u fold computer).defaultWritingProfile = phone.defaultWritingProfile :=
  if_pos (mem_profileIds_withImported h.fallback)

/-- **A phone's settings stay as they are loaded.** -/
theorem Loaded.withImported (h : Loaded u fold phone) (h' : Apart u computer) :
    Loaded u fold (phone.withImported u fold computer) where
  vocabulary := by
    refine normalizedVocabulary_map_confined ?_
    exact normalizedVocabulary_normalizedVocabulary
  phrases := nodup_mergedBy keepsKey_importedReplacement h.phrases h'.phrases
  profiles := by
    rw [profileIds_withImported]
    exact nodup_mergedBy keepsKey_second h.profiles h'.profiles
  tones := nodup_mergedBy keepsKey_second h.tones h'.tones
  levels := nodup_mergedBy keepsKey_second h.levels h'.levels
  choices it hit := by
    obtain ⟨it, -, rfl⟩ := List.mem_map.mp hit
    exact it.2.withoutDeleted_withoutDeleted ..
  rules it hit := by
    rw [h.appRules] at hit
    obtain ⟨hprofile, hany⟩ := h.rules it hit
    exact ⟨fun profile hmem => mem_profileIds_withImported (hprofile profile hmem), hany⟩
  fallback := by
    rw [h.defaultWritingProfile]
    exact mem_profileIds_withImported h.fallback
  words word hword profile hprofile := by
    obtain ⟨word, -, rfl⟩ := List.mem_map.mp hword
    exact (Finset.mem_filter.mp hprofile).2

/-- **The lists are merges.** -/
theorem Loaded.merges (h : Loaded u fold phone) (h' : Apart u computer) :
    Merges u fold phone computer (phone.withImported u fold computer) where
  vocabulary := by
    obtain ⟨-, hunique⟩ := tidy_normalizedVocabulary fold computer.vocabulary
    refine (mergeOf_mergedBy keepsKey_importedWord ((unique_iff_nodup fold).mp hunique)
      (·.confined (phone.withImported u fold computer).profileIds) (fun _ => rfl)
      fun word hword => ?_).perm ((h.vocabulary_perm computer).symm.map _)
    refine VocabularyWord.confined_of_subset fun profile hprofile => ?_
    exact mem_profileIds_withImported (h.words word hword profile hprofile)
  words word hword hterm := by
    have hmem : foldCase fold (simplified word.term) ∈
        (normalizedVocabulary fold computer.vocabulary).map (termKey fold) :=
      mem_terms_normalizedVocabulary.mpr ⟨word, hword, hterm, rfl⟩
    show _ ∈ (List.map _ (normalizedVocabulary fold _)).map (termKey fold)
    rw [List.map_map, ((h.vocabulary_perm computer).map _).mem_iff]
    exact (mem_keys_mergedBy keepsKey_importedWord).mpr (.inr hmem)
  replacements := by
    have hmerge := mergeOf_mergedBy keepsKey_importedReplacement h'.phrases id (fun _ => rfl) fun it (_ : it ∈ phone.replacements) => rfl
    rwa [List.map_id] at hmerge
  writingProfiles := by
    refine mergeOf_mergedBy keepsKey_second h'.profiles _ (fun _ => rfl) fun it hit => ?_
    refine Prod.ext rfl ?_
    refine it.2.withoutDeleted_of_subset _ _ (fun tone htone => ?_) (fun level hlevel => ?_) (h.choices it hit)
    · exact (mem_keys_mergedBy keepsKey_second).mpr (.inl (List.mem_map_of_mem htone))
    · exact (mem_keys_mergedBy keepsKey_second).mpr (.inl (List.mem_map_of_mem hlevel))
  customTones := by
    have hmerge := mergeOf_mergedBy keepsKey_second h'.tones id (fun _ => rfl) fun it (_ : it ∈ phone.customTones) => rfl
    rwa [List.map_id] at hmerge
  customCleanupLevels := by
    have hmerge := mergeOf_mergedBy keepsKey_second h'.levels id (fun _ => rfl) fun it (_ : it ∈ phone.customCleanupLevels) => rfl
    rwa [List.map_id] at hmerge

/-! ## Importing again -/

theorem customTones_again (h' : Apart u computer) :
    ((phone.withImported u fold computer).withImported u fold computer).customTones =
      (phone.withImported u fold computer).customTones := by
  have hagain := map_mergedBy_again keepsKey_second h'.tones id (fun _ => rfl) (fun _ => rfl) (fun _ _ _ => rfl)
    (fun _ => rfl) (.refl (mergedBy CustomTone.id (fun _ it => it) phone.customTones computer.customTones))
  rwa [List.map_id, List.map_id] at hagain

theorem customCleanupLevels_again (h' : Apart u computer) :
    ((phone.withImported u fold computer).withImported u fold computer).customCleanupLevels =
      (phone.withImported u fold computer).customCleanupLevels := by
  have hagain := map_mergedBy_again keepsKey_second h'.levels id (fun _ => rfl) (fun _ => rfl) (fun _ _ _ => rfl)
    (fun _ => rfl) (.refl (mergedBy CustomCleanupLevel.id (fun _ it => it) phone.customCleanupLevels
      computer.customCleanupLevels))
  rwa [List.map_id, List.map_id] at hagain

theorem replacements_again (h' : Apart u computer) :
    ((phone.withImported u fold computer).withImported u fold computer).replacements =
      (phone.withImported u fold computer).replacements := by
  have hagain := map_mergedBy_again keepsKey_importedReplacement h'.phrases id (fun _ => rfl) (fun _ => rfl)
    (fun _ _ _ => rfl) (fun _ => rfl)
    (.refl (mergedBy (phraseKey u) importedReplacement phone.replacements computer.replacements))
  rwa [List.map_id, List.map_id] at hagain

theorem writingProfiles_again (h' : Apart u computer) :
    ((phone.withImported u fold computer).withImported u fold computer).writingProfiles =
      (phone.withImported u fold computer).writingProfiles := by
  show List.map (fun it : Text × WritingProfileSettings => (it.1, it.2.withoutDeleted
    ((phone.withImported u fold computer).withImported u fold computer).customTones
    ((phone.withImported u fold computer).withImported u fold computer).customCleanupLevels)) _ = _
  rw [customTones_again h', customCleanupLevels_again h']
  refine map_mergedBy_again keepsKey_second h'.profiles (fun it => (it.1, it.2.withoutDeleted
    (phone.withImported u fold computer).customTones (phone.withImported u fold computer).customCleanupLevels))
    (fun _ => rfl) (fun it => ?_) (fun _ _ _ => rfl) (fun _ => rfl)
    (.refl (mergedBy Prod.fst (fun _ it => it) phone.writingProfiles computer.writingProfiles))
  exact Prod.ext rfl (it.2.withoutDeleted_withoutDeleted ..)

theorem profileIds_again (h' : Apart u computer) :
    ((phone.withImported u fold computer).withImported u fold computer).profileIds =
      (phone.withImported u fold computer).profileIds :=
  congrArg (List.map Prod.fst) (writingProfiles_again h')

/-- The merged words are in order already: limiting them to the profiles there are, which is all there is to change,
does not move them. -/
theorem Loaded.vocabulary_again (h : Loaded u fold phone) (h' : Apart u computer) :
    ((phone.withImported u fold computer).withImported u fold computer).vocabulary =
      (phone.withImported u fold computer).vocabulary := by
  have hmerged := h.withImported h'
  obtain ⟨htidied, hunique⟩ := hmerged.mergedWords computer
  obtain ⟨-, hunique'⟩ := tidy_normalizedVocabulary fold computer.vocabulary
  have hconfined := map_mergedBy_again keepsKey_importedWord ((unique_iff_nodup fold).mp hunique')
    (·.confined (phone.withImported u fold computer).profileIds) (fun _ => rfl)
    (fun _ => VocabularyWord.confined_confined) (fun item it _ => by simp [importedWord, VocabularyWord.confined])
    (fun it => by simp [importedWord, VocabularyWord.confined]) (h.vocabulary_perm computer)
  have hsorted := hmerged.vocabulary ▸
    pairwise_normalizedVocabulary fold (phone.withImported u fold computer).vocabulary
  show (normalizedVocabulary fold (mergedBy (termKey fold) importedWord (phone.withImported u fold computer).vocabulary
    (normalizedVocabulary fold computer.vocabulary))).map (·.confined
      ((phone.withImported u fold computer).withImported u fold computer).profileIds) = _
  rw [profileIds_again h', normalizedVocabulary_of_apart htidied hunique, List.Pairwise.insertionSort_eq]
  · exact hconfined
  · change (mergedBy (termKey fold) importedWord (phone.withImported u fold computer).vocabulary _).map _ =
      (phone.withImported u fold computer).vocabulary at hconfined
    rw [← hconfined, List.pairwise_map] at hsorted
    exact hsorted.imp id

/-- **Importing the same settings again changes nothing.** -/
theorem Loaded.withImported_again (h : Loaded u fold phone) (h' : Apart u computer) :
    (phone.withImported u fold computer).withImported u fold computer = phone.withImported u fold computer := by
  have hmerged := h.withImported h'
  have hinstructions : ((phone.withImported u fold computer).withImported u fold computer).additionalInstructions =
      (phone.withImported u fold computer).additionalInstructions := by
    show (if computer.additionalInstructions.isEmpty then _ else _) = _
    split
    · rfl
    · exact (if_neg ‹_›).symm
  exact SpeecherSettings.ext (h.vocabulary_again h') (replacements_again h') hmerged.defaultWritingProfile
    (writingProfiles_again h') hmerged.appRules hinstructions (customTones_again h') (customCleanupLevels_again h')

/-! ## The preview -/

/-- **The preview says so exactly when nothing but counts, sources and order changes.** -/
theorem Loaded.changesNothing_iff (h : Loaded u fold phone) (h' : Apart u computer) :
    (importPreview u fold phone computer).changesNothing = true ↔
      SameButCounts phone (phone.withImported u fold computer) := by
  have hmerged := h.withImported h'
  have hmerges := h.merges h'
  have hterm : ∀ a b : VocabularyWord, a.setting = b.setting → termKey fold a = termKey fold b := fun a b heq =>
    congrArg (foldCase fold) (VocabularyWord.mk.inj heq).1
  have hvocabulary := changes_isEmpty_iff VocabularyWord.term VocabularyWord.setting hterm
    ((unique_iff_nodup fold).mp (h.vocabulary ▸ tidy_normalizedVocabulary fold phone.vocabulary).2)
    ((unique_iff_nodup fold).mp (hmerged.vocabulary ▸ tidy_normalizedVocabulary fold _).2) hmerges.vocabulary.keeps
  have hreplacements := changes_isEmpty_iff Replacement.phrase id
    (fun _ _ heq => congrArg (phraseKey u) heq) h.phrases hmerged.phrases hmerges.replacements.keeps
  have hprofiles := changes_isEmpty_iff Prod.fst id
    (fun _ _ heq => congrArg Prod.fst heq) h.profiles hmerged.profiles hmerges.writingProfiles.keeps
  have htones := changes_isEmpty_iff CustomTone.name id
    (fun _ _ heq => congrArg CustomTone.id heq) h.tones hmerged.tones hmerges.customTones.keeps
  have hlevels := changes_isEmpty_iff CustomCleanupLevel.name id
    (fun _ _ heq => congrArg CustomCleanupLevel.id heq) h.levels hmerged.levels hmerges.customCleanupLevels.keeps
  simp only [List.map_id] at hreplacements hprofiles htones hlevels
  have hinstructions : (importPreview u fold phone computer).additionalInstructions.isNone = true ↔
      (phone.withImported u fold computer).additionalInstructions = phone.additionalInstructions := by
    show Option.isNone (if _ then _ else _) = true ↔ _
    split
    · exact iff_of_false Bool.false_ne_true ‹_›
    · exact iff_of_true rfl (not_not.mp ‹_›)
  rw [ImportPreview.changesNothing, Bool.and_eq_true, Bool.and_eq_true, Bool.and_eq_true, Bool.and_eq_true, hinstructions]
  change (((_ ∧ _) ∧ _) ∧ (Changes.mk (_ ++ _) (_ ++ _)).isEmpty = true) ∧ _ ↔ _
  rw [Changes.isEmpty_append]
  constructor
  · rintro ⟨⟨⟨⟨hv, hr⟩, hp⟩, ht, hl⟩, hi⟩
    exact ⟨hvocabulary.mp hv, hreplacements.mp hr, hprofiles.mp hp, htones.mp ht, hlevels.mp hl,
      h.appRules ▸ .refl _, h.defaultWritingProfile, hi⟩
  · intro hsame
    exact ⟨⟨⟨⟨hvocabulary.mpr hsame.vocabulary, hreplacements.mpr hsame.replacements⟩,
      hprofiles.mpr hsame.writingProfiles⟩, htones.mpr hsame.customTones, hlevels.mpr hsame.customCleanupLevels⟩,
      hsame.additionalInstructions⟩

/-! ## Merging -/

/-- **Importing merges**: each list is a merge of the two sides', importing again changes nothing, and the preview says
that nothing changes exactly when nothing but use counts, sources and order does. -/
theorem withImported_merges (h : Loaded u fold phone) (h' : Apart u computer) :
    Merges u fold phone computer (phone.withImported u fold computer) ∧
    (phone.withImported u fold computer).withImported u fold computer = phone.withImported u fold computer ∧
    ((importPreview u fold phone computer).changesNothing = true ↔
      SameButCounts phone (phone.withImported u fold computer)) :=
  ⟨h.merges h', h.withImported_again h', h.changesNothing_iff h'⟩

/-- A phone nothing is set up on. -/
def freshPhone : SpeecherSettings where
  vocabulary := []
  replacements := []
  defaultWritingProfile := WritingProfile.other
  writingProfiles := builtInProfileLabels.map fun it => (it.1, .default)
  appRules := []
  additionalInstructions := []
  customTones := []
  customCleanupLevels := []

/-- A phone with a word, a replacement and a tone that a profile uses. -/
def knownPhone : SpeecherSettings :=
  { freshPhone with
    vocabulary := [⟨"Anna".toList, "a colleague".toList, [WritingProfile.work].toFinset, true, false, "learned".toList, 7, 100⟩]
    replacements := [⟨"my sig".toList, "Best".toList⟩]
    writingProfiles :=
      (WritingProfile.work, WritingProfileSettings.default.withTone "warm".toList) ::
        freshPhone.writingProfiles.tail
    customTones := [⟨"warm".toList, "Warm".toList, "Be kind.".toList⟩] }

/-- A computer that has these too, and others. -/
def computerOfOwn : ComputerSettings where
  computer := "desk".toList
  vocabulary :=
    [⟨"anna".toList, "the boss".toList, ∅, true, true, "manual".toList, 3, 200⟩,
      ⟨"Qt".toList, [], ["gone".toList].toFinset, true, false, "manual".toList, 0, 0⟩]
  replacements := [⟨"My sig".toList, "Regards".toList⟩, ⟨"my street".toList, "1 Main St".toList⟩]
  writingProfiles := [(WritingProfile.work, WritingProfileSettings.default.withTone "lost".toList)]
  customTones := [⟨"cold".toList, "Cold".toList, "Be brief.".toList⟩]
  customCleanupLevels := []
  additionalInstructions := []

/-- A computer with two replacements of a phrase. -/
def computerOfTwo : ComputerSettings :=
  { computerOfOwn with
    vocabulary := []
    replacements := [⟨"my sig".toList, "Best".toList⟩, ⟨"My sig".toList, "Regards".toList⟩]
    writingProfiles := []
    customTones := [] }

theorem loaded_knownPhone : Loaded Unicode.basic CaseFolding.ascii knownPhone :=
  ⟨by decide, by decide, by decide, by decide, by decide, by decide,
    by decide, by decide, by decide⟩

theorem apart_computerOfOwn : Apart Unicode.basic computerOfOwn :=
  ⟨by decide, by decide, by decide, by decide⟩

/-- A phone and a computer that have a word, a replacement and a profile in common, whose profile uses a tone that neither
has. -/
theorem withImported_merges_own : ((knownPhone.withImported Unicode.basic .ascii computerOfOwn).withImported
      Unicode.basic .ascii computerOfOwn = knownPhone.withImported Unicode.basic .ascii computerOfOwn) ∧
    (importPreview Unicode.basic .ascii knownPhone computerOfOwn).changesNothing = false := by
  refine ⟨(withImported_merges loaded_knownPhone apart_computerOfOwn).2.1, ?_⟩
  decide

/-- The second import takes the last replacement of a phrase for both. -/
theorem withImported_twice :
    (freshPhone.withImported Unicode.basic .ascii computerOfTwo).replacements.map Replacement.text =
      ["Best".toList, "Regards".toList] ∧
    ((freshPhone.withImported Unicode.basic .ascii computerOfTwo).withImported
      Unicode.basic .ascii computerOfTwo).replacements.map Replacement.text = ["Regards".toList, "Regards".toList] := by
  decide

end Speecher.Android
