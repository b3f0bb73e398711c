import Speecher.Settings.GivenIds

/-!
# The names the command line gives profiles, tones and cleanup levels

A tone and a cleanup level go by their stored id, without `custom_` and with hyphens; a profile by its own
name, with hyphens between words, or by its id where another profile has that name too or it looks like an
option. `completions --list` prints those names, and `--profile`, `--tone` and `--cleanup` take them in any
case.

* `names_taken`: in all settings pages can make, every name printed is taken, and for its thing alone.
-/

namespace Speecher.CommandLine

open SettingsCodecs

variable (lower : AsciiLowerCase)

/-! ## Tones and cleanup levels -/

/-- Each stored id and the name the command line gives it. -/
abbrev CliNames := List (Text × Text)

/-- The cleanup levels the command line names by how much they change. -/
def kCleanupCliNames : CliNames :=
  [("light_cleanup".toList, "light".toList), ("balanced".toList, "medium".toList),
    ("strong_polish".toList, "high".toList)]

/-- An id without `custom_`, and with hyphens. -/
def cliName (id : Text) : Text :=
  (if kCustomIdPrefix.isPrefixOf id then id.drop kCustomIdPrefix.length else id).map fun c => if c = '_' then '-' else c

/-- The built-in ids, then those the settings hold, each with its name unless `renamed` says otherwise. -/
def cliNamesFor {α : Type} (builtIn : List Text) (custom : List α) (idOf : α → Text) (renamed : CliNames) : CliNames :=
  (builtIn.map fun id => (id, (renamed.lookup id).getD (cliName id))) ++
    (custom.filter fun choice => kCustomIdPrefix.isPrefixOf (idOf choice)).map fun choice =>
      (idOf choice, cliName (idOf choice))

def cleanupNames (file : SettingsFile) : CliNames :=
  cliNamesFor kBuiltInCleanupLevels (customCleanupLevels file) CustomCleanupLevel.id kCleanupCliNames

def toneNames (file : SettingsFile) : CliNames := cliNamesFor kBuiltInTones (customTones file) CustomTone.id []

def cliNames (choices : CliNames) : List Text := choices.map Prod.snd

/-- The stored id for a name, or nothing for one that is not offered. -/
def storedId (choices : CliNames) (name : Text) : Option Text :=
  (choices.find? fun choice => choice.2 = lower.text name).map Prod.fst

/-! ## Writing profiles -/

/-- A profile as the command line names it. -/
structure NamedProfile where
  id : Text
  label : Text
  deriving DecidableEq

/-- The built-in profiles, then those the settings hold. -/
def writingProfiles (file : SettingsFile) : List NamedProfile :=
  (defaultWritingProfileSettings.map fun builtIn => ⟨builtIn.profile, writingProfileLabel builtIn.profile []⟩) ++
    ((writingProfileSettings lower.toLowerCase file).filter (!isBuiltInWritingProfile ·.profile)).map fun profile =>
      ⟨profile.profile, profile.name⟩

/-- The profiles' names as an error lists them; one with a space is quoted. -/
def writingProfileNames (profiles : List NamedProfile) : Text :=
  ", ".toList.intercalate (profiles.map fun profile =>
    if ' ' ∈ profile.label then '"' :: profile.label ++ ['"'] else profile.label)

/-- A profile's name with its words joined by hyphens. -/
def writingProfileCliName (label : Text) : Text := (simplified label).map fun c => if c = ' ' then '-' else c

/-- The profile goes by the name, or by the name with hyphens. -/
def NamedProfile.isNamed (profile : NamedProfile) (wanted : Text) : Bool :=
  let name := lower.text (simplified profile.label)
  !name.isEmpty && (wanted = name || wanted = writingProfileCliName name)

/-- The profiles a value names by their current name, in any case. -/
def writingProfilesNamed (profiles : List NamedProfile) (value : Text) : List NamedProfile :=
  profiles.filter (·.isNamed lower (lower.text (trimmed value)))

def NamedProfile.described (profile : NamedProfile) : Text :=
  profile.label ++ " (".toList ++ (if isBuiltInWritingProfile profile.id then "built-in".toList else "custom".toList) ++
    [')']

/-- The id of the profile a value names: a profile's name, failing that an exact id. -/
def writingProfileNamed (file : SettingsFile) (value : Text) : Except Text Text :=
  let profiles := writingProfiles lower file
  match writingProfilesNamed lower profiles value with
  | [profile] => .ok profile.id
  | [] =>
    match profiles.find? (·.id = value) with
    | some profile => .ok profile.id
    | none =>
      .error ("Unknown writing profile: ".toList ++ value ++ " (expected ".toList ++ writingProfileNames profiles ++
        [')'])
  | found =>
    .error ("Writing profile ".toList ++ value ++ " matches more than one profile: ".toList ++
      ", ".toList.intercalate (found.map NamedProfile.described) ++ ". Rename one of them.".toList)

/-- The name offered for a profile, one that `--profile` takes for it alone: its name, or its id where
another profile has that name too or it starts like an option. -/
def writingProfileCompletion (profiles : List NamedProfile) (profile : NamedProfile) : Option Text :=
  let name := writingProfileCliName profile.label
  if name.isEmpty then none
  else if name.head? ≠ some '-' && (writingProfilesNamed lower profiles name).length = 1 then some name
  else if (writingProfilesNamed lower profiles profile.id).isEmpty then some profile.id
  else none

def writingProfileCompletions (file : SettingsFile) : List Text :=
  (writingProfiles lower file).filterMap (writingProfileCompletion lower (writingProfiles lower file))

/-- The names `completions --list` prints, or nothing for another list. -/
def completionList (file : SettingsFile) (list : Text) : Option (List Text) :=
  if list = "profiles".toList then some (writingProfileCompletions lower file)
  else if list = "tones".toList then some (cliNames (toneNames file))
  else if list = "cleanup".toList then some (cliNames (cleanupNames file))
  else none

/-! ## A profile's own name -/

/-- A name on the command line is the words of the name, hyphens between them. -/
theorem cliName_eq (label : Text) : writingProfileCliName label = ['-'].intercalate (wordsOf label) := by
  have hword : ∀ word ∈ wordsOf label, word.flatMap (fun c => [if c = ' ' then '-' else c]) = word := by
    intro word hword
    refine (List.flatMap_congr (g := fun c => [c]) fun c hc => ?_).trans (List.flatMap_singleton' word)
    refine congrArg (fun d => [d]) (if_neg fun hspace => ?_)
    have := (isWord_of_mem_wordsOf hword).2 c hc
    rw [hspace] at this
    cases this
  rw [writingProfileCliName, List.map_eq_flatMap, simplified, joinWords, flatMap_intercalate]
  exact congrArg _ ((List.map_congr_left hword).trans (List.map_id _))

theorem isWord_lower {word : Text} (h : IsWord word) : IsWord (lower.text word) := by
  refine ⟨fun hnil => h.1 ?_, fun d hd => ?_⟩
  · by_contra hne
    obtain ⟨c, rest, rfl⟩ := List.exists_cons_of_ne_nil hne
    rw [LowerCase.text, List.flatMap_cons, List.append_eq_nil_iff] at hnil
    exact lower.ne_nil c hnil.1
  · obtain ⟨c, hc, hd⟩ := List.mem_flatMap.mp hd
    rw [lower.space c d hd, h.2 c hc]

/-- The words of a name in lower case. -/
theorem wordsOf_lower (label : Text) : wordsOf (lower.text (simplified label)) = (wordsOf label).map lower.text := by
  have hspace : [' '].flatMap lower.char = [' '] := by
    rw [List.flatMap_singleton]
    exact lower.kept ' ' (by decide) (by decide)
  have hjoin : lower.text (simplified label) = joinWords ((wordsOf label).map lower.text) := by
    rw [simplified, joinWords, LowerCase.text, flatMap_intercalate, hspace]
    rfl
  rw [hjoin]
  refine splitOnP_joinWords _ fun word hword => ?_
  obtain ⟨word, hmem, rfl⟩ := List.mem_map.mp hword
  exact isWord_lower lower (isWord_of_mem_wordsOf hmem)

/-- Lower case and hyphens come in any order. -/
theorem cliName_lower (label : Text) :
    writingProfileCliName (lower.text (simplified label)) = lower.text (writingProfileCliName label) := by
  have hhyphen : ['-'].flatMap lower.char = ['-'] := by
    rw [List.flatMap_singleton]
    exact lower.kept '-' (by decide) (by decide)
  rw [cliName_eq, cliName_eq, wordsOf_lower, LowerCase.text, flatMap_intercalate, hhyphen]
  rfl

theorem cliName_eq_nil_iff {label : Text} : writingProfileCliName label = [] ↔ trimmed label = [] := by
  rw [writingProfileCliName, List.map_eq_nil_iff, simplified_eq_nil_iff, wordsOf_eq_nil_iff]

/-- A name on the command line has no white space. -/
theorem isSpace_cliName {label : Text} {c : Char} (h : c ∈ writingProfileCliName label) : isSpace c = false := by
  rw [cliName_eq] at h
  rcases mem_of_mem_intercalate h with hmem | ⟨word, hword, hc⟩
  · rw [List.mem_singleton.mp hmem]
    rfl
  · exact (isWord_of_mem_wordsOf hword).2 c hc

theorem trimmed_of_noSpace {text : Text} (h : ∀ c ∈ text, isSpace c = false) : trimmed text = text :=
  trimmed_eq_self (fun c hc => h c (List.mem_of_mem_head? hc)) fun c hc => h c (List.mem_of_getLast? hc)

/-- A profile goes by its own name, hyphens between its words. -/
theorem isNamed_self {profile : NamedProfile} (h : writingProfileCliName profile.label ≠ []) :
    profile.isNamed lower (lower.text (trimmed (writingProfileCliName profile.label))) = true := by
  have hne : lower.text (simplified profile.label) ≠ [] := by
    intro hnil
    have hwords := wordsOf_lower lower profile.label
    rw [hnil] at hwords
    refine h ?_
    rw [cliName_eq, List.map_eq_nil_iff.mp hwords.symm]
    rfl
  rw [trimmed_of_noSpace fun c hc => isSpace_cliName hc, NamedProfile.isNamed, cliName_lower]
  simp [hne]

/-! ## The names of profiles -/

variable {lower} {file : SettingsFile}

/-- The one profile of a list that goes by a name. -/
theorem named_eq {profiles : List NamedProfile} {profile : NamedProfile} {value : Text} (hmem : profile ∈ profiles)
    (hnamed : profile.isNamed lower (lower.text (trimmed value)) = true)
    (hone : (writingProfilesNamed lower profiles value).length = 1) :
    writingProfilesNamed lower profiles value = [profile] := by
  obtain ⟨found, hfound⟩ := List.length_eq_one_iff.mp hone
  have hself : profile ∈ writingProfilesNamed lower profiles value := List.mem_filter.mpr ⟨hmem, hnamed⟩
  rw [hfound, List.mem_singleton] at hself
  rw [hfound, hself]

/-- The entry found by a key that no two entries have. -/
theorem find?_key {α : Type} {list : List α} {key : α → Text} (h : (list.map key).Nodup) {entry : α}
    (hmem : entry ∈ list) : list.find? (key · = key entry) = some entry := by
  obtain ⟨found, hfound⟩ := Option.isSome_iff_exists.mp
    (List.find?_isSome.mpr ⟨entry, hmem, decide_eq_true rfl⟩ : (list.find? (key · = key entry)).isSome = true)
  have hkey : key found = key entry := by simpa using List.find?_some hfound
  rw [hfound, List.inj_on_of_nodup_map h (List.mem_of_find?_eq_some hfound) hmem hkey]

theorem map_filterMap_sublist {α β γ : Type} {f : α → Option β} {g : β → γ} {k : α → γ} : ∀ {list : List α},
    (∀ a ∈ list, ∀ b, f a = some b → g b = k a) → ((list.filterMap f).map g).Sublist (list.map k)
  | [], _ => .slnil
  | a :: list, h => by
    have ih : ((list.filterMap f).map g).Sublist (list.map k) :=
      map_filterMap_sublist fun b hb => h b (List.mem_cons_of_mem a hb)
    cases hfound : f a with
    | none =>
      rw [List.filterMap_cons_none hfound, List.map_cons]
      exact ih.cons (k a)
    | some b =>
      rw [List.filterMap_cons_some hfound, List.map_cons, List.map_cons, h a List.mem_cons_self b hfound]
      exact ih.cons_cons (k a)

/-- What is offered for a profile is taken for it. -/
theorem named_completion (hids : ((writingProfiles lower file).map NamedProfile.id).Nodup) {profile : NamedProfile}
    (hmem : profile ∈ writingProfiles lower file) {name : Text}
    (hname : writingProfileCompletion lower (writingProfiles lower file) profile = some name) :
    writingProfileNamed lower file name = .ok profile.id := by
  unfold writingProfileCompletion at hname
  dsimp only at hname
  split_ifs at hname with hnil hone hnone
  · obtain rfl := Option.some.inj hname
    rw [Bool.and_eq_true, decide_eq_true_eq, decide_eq_true_eq] at hone
    rw [writingProfileNamed, named_eq hmem (isNamed_self lower (by simpa using hnil)) hone.2]
  · obtain rfl := Option.some.inj hname
    rw [List.isEmpty_iff] at hnone
    rw [writingProfileNamed, hnone]
    dsimp only
    rw [find?_key hids hmem]

/-- A profile with a name gets one offered, unless another goes by its id. -/
theorem isSome_completion {profiles : List NamedProfile} {profile : NamedProfile} (hlabel : trimmed profile.label ≠ [])
    (hid : writingProfilesNamed lower profiles profile.id = []) :
    (writingProfileCompletion lower profiles profile).isSome = true := by
  have hname : writingProfileCliName profile.label ≠ [] := fun h => hlabel (cliName_eq_nil_iff.mp h)
  unfold writingProfileCompletion
  dsimp only
  rw [if_neg (by simpa using hname), hid, List.isEmpty_nil, if_pos rfl]
  split_ifs <;> rfl

/-! ## The ids of profiles -/

variable (lower file) in
/-- The profiles a file gives are built in or the user's. -/
theorem profile_cases {profile : WritingProfileSettings}
    (h : profile ∈ writingProfileSettings lower.toLowerCase file) :
    isBuiltInWritingProfile profile.profile = true ∨ kCustomIdPrefix.isPrefixOf profile.profile = true := by
  have hdefault : ∀ profile ∈ defaultWritingProfileSettings, isBuiltInWritingProfile profile.profile = true := by
    intro profile hprofile
    obtain ⟨id, hid, rfl⟩ := List.mem_map.mp hprofile
    exact (isBuiltIn_iff_mem id).mpr hid
  unfold writingProfileSettings at h
  split at h
  · obtain ⟨profile, hmem, rfl⟩ := List.mem_map.mp h
    exact .inl (hdefault profile hmem)
  · rcases List.mem_append.mp h with hmem | hmem
    · obtain ⟨id, hid, rfl⟩ := List.mem_map.mp hmem
      refine .inl ?_
      rw [resolvedProfile]
      split_ifs with hcoding
      · rfl
      · rw [profile_settingsFor _ hid]
        exact (isBuiltIn_iff_mem id).mpr hid
    · exact .inr (List.mem_filter.mp hmem).2
  · exact .inl (hdefault profile h)

/-- The ids of the profiles the command line names. -/
theorem map_id_writingProfiles : (writingProfiles lower file).map NamedProfile.id =
    builtInProfiles ++ customIds (writingProfileSettings lower.toLowerCase file) := by
  have hcustom : (writingProfileSettings lower.toLowerCase file).filter (!isBuiltInWritingProfile ·.profile) =
      customWritingProfiles (writingProfileSettings lower.toLowerCase file) := by
    refine List.filter_congr fun profile hprofile => ?_
    rcases profile_cases lower file hprofile with hbuiltIn | hcustom
    · rw [hbuiltIn, not_custom_of_builtIn ((isBuiltIn_iff_mem _).mp hbuiltIn)]
      rfl
    · rw [hcustom, not_builtIn_of_custom hcustom]
      rfl
  rw [writingProfiles, List.map_append, hcustom, customIds_eq, List.map_map, List.map_map]
  rfl

theorem nodup_ids (h : Given profileKind (customIds (writingProfileSettings lower.toLowerCase file))) :
    ((writingProfiles lower file).map NamedProfile.id).Nodup := by
  rw [map_id_writingProfiles]
  refine List.nodup_append.mpr ⟨by decide, h.nodup, ?_⟩
  rintro id hid _ hcustom rfl
  have hprefix := (h.given id hcustom).custom isKind_profile
  rw [not_custom_of_builtIn hid] at hprefix
  cases hprefix

/-- An id has no white space. -/
theorem isSpace_id (h : Given profileKind (customIds (writingProfileSettings lower.toLowerCase file)))
    {profile : NamedProfile} (hmem : profile ∈ writingProfiles lower file) :
    (∀ c ∈ profile.id, isSpace c = false) ∧ profile.id.head? ≠ some '-' := by
  have hid : profile.id ∈ (writingProfiles lower file).map NamedProfile.id := List.mem_map_of_mem hmem
  rw [map_id_writingProfiles, List.mem_append] at hid
  rcases hid with hid | hid
  · have hplain := plain_of_builtIn ((isBuiltIn_iff_mem _).mpr hid)
    refine ⟨fun c hc => isSpace_of_plain (hplain.2 c hc), fun hhead => ?_⟩
    rcases hplain.2 '-' (List.mem_of_mem_head? hhead) with h | h <;> revert h <;> decide
  · have hgiven := h.given _ hid
    refine ⟨hgiven.space isKind_profile, fun hhead => ?_⟩
    rcases hgiven.char isKind_profile '-' (List.mem_of_mem_head? hhead) with (h | h) | h <;> revert h <;> decide

/-! ## The names of tones and levels -/

/-- The name of an id a page gave. -/
theorem cliName_given {kind id : Text} (hkind : IsKind kind) (h : GivenId kind id) : ∃ digits : Text,
    digits.length = randomIdLength ∧ (∀ c ∈ digits, IsIdDigit c) ∧ id = kind ++ '_' :: digits ∧
      cliName id = (kind.drop kCustomIdPrefix.length).map (fun c => if c = '_' then '-' else c) ++ '-' :: digits := by
  obtain ⟨digits, hlength, hdigits, rfl⟩ := exists_digits h
  refine ⟨digits, hlength, hdigits, rfl, ?_⟩
  have hdigit : digits.map (fun c => if c = '_' then '-' else c) = digits := by
    refine (List.map_congr_left fun c hc => if_neg ?_).trans (List.map_id digits)
    rintro rfl
    have := hdigits _ hc
    revert this
    decide
  rw [cliName, if_pos (h.custom hkind), List.drop_append_of_le_length hkind.1.length_le, List.map_append, List.map_cons,
    hdigit]
  rfl

variable (lower) in
/-- Each id has a name of its own, which is taken for it in any case. -/
structure Named (choices : CliNames) (ids : List Text) : Prop where
  ids : choices.map Prod.fst = ids
  nodup : (cliNames choices).Nodup
  taken : ∀ choice ∈ choices, ∀ typed, lower.text typed = lower.text choice.2 →
    storedId lower choices typed = some choice.1

/-- Built-in names that are small, short and apart, and given ids. -/
theorem named_cliNamesFor {α : Type} {builtIn : List Text} {custom : List α} {idOf : α → Text} {renamed : CliNames}
    {kind : Text} (hkind : IsKind kind) (hcustom : Given kind (custom.map idOf))
    (hnodup : (builtIn.map fun id => (renamed.lookup id).getD (cliName id)).Nodup)
    (hbuiltIn : (builtIn.map fun id => (renamed.lookup id).getD (cliName id)).all (fun name =>
      name.all (fun c => c.toNat < 128 && !c.isUpper) && name.length < kind.length + 2) = true) :
    Named lower (cliNamesFor builtIn custom idOf renamed) (builtIn ++ custom.map idOf) := by
  have hsmall : ∀ name ∈ builtIn.map (fun id => (renamed.lookup id).getD (cliName id)),
      (∀ c ∈ name, c.toNat < 128 ∧ c.isUpper = false) ∧ name.length < kind.length + 2 := by
    intro name hname
    simpa using List.all_eq_true.mp hbuiltIn name hname
  have hfilter : custom.filter (fun choice => kCustomIdPrefix.isPrefixOf (idOf choice)) = custom :=
    List.filter_eq_self.mpr fun choice hchoice => (hcustom.given _ (List.mem_map_of_mem hchoice)).custom hkind
  have hnames : cliNames (cliNamesFor builtIn custom idOf renamed) =
      (builtIn.map fun id => (renamed.lookup id).getD (cliName id)) ++ (custom.map idOf).map cliName := by
    rw [cliNames, cliNamesFor, hfilter, List.map_append, List.map_map, List.map_map, List.map_map]
    rfl
  have hgiven : ∀ name ∈ (custom.map idOf).map cliName,
      (∀ c ∈ name, c.toNat < 128 ∧ c.isUpper = false) ∧ name.length = kind.length + 2 := by
    intro name hname
    obtain ⟨id, hid, rfl⟩ := List.mem_map.mp hname
    obtain ⟨digits, hlength, hdigits, -, heq⟩ := cliName_given hkind (hcustom.given id hid)
    have hprefix := hkind.1.length_le
    have hseven : kCustomIdPrefix.length = 7 := rfl
    rw [heq]
    refine ⟨fun c hc => ?_, ?_⟩
    · rcases List.mem_append.mp hc with hc | hc
      · obtain ⟨d, hd, rfl⟩ := List.mem_map.mp hc
        split_ifs
        · exact ⟨by decide, by decide⟩
        · exact ascii_of_plain (.inl (hkind.2.2 d (List.mem_of_mem_drop hd)))
      · rcases List.mem_cons.mp hc with rfl | hc
        · exact ⟨by decide, by decide⟩
        · exact ascii_of_plain (.inr (hdigits c hc))
    · rw [List.length_append, List.length_map, List.length_drop, List.length_cons, hlength, randomIdLength]
      omega
  have happart : (cliNames (cliNamesFor builtIn custom idOf renamed)).Nodup := by
    rw [hnames]
    refine List.nodup_append.mpr ⟨hnodup, hcustom.nodup.map_on fun left hleft right hright heq => ?_, ?_⟩
    · obtain ⟨digits, -, -, hid, hname⟩ := cliName_given hkind (hcustom.given left hleft)
      obtain ⟨digits', -, -, hid', hname'⟩ := cliName_given hkind (hcustom.given right hright)
      rw [hname, hname', List.append_cancel_left_eq, List.cons_inj_right] at heq
      rw [hid, hid', heq]
    · rintro name hmem _ hname rfl
      exact absurd (hgiven name hname).2 (hsmall name hmem).2.ne
  refine ⟨?_, happart, fun choice hchoice typed htyped => ?_⟩
  · rw [cliNamesFor, hfilter, List.map_append, List.map_map, List.map_map]
    exact congrArg (· ++ _) (List.map_id builtIn)
  · have hname : choice.2 ∈ cliNames (cliNamesFor builtIn custom idOf renamed) := List.mem_map_of_mem hchoice
    have hlower : lower.text choice.2 = choice.2 := by
      rw [hnames, List.mem_append] at hname
      exact lowered_eq_self lower (hname.elim (fun h => (hsmall _ h).1) fun h => (hgiven _ h).1)
    rw [storedId, htyped, hlower, find?_key happart hchoice]
    rfl

/-! ## All names -/

variable (lower file) in
/-- Every name the command line prints is taken, and for its thing alone. -/
structure NamesTaken : Prop where
  /-- A printed profile name is on one line, and no option. -/
  line : ∀ name ∈ writingProfileCompletions lower file, (∀ c ∈ name, isSpace c = false) ∧ name.head? ≠ some '-'
  /-- It is taken for one profile, -/
  taken : ∀ name ∈ writingProfileCompletions lower file, ∃ profile ∈ writingProfiles lower file,
    writingProfileNamed lower file name = .ok profile.id ∧
      ∀ other ∈ writingProfiles lower file, other.id = profile.id → other = profile
  /-- another name for another one, -/
  nodup : ((writingProfileCompletions lower file).map (writingProfileNamed lower file)).Nodup
  /-- and every profile with a name has one, unless another goes by its id. -/
  offered : ∀ profile ∈ writingProfiles lower file, trimmed profile.label ≠ [] →
    writingProfilesNamed lower (writingProfiles lower file) profile.id = [] →
    ∃ name ∈ writingProfileCompletions lower file, writingProfileNamed lower file name = .ok profile.id
  tones : Named lower (toneNames file) (kBuiltInTones ++ (customTones file).map CustomTone.id)
  levels : Named lower (cleanupNames file)
    (kBuiltInCleanupLevels ++ (customCleanupLevels file).map CustomCleanupLevel.id)

theorem namesTaken_of_given {u : Unicode} {fold : CaseFolding}
    (h : (snapshot lower.toLowerCase u fold file).GivenIds) : NamesTaken lower file := by
  have hprofiles : Given profileKind (customIds (writingProfileSettings lower.toLowerCase file)) := h.profiles
  have hids := nodup_ids hprofiles
  have hnamed : ∀ profile ∈ writingProfiles lower file, ∀ name,
      writingProfileCompletion lower (writingProfiles lower file) profile = some name →
      writingProfileNamed lower file name = .ok profile.id :=
    fun profile hmem name hname => named_completion hids hmem hname
  refine ⟨fun name hname => ?_, fun name hname => ?_, ?_, fun profile hmem hlabel hid => ?_, ?_, ?_⟩
  · obtain ⟨profile, hmem, hcompletion⟩ := List.mem_filterMap.mp hname
    unfold writingProfileCompletion at hcompletion
    dsimp only at hcompletion
    split_ifs at hcompletion with hnil hone hnone
    · obtain rfl := Option.some.inj hcompletion
      rw [Bool.and_eq_true, decide_eq_true_eq] at hone
      exact ⟨fun c hc => isSpace_cliName hc, hone.1⟩
    · obtain rfl := Option.some.inj hcompletion
      exact isSpace_id hprofiles hmem
  · obtain ⟨profile, hmem, hcompletion⟩ := List.mem_filterMap.mp hname
    exact ⟨profile, hmem, hnamed profile hmem name hcompletion, fun other hother heq =>
      List.inj_on_of_nodup_map hids hother hmem heq⟩
  · have hsublist : ((writingProfileCompletions lower file).map (writingProfileNamed lower file)).Sublist
        ((writingProfiles lower file).map fun profile => .ok profile.id) :=
      map_filterMap_sublist hnamed
    refine List.Nodup.sublist hsublist ?_
    have hok : (writingProfiles lower file).map (fun profile => (Except.ok profile.id : Except Text Text)) =
        ((writingProfiles lower file).map NamedProfile.id).map Except.ok := by
      rw [List.map_map]
      rfl
    rw [hok]
    exact hids.map fun _ _ heq => Except.ok.inj heq
  · obtain ⟨name, hname⟩ := Option.isSome_iff_exists.mp (isSome_completion hlabel hid)
    exact ⟨name, List.mem_filterMap.mpr ⟨profile, hmem, hname⟩, hnamed profile hmem name hname⟩
  · exact named_cliNamesFor isKind_tone h.tones (by decide) (by decide)
  · exact named_cliNamesFor isKind_level h.levels (by decide) (by decide)

/-- **Every name the command line prints is taken, and for its thing alone**, in all settings pages make of
settings whose ids they gave, whatever the profiles are called. -/
theorem names_taken (lower : AsciiLowerCase) (u : Unicode) (fold : CaseFolding) {file : SettingsFile}
    (h : (snapshot lower.toLowerCase u fold file).GivenIds) {steps : List Draft.Step}
    (hsteps : ∀ edit, .edit edit ∈ steps → edit.ByPage) :
    NamesTaken lower ((⟨file, []⟩ : Library).run lower u fold steps).file := by
  have hlibrary : Library.Given lower u fold ⟨file, []⟩ := ⟨h, fun undo hundo => absurd hundo List.not_mem_nil⟩
  exact namesTaken_of_given (givenIds_run hlibrary hsteps).file

/-- The id a page gives its first tone where the platform draws zeros. -/
def zeros : Uuid := ⟨List.replicate 32 '0', List.length_replicate, fun _ hc => List.eq_of_mem_replicate hc ▸ by decide⟩

def dryTone : CustomTone := ⟨customId toneKind zeros, "Dry".toList, "Be dry.".toList⟩

/-- Settings that hold nothing yet, and a tone added to them. -/
theorem names_taken_dryTone :
    NamesTaken .letters
      ((⟨.empty, []⟩ : Library).run .letters .basic .ascii [.edit (.addCustomTone dryTone [])]).file := by
  refine names_taken .letters .basic .ascii ⟨given_nil _, given_nil _, ?_⟩ fun edit hedit => ?_
  · exact given_nil profileKind
  · obtain rfl := Draft.Step.edit.inj (List.mem_singleton.mp hedit)
    exact ⟨[], [zeros], rfl⟩

end Speecher.CommandLine
