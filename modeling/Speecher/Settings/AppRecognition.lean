import Mathlib.Data.List.DropRight
import Speecher.Bindings.Android
import Speecher.Settings.WritingProfiles
import Speecher.Transfer.SettingsBundle

/-!
# What kind of application a dictation goes to

The desktop's `classifyTarget` and Android's `resolveRefinementContext`, its port: the user's rules name an
application's category and its writing profile, then the program's own, and a profile neither names follows from the
category. Android knows an application by its id and name alone, so the desktop is compared with it on such a target
(`knownBy`).

* `category_eq`: the category is the same.
* `recognised_alike_iff`: the profile is too, unless the user's rules make an application AI coding that the program
  knows by another profile. There the desktop lets the category decide and Android the program's rule.
-/

namespace Speecher

variable (u : Unicode) (fold : CaseFolding)

/-! ## The desktop -/

/-- A target, with what tells that it has an identity and that an AI coding tool runs in it. -/
structure RecognisedTarget extends TargetIdentity where
  processId : ℤ
  aiCodingToolActive : Bool
  deriving DecidableEq

def RecognisedTarget.hasIdentity (target : RecognisedTarget) : Bool :=
  !target.applicationId.isEmpty || 0 < target.processId || !target.applicationName.isEmpty

/-- The category of a target: the user's rules, then a coding tool seen at work, then the program's rules. -/
def classifyTarget (target : RecognisedTarget) (customRules : List AppRecognitionRule) : AppCategory :=
  match customRules.findSome? fun rule =>
      if ruleMatches u fold rule target.toTargetIdentity false false then rule.category else none with
  | some category => category
  | none =>
    if target.aiCodingToolActive then .aiCoding
    else
      match builtInAppRecognitionRules.findSome? fun rule =>
          if ruleMatches u fold rule target.toTargetIdentity false true then rule.category else none with
      | some category => category
      | none => if target.hasIdentity then .general else .unknown

/-- A target known by its id and name alone. -/
def knownBy (applicationId applicationName : Text) (processId : ℤ) : RecognisedTarget :=
  ⟨⟨applicationId, applicationName, [], [], [], .unknown⟩, processId, false⟩

/-! ## Android -/

namespace Android

/-- The desktop's built-in rules, in its order. -/
def builtInRules : List AppRecognitionRule :=
  (["t3code", "chatgpt", "codex", "cursor", "windsurf", "kiro", "zed", "opencode", "aider", "claude code", "gemini cli",
      "github copilot", "replit agent", "amazon q developer", "qwen code", "mistral vibe", "goose", "ampcode",
      "augment code", "sourcegraph cody", "cline", "roo code", "kilo code", "factory droid", "auggie", "kimi code",
      "pearai", "trae", "google antigravity", "tabnine"].map fun it =>
      ⟨it.toList, some .aiCoding, some WritingProfile.aiCoding⟩) ++
    (["terminal", "konsole", "ghostty", "alacritty", "kitty", "wezterm", "foot", "rio", "xterm", "urxvt"].map fun it =>
      ⟨it.toList, some .terminal, some WritingProfile.work⟩) ++
    (["thunderbird", "kmail", "mail"].map fun it => ⟨it.toList, some .email, some WritingProfile.email⟩) ++
    (["firefox", "chrome", "chromium", "helium", "browser"].map fun it => ⟨it.toList, some .browser, none⟩) ++
    (["libreoffice", "soffice", "writer", "office"].map fun it => ⟨it.toList, some .office, some WritingProfile.work⟩) ++
    (["kate", "code", "editor", "jetbrains"].map fun it => ⟨it.toList, some .codeEditor, some WritingProfile.work⟩) ++
    (["signal", "discord", "telegram", "whatsapp", "messenger", "element"].map fun it =>
      ⟨it.toList, none, some WritingProfile.personal⟩) ++
    (["slack", "microsoft teams", "linear", "notion"].map fun it => ⟨it.toList, none, some WritingProfile.work⟩)

/-- `compact`. -/
def compact (value : Text) : Text := (value.filter u.isLetterOrNumber).map fold.char

/-- `RecognitionRule.matches`. -/
def recognitionMatches (rule : AppRecognitionRule) (identity : List Text) (builtIn : Bool) : Bool :=
  if (compact u fold rule.appMatch).isEmpty then false
  else if !builtIn then
    let joined := joinWords identity
    containsAnyCase fold joined rule.appMatch || decide (compact u fold rule.appMatch <:+: compact u fold joined)
  else identity.any fun it => boundaryMatch u fold rule.appMatch it || compact u fold it = compact u fold rule.appMatch

structure NearbyText where
  before : Text
  after : Text
  selectionStart : ℤ
  selectionEnd : ℤ
  deriving DecidableEq

/-- What the refiner is told, as far as `resolveRefinementContext` fills it in. -/
structure RefinementContext where
  style : CleanupStrength
  tone : Tone
  profile : Text
  profileName : Text
  category : AppCategory
  applicationId : Text
  applicationName : Text
  nearbyText : Option NearbyText
  profileInstructions : Text
  customTone : Option CustomTone
  cleanupLevel : Option CustomCleanupLevel
  outputLanguage : Text
  deriving DecidableEq

/-- The built-in profiles' labels. -/
def builtInProfileLabels : List (Text × Text) :=
  [(WritingProfile.work, "Work".toList), (WritingProfile.email, "Email".toList),
    (WritingProfile.personal, "Personal".toList), (WritingProfile.aiCoding, "AI coding".toList),
    (WritingProfile.other, "Other".toList)]

/-- `WritingProfileSettings()`. -/
def WritingProfileSettings.default : WritingProfileSettings := { instructions := [], name := [], outputLanguage := [] }

/-- The category of an application by its identity. -/
def resolvedCategory (identity : List Text) (platformCategory : Option AppCategory) (rules : List AppRecognitionRule) :
    AppCategory :=
  let ofUser := (rules.find? fun it => it.category.isSome && recognitionMatches u fold it identity false).bind (·.category)
  let ofProgram :=
    (builtInRules.find? fun it => it.category.isSome && recognitionMatches u fold it identity true).bind (·.category)
  ((ofUser.or ofProgram).or platformCategory).getD (if identity.all (·.isEmpty) then .unknown else .general)

/-- The profile of an application of a category. -/
def resolvedProfile (identity : List Text) (category : AppCategory) (rules : List AppRecognitionRule)
    (fallbackProfile : Text) : Text :=
  let ofUser :=
    (rules.find? fun it => it.writingProfile.isSome && recognitionMatches u fold it identity false).bind (·.writingProfile)
  let ofProgram :=
    (builtInRules.find? fun it => it.writingProfile.isSome && recognitionMatches u fold it identity true).bind
      (·.writingProfile)
  (ofUser.or ofProgram).getD <|
    match category with
    | .email => WritingProfile.email
    | .aiCoding => WritingProfile.aiCoding
    | .codeEditor | .terminal | .office => WritingProfile.work
    | .general | .browser | .unknown => fallbackProfile

def resolveRefinementContext (applicationId applicationName : Text) (platformCategory : Option AppCategory)
    (nearbyText : Option NearbyText) (fallbackProfile : Text) (profiles : List (Text × WritingProfileSettings))
    (tones : List CustomTone) (levels : List CustomCleanupLevel) (rules : List AppRecognitionRule) : RefinementContext :=
  let identity := [applicationId, applicationName]
  let category := resolvedCategory u fold identity platformCategory rules
  let profile := resolvedProfile u fold identity category rules fallbackProfile
  let settings := ((profiles.find? (·.1 = profile)).map Prod.snd).getD .default
  let level := levels.find? fun it => some it.id = settings.customCleanupLevel
  let translatesUnrefined := settings.cleanupStrength = .none ∧ ¬ isBlank settings.outputLanguage
  { style := (level.map CustomCleanupLevel.base).getD
      (if translatesUnrefined then .lightCleanup else settings.cleanupStrength)
    tone := settings.tone
    profile := profile
    profileName := ((builtInProfileLabels.find? (·.1 = profile)).map Prod.snd).getD settings.name
    category := category
    applicationId := applicationId
    applicationName := applicationName
    nearbyText := nearbyText
    profileInstructions := settings.instructions
    customTone := tones.find? fun it => some it.id = settings.customTone
    cleanupLevel := level
    outputLanguage := settings.outputLanguage }

end Android

/-! ## One identity -/

variable {u fold}

theorem builtInRules_eq : Android.builtInRules = builtInAppRecognitionRules := rfl

/-- The first value of a list, searched for and then read, or read as it is searched for. -/
theorem find?_bind {α β : Type} (l : List α) (f : α → Option β) (p : α → Bool) :
    (l.find? fun a => (f a).isSome && p a).bind f = l.findSome? fun a => if p a then f a else none := by
  induction l with
  | nil => rfl
  | cons a l ih =>
    rw [List.find?_cons, List.findSome?_cons]
    cases hp : p a with
    | false => simp [ih]
    | true => cases hf : f a <;> simp [hf, ih]

/-- What ends in no space is found in a text followed by spaces only in the text. -/
theorem containsAnyCase_append {text part spaces : Text} (hne : part ≠ []) (hlast : ∀ c ∈ part.getLast?, isSpace c = false)
    (hspaces : ∀ c ∈ spaces, isSpace c = true) :
    containsAnyCase fold (text ++ spaces) part = containsAnyCase fold text part := by
  refine Bool.eq_iff_iff.mpr ?_
  simp only [containsAnyCase, decide_eq_true_eq, List.map_append]
  refine ⟨?_, fun h => h.trans (List.prefix_append _ _).isInfix⟩
  rintro ⟨before, after, heq⟩
  rcases List.append_eq_append_iff.mp heq with ⟨rest, htext, -⟩ | ⟨rest, hpart, hrest⟩
  · exact ⟨before, rest, htext.symm⟩
  · rcases List.eq_nil_or_concat rest with rfl | ⟨rest, c, rfl⟩
    · exact ⟨before, [], by rw [hpart, List.append_nil, List.append_nil]⟩
    · -- The part would end in one of the spaces.
      obtain ⟨front, d, rfl⟩ := (List.eq_nil_or_concat part).resolve_left hne
      simp only [List.concat_eq_append, List.map_append, List.map_cons, List.map_nil, ← List.append_assoc] at hpart
      have hd : fold.char d = c := (List.cons.inj (List.append_inj' hpart rfl).2).1
      have hc : c ∈ spaces.map fold.char := by rw [hrest]; simp
      obtain ⟨s, hs, rfl⟩ := List.mem_map.mp hc
      have hspace := hspaces s hs
      rw [← fold.space, ← hd, fold.space, hlast d (by simp)] at hspace
      cases hspace

theorem compact_append {text spaces : Text} (hspaces : ∀ c ∈ spaces, isSpace c = true) :
    compact u fold (text ++ spaces) = compact u fold text := by
  have hnone : spaces.filter u.isLetterOrNumber = [] := List.filter_eq_nil_iff.mpr fun c hc => by
    rw [u.space c (hspaces c hc)]
    exact Bool.false_ne_true
  rw [compact, List.filter_append, hnone, List.append_nil, compact]

/-- The desktop joins the parts it lacks with spaces. -/
theorem joinWords_identityParts (applicationId applicationName : Text) (processId : ℤ) (category : AppCategory)
    (includeWindowTitle : Bool) :
    ∃ spaces : Text, (∀ c ∈ spaces, isSpace c = true) ∧
      joinWords (identityParts { (knownBy applicationId applicationName processId).toTargetIdentity with category }
        includeWindowTitle) = joinWords [applicationId, applicationName] ++ spaces := by
  refine ⟨if includeWindowTitle then [' ', ' ', ' '] else [' ', ' '], ?_, ?_⟩
  · have hspaces (n : ℕ) : ∀ c ∈ List.replicate n ' ', isSpace c = true := fun c hc =>
      (List.eq_of_mem_replicate hc).symm ▸ rfl
    cases includeWindowTitle
    exacts [hspaces 2, hspaces 3]
  · cases includeWindowTitle <;> simp [joinWords, identityParts, knownBy, List.intercalate]

variable {applicationId applicationName : Text} {rule : AppRecognitionRule}

/-- A rule of the user's matches the same. -/
theorem ruleMatches_user (processId : ℤ) (hrule : trimmed rule.appMatch = rule.appMatch) (category : AppCategory)
    (includeWindowTitle : Bool) :
    ruleMatches u fold rule { (knownBy applicationId applicationName processId).toTargetIdentity with category }
        includeWindowTitle false =
      Android.recognitionMatches u fold rule [applicationId, applicationName] false := by
  obtain ⟨spaces, hspaces, hjoined⟩ :=
    joinWords_identityParts applicationId applicationName processId category includeWindowTitle
  simp only [ruleMatches, Android.recognitionMatches, hjoined]
  by_cases hempty : (compact u fold rule.appMatch).isEmpty = true
  · rw [if_pos hempty]
    exact (if_pos hempty).symm
  · have hne : rule.appMatch ≠ [] := fun h => hempty (by rw [h]; rfl)
    rw [if_neg hempty, containsAnyCase_append hne (getLast?_of_trimmed hrule) hspaces, compact_append hspaces]
    exact (if_neg hempty).symm

/-- A rule of the program's matches no part that is empty. -/
theorem ruleMatches_builtIn (processId : ℤ) (category : AppCategory) (includeWindowTitle : Bool) :
    ruleMatches u fold rule { (knownBy applicationId applicationName processId).toTargetIdentity with category }
        includeWindowTitle true =
      Android.recognitionMatches u fold rule [applicationId, applicationName] true := by
  simp only [ruleMatches, Android.recognitionMatches]
  by_cases hempty : (compact u fold rule.appMatch).isEmpty = true
  · rw [if_pos hempty]
    exact (if_pos hempty).symm
  · rw [if_neg hempty]
    refine Eq.trans ?_ (if_neg hempty).symm
    have hne : rule.appMatch ≠ [] := fun h => hempty (by rw [h]; rfl)
    have hboundary : boundaryMatch u fold rule.appMatch [] = false := by
      obtain ⟨c, rest, hcons⟩ := List.exists_cons_of_ne_nil hne
      simp [boundaryMatch, sameText, hcons]
    have hcompact : decide (compact u fold [] = compact u fold rule.appMatch) = false :=
      decide_eq_false fun h => hempty (by rw [← h]; rfl)
    have hnil : (boundaryMatch u fold rule.appMatch [] ||
        decide (compact u fold [] = compact u fold rule.appMatch)) = false := by rw [hboundary, hcompact]; rfl
    cases includeWindowTitle <;>
      simp only [identityParts, knownBy, Bool.false_eq_true, if_true, if_false, List.cons_append, List.nil_append,
        List.any_cons, List.any_nil, hnil, Bool.or_false, Bool.not_true] <;> rfl

/-! ## The category -/

/-- What the user's rules say of an application. -/
def saidByUser {β : Type} (u : Unicode) (fold : CaseFolding) (rules : List AppRecognitionRule) (identity : List Text)
    (field : AppRecognitionRule → Option β) : Option β :=
  rules.findSome? fun rule => if Android.recognitionMatches u fold rule identity false then field rule else none

/-- What the program's rules say of an application. -/
def saidByProgram {β : Type} (u : Unicode) (fold : CaseFolding) (identity : List Text)
    (field : AppRecognitionRule → Option β) : Option β :=
  builtInAppRecognitionRules.findSome? fun rule =>
    if Android.recognitionMatches u fold rule identity true then field rule else none

theorem findSome?_congr {α β : Type} {l : List α} {f g : α → Option β} (h : ∀ a ∈ l, f a = g a) :
    l.findSome? f = l.findSome? g := by
  induction l with
  | nil => rfl
  | cons a l ih =>
    rw [List.findSome?_cons, List.findSome?_cons, h a List.mem_cons_self,
      ih fun b hb => h b (List.mem_cons_of_mem a hb)]

variable {processId : ℤ} {rules : List AppRecognitionRule} {fallback : Text} {category : AppCategory}

/-- What the user's rules say is what those of them say that match on the desktop. -/
theorem saidByUser_eq {β : Type} (processId : ℤ) (hrules : ∀ rule ∈ rules, trimmed rule.appMatch = rule.appMatch)
    (field : AppRecognitionRule → Option β) (category : AppCategory) (includeWindowTitle : Bool) :
    (rules.findSome? fun rule =>
        if ruleMatches u fold rule { (knownBy applicationId applicationName processId).toTargetIdentity with category }
          includeWindowTitle false then field rule else none) =
      saidByUser u fold rules [applicationId, applicationName] field :=
  findSome?_congr fun rule hrule => by rw [ruleMatches_user processId (hrules rule hrule)]

theorem saidByProgram_eq {β : Type} (processId : ℤ) (field : AppRecognitionRule → Option β) (category : AppCategory)
    (includeWindowTitle : AppRecognitionRule → Bool) :
    (builtInAppRecognitionRules.findSome? fun rule =>
        if ruleMatches u fold rule { (knownBy applicationId applicationName processId).toTargetIdentity with category }
          (includeWindowTitle rule) true then field rule else none) =
      saidByProgram u fold [applicationId, applicationName] field :=
  findSome?_congr fun rule _ => by rw [ruleMatches_builtIn]

theorem classifyTarget_eq (hrules : ∀ rule ∈ rules, trimmed rule.appMatch = rule.appMatch)
    (hknown : applicationId ≠ [] ∨ applicationName ≠ []) :
    classifyTarget u fold (knownBy applicationId applicationName processId) rules =
      ((saidByUser u fold rules [applicationId, applicationName] (·.category)).or
        (saidByProgram u fold [applicationId, applicationName] (·.category))).getD .general := by
  have hidentity : (knownBy applicationId applicationName processId).hasIdentity = true := by
    rcases hknown with hid | hname
    · simp [RecognisedTarget.hasIdentity, knownBy, hid]
    · simp [RecognisedTarget.hasIdentity, knownBy, hname]
  have huser : (rules.findSome? fun rule =>
      if ruleMatches u fold rule (knownBy applicationId applicationName processId).toTargetIdentity false false then
        rule.category else none) = saidByUser u fold rules [applicationId, applicationName] (·.category) :=
    saidByUser_eq processId hrules (·.category) .unknown false
  have hprogram : (builtInAppRecognitionRules.findSome? fun rule =>
      if ruleMatches u fold rule (knownBy applicationId applicationName processId).toTargetIdentity false true then
        rule.category else none) = saidByProgram u fold [applicationId, applicationName] (·.category) :=
    saidByProgram_eq processId (·.category) .unknown fun _ => false
  rw [classifyTarget, huser]
  cases saidByUser u fold rules [applicationId, applicationName] (·.category) with
  | some category => rfl
  | none =>
    refine (if_neg Bool.false_ne_true).trans ?_
    rw [hprogram]
    cases saidByProgram u fold [applicationId, applicationName] (·.category) with
    | some category => rfl
    | none => exact if_pos hidentity

theorem Android.resolvedCategory_eq (hknown : applicationId ≠ [] ∨ applicationName ≠ []) :
    Android.resolvedCategory u fold [applicationId, applicationName] none rules =
      ((saidByUser u fold rules [applicationId, applicationName] (·.category)).or
        (saidByProgram u fold [applicationId, applicationName] (·.category))).getD .general := by
  have hidentity : [applicationId, applicationName].all (·.isEmpty) = false := by
    rcases hknown with hid | hname
    · simp [hid]
    · simp [hname]
  rw [resolvedCategory, find?_bind, builtInRules_eq, find?_bind, hidentity, Option.or_none]
  rfl

/-- **The category is the same.** -/
theorem category_eq (hrules : ∀ rule ∈ rules, trimmed rule.appMatch = rule.appMatch)
    (hknown : applicationId ≠ [] ∨ applicationName ≠ []) :
    classifyTarget u fold (knownBy applicationId applicationName processId) rules =
      Android.resolvedCategory u fold [applicationId, applicationName] none rules := by
  rw [classifyTarget_eq hrules hknown, Android.resolvedCategory_eq hknown]

/-! ## The profile -/

/-- The profile of a category, without a rule for it. -/
def profileOfCategory (category : AppCategory) (fallback : Text) : Text :=
  match category with
  | .email => WritingProfile.email
  | .aiCoding => WritingProfile.aiCoding
  | .codeEditor | .terminal | .office => WritingProfile.work
  | .unknown | .general | .browser => fallback

theorem Android.resolvedProfile_eq :
    Android.resolvedProfile u fold [applicationId, applicationName] category rules fallback =
      ((saidByUser u fold rules [applicationId, applicationName] (·.writingProfile)).or
        (saidByProgram u fold [applicationId, applicationName] (·.writingProfile))).getD
          (profileOfCategory category fallback) := by
  simp only [resolvedProfile, find?_bind, builtInRules_eq]
  cases category <;> rfl

/-- The desktop lets AI coding decide before its own rules. -/
theorem resolveWritingProfile_eq (hrules : ∀ rule ∈ rules, trimmed rule.appMatch = rule.appMatch) :
    resolveWritingProfile u fold { (knownBy applicationId applicationName processId).toTargetIdentity with category } []
        rules fallback =
      (saidByUser u fold rules [applicationId, applicationName] (·.writingProfile)).getD
        (if category = .aiCoding then WritingProfile.aiCoding
          else (saidByProgram u fold [applicationId, applicationName] (·.writingProfile)).getD
            (profileOfCategory category fallback)) := by
  have hinfer : inferWritingProfile u fold
      { (knownBy applicationId applicationName processId).toTargetIdentity with category } fallback =
      if category = .aiCoding then WritingProfile.aiCoding
        else (saidByProgram u fold [applicationId, applicationName] (·.writingProfile)).getD
          (profileOfCategory category fallback) := by
    rw [← saidByProgram_eq processId (·.writingProfile) category fun rule => rule.category ≠ some .aiCoding]
    refine if_congr Iff.rfl rfl ?_
    cases builtInAppRecognitionRules.findSome? _ with
    | some profile => rfl
    | none => cases category <;> rfl
  rw [← hinfer, ← saidByUser_eq processId hrules (·.writingProfile) category true, ← find?_bind]
  rw [resolveWritingProfile, List.find?_nil]
  dsimp only
  cases hfind : rules.find? (AppRecognitionRule.applies u fold
      { (knownBy applicationId applicationName processId).toTargetIdentity with category }) with
  | none =>
    change rules.find? _ = none at hfind
    rw [show (rules.find? fun rule => rule.writingProfile.isSome && ruleMatches u fold rule _ true false) = none from hfind]
    rfl
  | some rule =>
    have happlies := List.find?_some hfind
    obtain ⟨profile, hprofile⟩ := Option.isSome_iff_exists.mp (Bool.and_eq_true_iff.mp happlies).1
    rw [show (rules.find? fun rule => rule.writingProfile.isSome && ruleMatches u fold rule _ true false) = some rule
      from hfind]
    simp only [Option.bind_some, hprofile, Option.getD_some]

/-- The program's rules for AI coding come first, and each gives its profile too. -/
theorem aiCoding_of_program {identity : List Text}
    (h : saidByProgram u fold identity (·.category) = some .aiCoding) :
    saidByProgram u fold identity (·.writingProfile) = some WritingProfile.aiCoding := by
  have hcoding : ∀ rule ∈ builtInAppRecognitionRules.take 30,
      rule.category = some .aiCoding ∧ rule.writingProfile = some WritingProfile.aiCoding := by decide
  have hother : ∀ rule ∈ builtInAppRecognitionRules.drop 30, rule.category ≠ some .aiCoding := by decide
  rw [saidByProgram, ← List.take_append_drop 30 builtInAppRecognitionRules, List.findSome?_append] at h ⊢
  rcases Option.or_eq_some_iff.mp h with hfirst | ⟨-, hrest⟩
  · obtain ⟨rule, hrule, hsaid⟩ := List.exists_of_findSome?_eq_some hfirst
    have hmatches : Android.recognitionMatches u fold rule identity true = true := by
      by_contra hnot
      rw [if_neg hnot] at hsaid
      cases hsaid
    refine Option.or_eq_some_iff.mpr (.inl ?_)
    cases hfound : (builtInAppRecognitionRules.take 30).findSome? fun rule =>
        if Android.recognitionMatches u fold rule identity true then rule.writingProfile else none with
    | none =>
      have hnone := List.findSome?_eq_none_iff.mp hfound rule hrule
      rw [if_pos hmatches, (hcoding rule hrule).2] at hnone
      cases hnone
    | some profile =>
      obtain ⟨other, hmem, hvalue⟩ := List.exists_of_findSome?_eq_some hfound
      split at hvalue
      · rw [← hvalue]
        exact (hcoding other hmem).2
      · cases hvalue
  · obtain ⟨rule, hrule, hsaid⟩ := List.exists_of_findSome?_eq_some hrest
    split at hsaid
    · exact absurd hsaid (hother rule hrule)
    · cases hsaid

/-- The user's rules make an application AI coding and leave its profile to the program, which knows it by another. -/
def KnownOtherwise (u : Unicode) (fold : CaseFolding) (rules : List AppRecognitionRule) (identity : List Text) : Prop :=
  saidByUser u fold rules identity (·.category) = some .aiCoding ∧
    saidByUser u fold rules identity (·.writingProfile) = none ∧
    ∃ profile, saidByProgram u fold identity (·.writingProfile) = some profile ∧ profile ≠ WritingProfile.aiCoding

theorem profile_eq_iff (hrules : ∀ rule ∈ rules, trimmed rule.appMatch = rule.appMatch)
    (hcategory : category = ((saidByUser u fold rules [applicationId, applicationName] (·.category)).or
      (saidByProgram u fold [applicationId, applicationName] (·.category))).getD .general) :
    resolveWritingProfile u fold { (knownBy applicationId applicationName processId).toTargetIdentity with category } []
        rules fallback =
      Android.resolvedProfile u fold [applicationId, applicationName] category rules fallback ↔
    ¬ KnownOtherwise u fold rules [applicationId, applicationName] := by
  rw [resolveWritingProfile_eq hrules, Android.resolvedProfile_eq, KnownOtherwise]
  cases saidByUser u fold rules [applicationId, applicationName] (·.writingProfile) with
  | some profile => exact iff_of_true rfl fun h => Option.some_ne_none _ h.2.1
  | none =>
    rw [Option.getD_none, Option.none_or]
    by_cases hcoding : category = .aiCoding
    · rw [if_pos hcoding]
      cases huser : saidByUser u fold rules [applicationId, applicationName] (·.category) with
      | some said =>
        rw [huser, Option.some_or, Option.getD_some, hcoding] at hcategory
        subst hcategory hcoding
        cases saidByProgram u fold [applicationId, applicationName] (·.writingProfile) with
        | none => exact iff_of_true rfl fun ⟨_, _, _, h, _⟩ => Option.some_ne_none _ h.symm
        | some profile =>
          rw [Option.getD_some]
          refine ⟨fun heq ⟨_, _, other, hother, hne⟩ => hne ?_, fun h => ?_⟩
          · rw [heq, Option.some.inj hother]
          · by_contra hne
            exact h ⟨rfl, rfl, profile, rfl, Ne.symm hne⟩
      | none =>
        -- Nobody but the program made it AI coding.
        rw [huser, Option.none_or, hcoding] at hcategory
        have hprogram : saidByProgram u fold [applicationId, applicationName] (·.category) = some .aiCoding := by
          cases hsaid : saidByProgram u fold [applicationId, applicationName] (·.category) with
          | none => rw [hsaid] at hcategory; cases hcategory
          | some said => rw [hsaid] at hcategory; rw [hcategory, Option.getD_some]
        rw [aiCoding_of_program hprogram]
        exact iff_of_true rfl fun h => Option.some_ne_none _ h.1.symm
    · rw [if_neg hcoding]
      refine iff_of_true rfl fun h => hcoding ?_
      rw [hcategory, h.1]
      rfl

/-- **Desktop and Android recognise an application the same** unless the user's rules make it AI coding and leave its
profile to the program, which knows it by another: there the desktop takes AI coding and Android what the program says. -/
theorem recognised_alike_iff (hrules : ∀ rule ∈ rules, trimmed rule.appMatch = rule.appMatch)
    (hknown : applicationId ≠ [] ∨ applicationName ≠ []) (nearbyText : Option Android.NearbyText)
    (profiles : List (Text × Android.WritingProfileSettings)) (tones : List Android.CustomTone)
    (levels : List Android.CustomCleanupLevel) :
    let target := knownBy applicationId applicationName processId
    let category := classifyTarget u fold target rules
    let context := Android.resolveRefinementContext u fold applicationId applicationName none nearbyText fallback profiles
      tones levels rules
    (category = context.category ∧
        resolveWritingProfile u fold { target.toTargetIdentity with category } [] rules fallback = context.profile) ↔
      ¬ KnownOtherwise u fold rules [applicationId, applicationName] := by
  intro target category context
  have hcategory : category = context.category := category_eq hrules hknown
  rw [and_iff_right hcategory, show context.profile =
    Android.resolvedProfile u fold [applicationId, applicationName] context.category rules fallback from rfl, ← hcategory]
  exact profile_eq_iff hrules (classifyTarget_eq hrules hknown)

/-- A terminal the program does not know, which the user makes AI coding. -/
theorem warp_recognised_alike :
    classifyTarget .basic .ascii (knownBy "dev.warp".toList "Warp".toList 0) [⟨"warp".toList, some .aiCoding, none⟩] =
        (Android.resolveRefinementContext .basic .ascii "dev.warp".toList "Warp".toList none none WritingProfile.other [] []
          [] [⟨"warp".toList, some .aiCoding, none⟩]).category ∧
      resolveWritingProfile .basic .ascii
          { (knownBy "dev.warp".toList "Warp".toList 0).toTargetIdentity with
            category := classifyTarget .basic .ascii (knownBy "dev.warp".toList "Warp".toList 0)
              [⟨"warp".toList, some .aiCoding, none⟩] }
          [] [⟨"warp".toList, some .aiCoding, none⟩] WritingProfile.other =
        (Android.resolveRefinementContext .basic .ascii "dev.warp".toList "Warp".toList none none WritingProfile.other [] []
          [] [⟨"warp".toList, some .aiCoding, none⟩]).profile := by
  refine (recognised_alike_iff (by decide) (.inl (by decide)) none [] [] []).mpr ?_
  rintro ⟨-, -, profile, hprofile, -⟩
  rw [show saidByProgram .basic .ascii ["dev.warp".toList, "Warp".toList] (·.writingProfile) = none by decide]
    at hprofile
  cases hprofile

/-- The user makes "slack" AI coding, which the program knows as Work: Android writes for Work there. -/
theorem slack_recognised_apart : ¬ ∀ (applicationId applicationName fallback : Text) (rules : List AppRecognitionRule),
    (applicationId ≠ [] ∨ applicationName ≠ []) → (∀ rule ∈ rules, trimmed rule.appMatch = rule.appMatch) →
      let target := knownBy applicationId applicationName 0
      let category := classifyTarget .basic .ascii target rules
      let context := Android.resolveRefinementContext .basic .ascii applicationId applicationName none none fallback [] [] []
        rules
      category = context.category ∧
        resolveWritingProfile .basic .ascii { target.toTargetIdentity with category } [] rules fallback = context.profile := by
  intro h
  have hslack := (h "com.slack".toList "Slack".toList WritingProfile.other [⟨"slack".toList, some .aiCoding, none⟩]
    (.inl (by decide)) (by decide)).2
  exact absurd hslack (by decide)

end Speecher
