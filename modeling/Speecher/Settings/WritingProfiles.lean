import Speecher.Settings.Corrections

/-!
# Which writing profile an application gets

`resolveWritingProfile` picks a profile for a target: the user's override for the application, else
the first of the user's recognition rules that matches it, else what the built-in rules and the
target's category say. Retiring the overrides turns each into a rule after the others.

* `migration_keeps_iff`: when that leaves a target its profile.
* `appliesAsRule_of_applies`: an override that applies matches as a rule, if its application is named
  with a letter or a number at all.
-/

namespace Speecher

inductive AppCategory
  | unknown
  | general
  | terminal
  | browser
  | email
  | office
  | codeEditor
  | aiCoding
  deriving DecidableEq

/-- The built-in profiles' ids. -/
def WritingProfile.work : Text := "work".toList
def WritingProfile.email : Text := "email".toList
def WritingProfile.personal : Text := "personal".toList
def WritingProfile.aiCoding : Text := "ai_coding".toList
def WritingProfile.other : Text := "other".toList

/-- A profile the user set for one application, before recognition rules. -/
structure WritingProfileOverride where
  applicationId : Text
  profile : Text
  enabled : Bool
  deriving DecidableEq

/-- An application the user or the program knows, by what its identity contains. -/
structure AppRecognitionRule where
  appMatch : Text
  category : Option AppCategory
  writingProfile : Option Text
  deriving DecidableEq

/-- What a target tells of its identity. -/
structure TargetIdentity where
  applicationId : Text
  applicationName : Text
  processName : Text
  windowTitle : Text
  role : Text
  category : AppCategory
  deriving DecidableEq

/-- The built-in rules of a category and a profile. -/
def builtInRules (category : Option AppCategory) (writingProfile : Option Text) (names : List String) :
    List AppRecognitionRule :=
  names.map fun name => ⟨name.toList, category, writingProfile⟩

def builtInAppRecognitionRules : List AppRecognitionRule :=
  builtInRules (some .aiCoding) (some WritingProfile.aiCoding)
      ["t3code", "chatgpt", "codex", "cursor", "windsurf", "kiro", "zed", "opencode", "aider", "claude code",
        "gemini cli", "github copilot", "replit agent", "amazon q developer", "qwen code", "mistral vibe",
        "goose", "ampcode", "augment code", "sourcegraph cody", "cline", "roo code", "kilo code",
        "factory droid", "auggie", "kimi code", "pearai", "trae", "google antigravity", "tabnine"] ++
    builtInRules (some .terminal) (some WritingProfile.work)
      ["terminal", "konsole", "ghostty", "alacritty", "kitty", "wezterm", "foot", "rio", "xterm", "urxvt"] ++
    builtInRules (some .email) (some WritingProfile.email) ["thunderbird", "kmail", "mail"] ++
    builtInRules (some .browser) none ["firefox", "chrome", "chromium", "helium", "browser"] ++
    builtInRules (some .office) (some WritingProfile.work) ["libreoffice", "soffice", "writer", "office"] ++
    builtInRules (some .codeEditor) (some WritingProfile.work) ["kate", "code", "editor", "jetbrains"] ++
    builtInRules none (some WritingProfile.personal)
      ["signal", "discord", "telegram", "whatsapp", "messenger", "element"] ++
    builtInRules none (some WritingProfile.work) ["slack", "microsoft teams", "linear", "notion"]

variable (u : Unicode) (fold : CaseFolding)

/-- The letters and numbers of a text, case-folded. -/
def compact (value : Text) : Text := (value.filter u.isLetterOrNumber).map fold.char

/-- `QString::contains`, ignoring case. -/
def containsAnyCase (text part : Text) : Bool := part.map fold.char <:+: text.map fold.char

/-- `(^|[^\p{L}\p{N}])match([^\p{L}\p{N}]|$)`, ignoring case, is found in a text. -/
def boundaryMatch (appMatch text : Text) : Bool :=
  (List.range (text.length + 1)).any fun i =>
    !(text.take i).getLast?.any u.isLetterOrNumber &&
      sameText fold (text.extract i (i + appMatch.length)) appMatch &&
      !(text.drop (i + appMatch.length)).head?.any u.isLetterOrNumber

/-- What a rule is matched against. -/
def identityParts (target : TargetIdentity) (includeWindowTitle : Bool) : List Text :=
  [target.applicationId, target.applicationName, target.processName, target.role] ++
    if includeWindowTitle then [target.windowTitle] else []

def ruleMatches (rule : AppRecognitionRule) (target : TargetIdentity) (includeWindowTitle : Bool)
    (builtIn : Bool) : Bool :=
  let identity := joinWords (identityParts target includeWindowTitle)
  let compactMatch := compact u fold rule.appMatch
  if compactMatch.isEmpty then false
  else if !builtIn then
    containsAnyCase fold identity rule.appMatch || decide (compactMatch <:+: compact u fold identity)
  else
    (identityParts target includeWindowTitle).any fun part =>
      boundaryMatch u fold rule.appMatch part || compact u fold part = compactMatch

/-- The profile of a target by what the program knows about it. -/
def inferWritingProfile (target : TargetIdentity) (fallback : Text) : Text :=
  if target.category = .aiCoding then WritingProfile.aiCoding
  else
    match builtInAppRecognitionRules.findSome? fun rule =>
        if ruleMatches u fold rule target (rule.category ≠ some .aiCoding) true then rule.writingProfile
        else none with
    | some profile => profile
    | none =>
      match target.category with
      | .email => WritingProfile.email
      | .aiCoding => WritingProfile.aiCoding
      | .codeEditor | .terminal | .office => WritingProfile.work
      | .unknown | .general | .browser => fallback

/-- The override is the user's choice for the target. -/
def WritingProfileOverride.applies (target : TargetIdentity) (override : WritingProfileOverride) : Bool :=
  override.enabled && !(trimmed override.applicationId).isEmpty &&
    sameText fold override.applicationId target.applicationId

/-- The rule gives the target a profile. -/
def AppRecognitionRule.applies (target : TargetIdentity) (rule : AppRecognitionRule) : Bool :=
  rule.writingProfile.isSome && ruleMatches u fold rule target true false

def resolveWritingProfile (target : TargetIdentity) (overrides : List WritingProfileOverride)
    (recognitionRules : List AppRecognitionRule) (fallback : Text) : Text :=
  match overrides.find? (WritingProfileOverride.applies fold target) with
  | some override => override.profile
  | none =>
    match recognitionRules.find? (AppRecognitionRule.applies u fold target) with
    | some rule => rule.writingProfile.getD []
    | none => inferWritingProfile u fold target fallback

/-- The rule an override becomes. -/
def WritingProfileOverride.rule (override : WritingProfileOverride) : AppRecognitionRule :=
  ⟨override.applicationId, none, some override.profile⟩

def recognitionRulesWithMigratedProfileOverrides (rules : List AppRecognitionRule)
    (overrides : List WritingProfileOverride) : List AppRecognitionRule :=
  rules ++ (overrides.filter (·.enabled)).map WritingProfileOverride.rule

/-! ## Retiring the overrides -/

/-- An override matches a target as the rule it becomes. -/
def WritingProfileOverride.appliesAsRule (target : TargetIdentity) (override : WritingProfileOverride) : Bool :=
  override.enabled && ruleMatches u fold override.rule target true false

/-- The profile a target keeps when the overrides are retired: its override's, unless a rule sets
another, a broader override stands before it or it names the application without letters and numbers;
and without one, its rule's or the program's, unless an override of another application matches it. -/
def MigrationKeeps (target : TargetIdentity) (overrides : List WritingProfileOverride)
    (rules : List AppRecognitionRule) (fallback : Text) : Prop :=
  match overrides.find? (WritingProfileOverride.applies fold target),
      rules.find? (AppRecognitionRule.applies u fold target),
      overrides.find? (WritingProfileOverride.appliesAsRule u fold target) with
  | some override, some rule, _ => rule.writingProfile = some override.profile
  | some override, none, some first => first.profile = override.profile
  | some override, none, none => inferWritingProfile u fold target fallback = override.profile
  | none, some _, _ => True
  | none, none, some first => first.profile = inferWritingProfile u fold target fallback
  | none, none, none => True

theorem find?_migrated (target : TargetIdentity) (overrides : List WritingProfileOverride) :
    ((overrides.filter (·.enabled)).map WritingProfileOverride.rule).find? (AppRecognitionRule.applies u fold target) =
      (overrides.find? (WritingProfileOverride.appliesAsRule u fold target)).map WritingProfileOverride.rule := by
  rw [List.find?_map, List.find?_filter]
  refine congrArg (Option.map _) (congrArg (List.find? · overrides) (funext fun override => ?_))
  simp [AppRecognitionRule.applies, WritingProfileOverride.appliesAsRule, WritingProfileOverride.rule]

/-- **Retiring the overrides leaves a target its profile exactly when `MigrationKeeps`.** -/
theorem migration_keeps_iff (target : TargetIdentity) (overrides : List WritingProfileOverride)
    (rules : List AppRecognitionRule) (fallback : Text) :
    resolveWritingProfile u fold target overrides rules fallback =
        resolveWritingProfile u fold target []
          (recognitionRulesWithMigratedProfileOverrides rules overrides) fallback ↔
      MigrationKeeps u fold target overrides rules fallback := by
  simp only [resolveWritingProfile, MigrationKeeps, recognitionRulesWithMigratedProfileOverrides, List.find?_nil,
    List.find?_append, find?_migrated]
  cases hoverride : overrides.find? (WritingProfileOverride.applies fold target) with
  | some override =>
    cases hrule : rules.find? (AppRecognitionRule.applies u fold target) with
    | some rule =>
      have happlies := List.find?_some hrule
      simp only [AppRecognitionRule.applies, Bool.and_eq_true, Option.isSome_iff_exists] at happlies
      obtain ⟨⟨profile, hprofile⟩, -⟩ := happlies
      show override.profile = rule.writingProfile.getD [] ↔ rule.writingProfile = some override.profile
      rw [hprofile, Option.getD_some, Option.some.injEq]
      exact eq_comm
    | none =>
      cases overrides.find? (WritingProfileOverride.appliesAsRule u fold target) with
      | some first => exact eq_comm
      | none => exact eq_comm
  | none =>
    cases hrule : rules.find? (AppRecognitionRule.applies u fold target) with
    | some rule => exact iff_of_true rfl trivial
    | none =>
      cases overrides.find? (WritingProfileOverride.appliesAsRule u fold target) with
      | some first => exact eq_comm
      | none => exact iff_of_true rfl trivial

/-- An override that applies matches as the rule it becomes, if its application's id has a letter or a
number. -/
theorem appliesAsRule_of_applies {target : TargetIdentity} {override : WritingProfileOverride}
    (h : override.applies fold target = true) (hid : compact u fold override.applicationId ≠ []) :
    override.appliesAsRule u fold target = true := by
  simp only [WritingProfileOverride.applies, Bool.and_eq_true] at h
  have hcontains : containsAnyCase fold (joinWords (identityParts target true)) override.applicationId = true := by
    rw [containsAnyCase, decide_eq_true_eq, (sameText_iff fold).mp h.2]
    obtain ⟨rest, hrest⟩ : ∃ rest, joinWords (identityParts target true) = target.applicationId ++ rest :=
      ⟨_, rfl⟩
    rw [hrest, List.map_append]
    exact (List.prefix_append _ _).isInfix
  simp only [WritingProfileOverride.appliesAsRule, WritingProfileOverride.rule, ruleMatches, h.1.1,
    List.isEmpty_eq_false_iff.mpr hid, hcontains, Bool.false_eq_true, if_false, Bool.not_false, if_true,
    Bool.true_or, Bool.and_self]

/-- The editor of the desktop's own tests. -/
def kateTarget : TargetIdentity := ⟨"org.kde.kate".toList, "Kate".toList, "kate".toList, [], [], .codeEditor⟩

/-- The user's rule for "kate" says Work and the override for "org.kde.kate" Email: the editor loses
Email when the overrides are retired. -/
theorem kate_loses_override : ¬ ∀ (target : TargetIdentity) (overrides : List WritingProfileOverride)
    (rules : List AppRecognitionRule) (fallback : Text),
    resolveWritingProfile .basic .ascii target overrides rules fallback =
      resolveWritingProfile .basic .ascii target []
        (recognitionRulesWithMigratedProfileOverrides rules overrides) fallback := by
  intro h
  have hkate := h kateTarget [⟨"org.kde.kate".toList, WritingProfile.email, true⟩]
    [⟨"kate".toList, none, some WritingProfile.work⟩] WritingProfile.other
  exact absurd hkate (by decide)

end Speecher
