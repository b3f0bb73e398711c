import Speecher.Foundations.JsonText
import Speecher.Output.PasteRules
import Speecher.Settings.StoredReferences

/-!
# Retiring the output methods that never pasted

Older releases let every delivery insert only, or copy only. `migrateOutputMethod` turns either choice into
Automatic and gives its meaning to the paste rules: each rule that said to paste takes the method it meant.

* `pasteRulesFromJson_toJson`: the rules written are the rules read.
* `resolvePasteRule_map`: changing methods alone leaves each target its rule.
* `pasteRoute_migratedMethod`: a rule's new method takes the route its old one took.
* `route_migrates`: so every target that can be tracked is delivered to as before, and a second migration
  finds nothing to do.
-/

namespace Speecher

namespace PasteRules

def pasteRuleScopeName : PasteRuleScope → Text
  | .application => "application".toList
  | .category => "category".toList
  | .global => "global".toList

def pasteRuleScopeFromName (name : Text) : PasteRuleScope :=
  if name = "application".toList then .application
  else if name = "category".toList then .category
  else .global

def pasteMethodName : PasteMethod → Text
  | .terminalPaste => "terminal_paste".toList
  | .directInsert => "direct_insert".toList
  | .clipboardOnly => "clipboard_only".toList
  | .standardPaste => "standard_paste".toList

def pasteMethodFromName (name : Text) : PasteMethod :=
  if name = "terminal_paste".toList then .terminalPaste
  else if name = "direct_insert".toList then .directInsert
  else if name = "clipboard_only".toList then .clipboardOnly
  else .standardPaste

@[simp] theorem pasteRuleScopeFromName_name (scope : PasteRuleScope) :
    pasteRuleScopeFromName (pasteRuleScopeName scope) = scope := by
  cases scope <;> rfl

@[simp] theorem pasteMethodFromName_name (method : PasteMethod) :
    pasteMethodFromName (pasteMethodName method) = method := by
  cases method <;> rfl

def defaultPasteRules : List PasteRule :=
  [⟨.category, String.ofList (appCategoryName .terminal), .terminalPaste, true⟩,
    ⟨.global, "", .standardPaste, true⟩]

/-! ## The stored rules -/

/-- `QJsonDocument`, as far as arrays go: an empty text is none. -/
structure ArrayDocument where
  toJson : List Json → Text
  fromJson : Text → Option Json
  fromJson_toJson : ∀ items, fromJson (toJson items) = some (.array items)
  toJson_ne_nil : ∀ items, toJson items ≠ []

/-- The document that writes compact text. -/
def ArrayDocument.compact : ArrayDocument where
  toJson items := (Json.array items).print
  fromJson text := (Json.read text.length text).map Prod.fst
  fromJson_toJson items := by
    rw [Json.read_print_nil]
    rfl
  toJson_ne_nil items := by
    rw [Json.print]
    exact List.cons_ne_nil _ _

/-- One stored rule. -/
def ruleFromJson (object : Json) : PasteRule where
  scope := pasteRuleScopeFromName (Json.toText (object.value "scope"))
  match' := String.ofList (trimmed (Json.toText (object.value "match")))
  method := pasteMethodFromName (Json.toText (object.value "method"))
  enabled := Json.toBool true (object.value "enabled")

def ruleToJson (rule : PasteRule) : Json :=
  .object [("enabled", .bool rule.enabled), ("match", .string (trimmed rule.match'.toList)),
    ("method", .string (pasteMethodName rule.method)), ("scope", .string (pasteRuleScopeName rule.scope))]

variable (json : ArrayDocument)

def pasteRulesFromJson (encoded : Text) : List PasteRule :=
  if encoded.isEmpty then defaultPasteRules
  else
    (json.fromJson encoded).elim defaultPasteRules fun
      | .array [] => defaultPasteRules
      | .array items => items.map ruleFromJson
      | _ => defaultPasteRules

def pasteRulesToJson (rules : List PasteRule) : Text := json.toJson (rules.map ruleToJson)

theorem ruleFromJson_toJson (rule : PasteRule) :
    ruleFromJson (ruleToJson rule) = { rule with match' := String.ofList (trimmed rule.match'.toList) } := by
  have htrim : trimmed (trimmed rule.match'.toList) = trimmed rule.match'.toList :=
    trimmed_eq_self (isSpace_head_trimmed _) (isSpace_last_trimmed _)
  simp [ruleFromJson, ruleToJson, htrim]

/-- Reading leaves no match with white space around it. -/
def Trimmed (rule : PasteRule) : Prop := String.ofList (trimmed rule.match'.toList) = rule.match'

theorem trimmed_ruleFromJson (object : Json) : Trimmed (ruleFromJson object) := by
  have htrim : trimmed (trimmed (Json.toText (object.value "match"))) =
      trimmed (Json.toText (object.value "match")) :=
    trimmed_eq_self (isSpace_head_trimmed _) (isSpace_last_trimmed _)
  simp [Trimmed, ruleFromJson, htrim]

theorem trimmed_of_default {rule : PasteRule} (h : rule ∈ defaultPasteRules) : Trimmed rule := by
  simp only [defaultPasteRules, List.mem_cons, List.not_mem_nil, or_false] at h
  rcases h with rfl | rfl <;> rfl

theorem trimmed_of_pasteRulesFromJson {encoded : Text} {rule : PasteRule}
    (h : rule ∈ pasteRulesFromJson json encoded) : Trimmed rule := by
  rw [pasteRulesFromJson] at h
  split at h
  · exact trimmed_of_default h
  · cases hread : json.fromJson encoded with
    | none =>
      rw [hread] at h
      exact trimmed_of_default h
    | some document =>
      rw [hread, Option.elim_some] at h
      split at h
      · exact trimmed_of_default h
      · obtain ⟨object, -, rfl⟩ := List.mem_map.mp h
        exact trimmed_ruleFromJson object
      · exact trimmed_of_default h

theorem pasteRulesFromJson_ne_nil (encoded : Text) : pasteRulesFromJson json encoded ≠ [] := by
  rw [pasteRulesFromJson]
  split
  · exact List.cons_ne_nil _ _
  · cases json.fromJson encoded with
    | none => exact List.cons_ne_nil _ _
    | some document =>
      rw [Option.elim_some]
      split
      · exact List.cons_ne_nil _ _
      · rename_i items hne
        simpa using hne
      · exact List.cons_ne_nil _ _

/-- **Rules read once are read again as they were written.** -/
theorem pasteRulesFromJson_toJson {rules : List PasteRule} (hne : rules ≠ []) (h : ∀ rule ∈ rules, Trimmed rule) :
    pasteRulesFromJson json (pasteRulesToJson json rules) = rules := by
  have hitems : (rules.map ruleToJson).map ruleFromJson = rules := by
    rw [List.map_map]
    refine (List.map_congr_left fun rule hrule => ?_).trans (List.map_id rules)
    rw [Function.comp_apply, ruleFromJson_toJson, h rule hrule, id]
  rw [pasteRulesFromJson, pasteRulesToJson, json.fromJson_toJson, Option.elim_some,
    if_neg (by simpa using json.toJson_ne_nil _)]
  obtain ⟨rule, rest, rfl⟩ := List.exists_cons_of_ne_nil hne
  exact hitems

/-! ## The rule of a target -/

/-- What choosing a paste rule reads of a Target. -/
structure PasteTarget extends Target where
  processName : Text := []
  role : Text := []
  category : AppCategory := .unknown
  terminalHost : Bool := false
  aiCodingToolActive : Bool := false

def PasteTarget.trackable (target : PasteTarget) : Bool := target.hasIdentity || target.accessible

/-- What recognition rules match; no rule reads the window title here. -/
def PasteTarget.identity (target : PasteTarget) : TargetIdentity :=
  ⟨target.applicationId.toList, target.applicationName.toList, target.processName, [], target.role,
    target.category⟩

variable (u : Unicode) (fold : CaseFolding) (lower : LowerCase)

def isTerminalTarget (target : PasteTarget) : Bool :=
  target.terminalHost || target.aiCodingToolActive || target.category = .terminal ||
    containsAnyCase fold target.role "terminal".toList ||
    builtInAppRecognitionRules.any fun rule =>
      rule.category = some .terminal && ruleMatches u fold rule target.identity false true

/-- A rule's match as rules compare it; the global rule has none. -/
def comparableMatch (scope : PasteRuleScope) (match' : Text) : Text :=
  match scope with
  | .application => u.toCaseFolded (trimmed match')
  | .category => lower.text (trimmed match')
  | .global => []

def pasteRuleMatches (rule : PasteRule) (scope : PasteRuleScope) (match' : Text) : Bool :=
  rule.scope = scope && comparableMatch u lower scope rule.match'.toList = comparableMatch u lower scope match'

def enabledRule (rules : List PasteRule) (scope : PasteRuleScope) (match' : Text) : Option PasteRule :=
  rules.find? fun rule => rule.enabled && pasteRuleMatches u lower rule scope match'

def globalPasteMethod (rules : List PasteRule) : PasteMethod :=
  ((rules.find? fun rule => rule.enabled && rule.scope = .global).map PasteRule.method).getD .clipboardOnly

def resolvePasteRule (rules : List PasteRule) (target : PasteTarget) : PasteRule :=
  let applicationRule :=
    if (trimmed target.applicationId.toList).isEmpty then none
    else enabledRule u lower rules .application target.applicationId.toList
  let terminalRule :=
    if isTerminalTarget u fold target then enabledRule u lower rules .category (appCategoryName .terminal)
    else none
  let categoryRule := enabledRule u lower rules .category (appCategoryName target.category)
  (applicationRule.or (terminalRule.or categoryRule)).getD ⟨.global, "", globalPasteMethod rules, true⟩

/-- A rule with another method. -/
def withMethod (f : PasteMethod → PasteMethod) (rule : PasteRule) : PasteRule :=
  { rule with method := f rule.method }

theorem enabledRule_map (f : PasteMethod → PasteMethod) (rules : List PasteRule) (scope : PasteRuleScope)
    (match' : Text) : enabledRule u lower (rules.map (withMethod f)) scope match' =
      (enabledRule u lower rules scope match').map (withMethod f) :=
  List.find?_map

theorem globalPasteMethod_map {f : PasteMethod → PasteMethod} (hf : f .clipboardOnly = .clipboardOnly)
    (rules : List PasteRule) : globalPasteMethod (rules.map (withMethod f)) = f (globalPasteMethod rules) := by
  have hfind : (rules.map (withMethod f)).find? (fun rule => rule.enabled && rule.scope = .global) =
      (rules.find? fun rule => rule.enabled && rule.scope = .global).map (withMethod f) :=
    List.find?_map
  rw [globalPasteMethod, hfind, globalPasteMethod]
  cases rules.find? fun rule => rule.enabled && rule.scope = .global with
  | none => exact hf.symm
  | some rule => rfl

/-- **Changing the rules' methods alone changes the method of the rule a target gets, and nothing else.** -/
theorem resolvePasteRule_map {f : PasteMethod → PasteMethod} (hf : f .clipboardOnly = .clipboardOnly)
    (rules : List PasteRule) (target : PasteTarget) :
    resolvePasteRule u fold lower (rules.map (withMethod f)) target =
      withMethod f (resolvePasteRule u fold lower rules target) := by
  have hite (p : Prop) [Decidable p] (a : Option PasteRule) :
      (if p then a.map (withMethod f) else none) = (if p then a else none).map (withMethod f) := by
    split <;> rfl
  have hite' (p : Prop) [Decidable p] (a : Option PasteRule) :
      (if p then none else a.map (withMethod f)) = (if p then none else a).map (withMethod f) := by
    split <;> rfl
  simp only [resolvePasteRule, enabledRule_map, globalPasteMethod_map hf, hite, hite', ← Option.map_or]
  exact Option.getD_map (withMethod f) ⟨.global, "", globalPasteMethod rules, true⟩ _

end PasteRules

namespace TextDelivery

open PasteRules

/-! ## The route of a delivery -/

/-- A step of a delivery, as the settings page draws it. -/
def routeStep (method : String) : String := if pressesPasteKeys method then "press" else "copy"

/-- The steps the methods after an insertion add, each once. -/
def addSteps (route : List String) (methods : List String) : List String :=
  methods.foldl (fun route method => if routeStep method ∈ route then route else route ++ [routeStep method]) route

def pasteRoute (platform : Platform) (settings : OutputSettings) (pasteMethod : PasteMethod) : List String :=
  if pasteMethod = .clipboardOnly then ["copy"]
  else
    let insertion := directInsertion (OutputMethod.normalized settings.method) pasteMethod
    let route := if insertion.requested then ["insert"] else []
    if insertion.only then route ++ ["copy"] else addSteps route (orderedMethods platform settings pasteMethod)

/-! ## The migration -/

/-- The stored settings a delivery reads; a method never stored is empty. -/
structure StoredOutput where
  outputMethod : String
  pasteRules : Text
  ydotoolEnabled : Bool
  restoreClipboardAfterTyping : Bool

/-- The method a pasting rule meant under an output method that never pasted. -/
def meantMethod (outputMethod : String) : Option PasteMethod :=
  if OutputMethod.normalized outputMethod = OutputMethod.directInsert then some .directInsert
  else if OutputMethod.normalized outputMethod = OutputMethod.wlCopy ∨
      OutputMethod.normalized outputMethod = OutputMethod.qtClipboard then some .clipboardOnly
  else none

/-- A paste method is replaced, and one that never pressed keys is kept. -/
def replacePaste (paste method : PasteMethod) : PasteMethod :=
  if method = .standardPaste ∨ method = .terminalPaste then paste else method

variable (json : ArrayDocument)

def migrateOutputMethod (settings : StoredOutput) : StoredOutput :=
  (meantMethod settings.outputMethod).elim settings fun paste =>
    { settings with
      pasteRules := pasteRulesToJson json
        ((pasteRulesFromJson json settings.pasteRules).map (withMethod (replacePaste paste)))
      outputMethod := OutputMethod.automatic }

variable (platform : Platform)

/-- The output method as deliveries read it: there is a virtual keyboard on Linux alone. -/
def storedOutputMethod (stored : String) : String :=
  if platform ≠ .other ∧ OutputMethod.normalized stored = OutputMethod.ydotool then OutputMethod.automatic
  else OutputMethod.normalized stored

/-- The settings of a delivery. -/
def StoredOutput.settings (stored : StoredOutput) : OutputSettings where
  method := storedOutputMethod platform stored.outputMethod
  ydotoolEnabled := stored.ydotoolEnabled
  restoreClipboardAfterTyping := stored.restoreClipboardAfterTyping
  pasteRules := pasteRulesFromJson json stored.pasteRules

/-- What a rule's method becomes. -/
def migratedMethod (outputMethod : String) (method : PasteMethod) : PasteMethod :=
  (meantMethod outputMethod).elim method (replacePaste · method)

/-! ## Every rule takes its old route -/

@[simp] theorem pasteRoute_clipboardOnly (settings : OutputSettings) :
    pasteRoute platform settings .clipboardOnly = ["copy"] := if_pos rfl

@[simp] theorem pasteRoute_directInsert (settings : OutputSettings) :
    pasteRoute platform settings .directInsert = ["insert", "copy"] := by
  simp [pasteRoute, directInsertion]

/-- Where deliveries only insert, every rule but the clipboard's does. -/
theorem pasteRoute_onlyInserts {settings : OutputSettings}
    (h : OutputMethod.normalized settings.method = OutputMethod.directInsert) {method : PasteMethod}
    (hmethod : method ≠ .clipboardOnly) : pasteRoute platform settings method = ["insert", "copy"] := by
  simp [pasteRoute, directInsertion, h, hmethod]

/-- Where deliveries only copy, a rule that pastes copies. -/
theorem pasteRoute_onlyCopies {settings : OutputSettings}
    (h : OutputMethod.normalized settings.method = OutputMethod.wlCopy ∨
      OutputMethod.normalized settings.method = OutputMethod.qtClipboard) {method : PasteMethod}
    (hmethod : method = .standardPaste ∨ method = .terminalPaste) :
    pasteRoute platform settings method = ["copy"] := by
  have hordered : ∃ only, orderedMethods platform settings method = [only] ∧ pressesPasteKeys only = false := by
    rcases h with h | h
    · exact ⟨OutputMethod.wlCopy, by cases platform <;> simp only [orderedMethods, h] <;> rfl, rfl⟩
    · exact ⟨OutputMethod.qtClipboard, by cases platform <;> simp only [orderedMethods, h] <;> rfl, rfl⟩
  have hinsertion : directInsertion (OutputMethod.normalized settings.method) method = {} := by
    rcases h with h | h <;> rcases hmethod with rfl | rfl <;> rw [h] <;> rfl
  obtain ⟨only, honly, hpresses⟩ := hordered
  have hpastes : method ≠ .clipboardOnly := by rcases hmethod with rfl | rfl <;> exact PasteMethod.noConfusion
  simp [pasteRoute, hpastes, hinsertion, addSteps, honly, routeStep, hpresses]

@[simp] theorem normalized_normalized (method : String) :
    OutputMethod.normalized (OutputMethod.normalized method) = OutputMethod.normalized method := by
  have hall : ∀ m ∈ OutputMethod.all, OutputMethod.normalized m = m := by decide
  refine hall _ ?_
  simp only [OutputMethod.normalized]
  split_ifs with h₁ h₂ h₃ h₄
  · decide
  · decide
  · decide
  · exact h₄
  · decide

theorem meantMethod_some {outputMethod : String} {paste : PasteMethod} (h : meantMethod outputMethod = some paste) :
    (OutputMethod.normalized outputMethod = OutputMethod.directInsert ∧ paste = .directInsert) ∨
      ((OutputMethod.normalized outputMethod = OutputMethod.wlCopy ∨
        OutputMethod.normalized outputMethod = OutputMethod.qtClipboard) ∧ paste = .clipboardOnly) := by
  rw [meantMethod] at h
  split_ifs at h with h₁ h₂
  · exact .inl ⟨h₁, (Option.some.inj h).symm⟩
  · exact .inr ⟨h₂, (Option.some.inj h).symm⟩

/-- A method that never pasted is read as it is stored, on every platform. -/
theorem normalized_storedOutputMethod {outputMethod : String} {paste : PasteMethod}
    (h : meantMethod outputMethod = some paste) :
    OutputMethod.normalized (storedOutputMethod platform outputMethod) = OutputMethod.normalized outputMethod := by
  have hkeyboard : OutputMethod.normalized outputMethod ≠ OutputMethod.ydotool := by
    obtain ⟨hm, -⟩ | ⟨hm | hm, -⟩ := meantMethod_some h <;> rw [hm] <;> decide
  rw [storedOutputMethod, if_neg fun hc => hkeyboard hc.2, normalized_normalized]

/-- **A rule's new method takes the route that its old one took.** -/
theorem pasteRoute_replacePaste {outputMethod : String} {paste : PasteMethod}
    (h : meantMethod outputMethod = some paste) {before after : OutputSettings}
    (hbefore : before.method = storedOutputMethod platform outputMethod) (method : PasteMethod) :
    pasteRoute platform after (replacePaste paste method) = pasteRoute platform before method := by
  have hnormalized : OutputMethod.normalized before.method = OutputMethod.normalized outputMethod :=
    hbefore ▸ normalized_storedOutputMethod platform h
  by_cases hpastes : method = .standardPaste ∨ method = .terminalPaste
  · rw [replacePaste, if_pos hpastes]
    obtain ⟨hm, rfl⟩ | ⟨hm, rfl⟩ := meantMethod_some h
    · have hclipboard : method ≠ .clipboardOnly := by rcases hpastes with rfl | rfl <;> exact PasteMethod.noConfusion
      rw [pasteRoute_directInsert, pasteRoute_onlyInserts platform (hnormalized.trans hm) hclipboard]
    · rw [pasteRoute_clipboardOnly, pasteRoute_onlyCopies platform (hnormalized ▸ hm) hpastes]
  · rw [replacePaste, if_neg hpastes]
    cases method with
    | standardPaste => exact absurd (.inl rfl) hpastes
    | terminalPaste => exact absurd (.inr rfl) hpastes
    | directInsert => rw [pasteRoute_directInsert, pasteRoute_directInsert]
    | clipboardOnly => rw [pasteRoute_clipboardOnly, pasteRoute_clipboardOnly]

/-! ## The settings before and after -/

theorem migrateOutputMethod_of_none {stored : StoredOutput} (h : meantMethod stored.outputMethod = none) :
    migrateOutputMethod json stored = stored := by
  rw [migrateOutputMethod, h, Option.elim_none]

theorem meantMethod_automatic : meantMethod OutputMethod.automatic = none := by decide

theorem outputMethod_migrate {stored : StoredOutput} {paste : PasteMethod}
    (h : meantMethod stored.outputMethod = some paste) :
    (migrateOutputMethod json stored).outputMethod = OutputMethod.automatic := by
  rw [migrateOutputMethod, h, Option.elim_some]

/-- **Migrating again changes nothing.** -/
theorem migrateOutputMethod_twice (stored : StoredOutput) :
    migrateOutputMethod json (migrateOutputMethod json stored) = migrateOutputMethod json stored := by
  cases h : meantMethod stored.outputMethod with
  | none => rw [migrateOutputMethod_of_none json h, migrateOutputMethod_of_none json h]
  | some paste =>
    refine migrateOutputMethod_of_none json ?_
    rw [outputMethod_migrate json h, meantMethod_automatic]

/-- **The rules keep their order, their matches and their switches.** -/
theorem pasteRules_migrate (stored : StoredOutput) :
    ((migrateOutputMethod json stored).settings json platform).pasteRules =
      (stored.settings json platform).pasteRules.map (withMethod (migratedMethod stored.outputMethod)) := by
  cases h : meantMethod stored.outputMethod with
  | none =>
    have hsame : withMethod (migratedMethod stored.outputMethod) = id := by
      funext rule
      rw [withMethod, migratedMethod, h, Option.elim_none, id]
    rw [migrateOutputMethod_of_none json h, hsame, List.map_id]
  | some paste =>
    have hnew : migratedMethod stored.outputMethod = replacePaste paste := by
      funext method
      rw [migratedMethod, h, Option.elim_some]
    rw [migrateOutputMethod, h, hnew, Option.elim_some]
    refine pasteRulesFromJson_toJson json ?_ ?_
    · exact fun hnil => pasteRulesFromJson_ne_nil json stored.pasteRules (List.map_eq_nil_iff.mp hnil)
    · intro rule hrule
      obtain ⟨old, hold, rfl⟩ := List.mem_map.mp hrule
      have hold' : Trimmed old := trimmed_of_pasteRulesFromJson json hold
      exact hold'

theorem migratedMethod_clipboardOnly (outputMethod : String) :
    migratedMethod outputMethod .clipboardOnly = .clipboardOnly := by
  rw [migratedMethod]
  cases meantMethod outputMethod with
  | none => rfl
  | some paste => rfl

variable (u : Unicode) (fold : CaseFolding) (lower : LowerCase)

/-- The paste method of a delivery to a target. -/
def targetChoice (settings : OutputSettings) (target : PasteTarget) : PasteChoice :=
  choosePasteMethod (fun rules _ => resolvePasteRule u fold lower rules target) settings target.toTarget

/-- The route of a delivery to a target. -/
def targetRoute (settings : OutputSettings) (target : PasteTarget) : List String :=
  pasteRoute platform settings (targetChoice u fold lower settings target).method

theorem resolvePasteRule_migrate (stored : StoredOutput) (target : PasteTarget) :
    resolvePasteRule u fold lower ((migrateOutputMethod json stored).settings json platform).pasteRules target =
      withMethod (migratedMethod stored.outputMethod)
        (resolvePasteRule u fold lower (stored.settings json platform).pasteRules target) := by
  rw [pasteRules_migrate]
  exact resolvePasteRule_map u fold lower (migratedMethod_clipboardOnly _) _ _

/-- A target that can be tracked is pasted into by its rule, unless it is a secure field. -/
theorem targetChoice_of_trackable {target : PasteTarget} (h : target.trackable = true) (settings : OutputSettings) :
    targetChoice u fold lower settings target =
      ⟨if target.secure then .clipboardOnly else (resolvePasteRule u fold lower settings.pasteRules target).method,
        false⟩ := by
  rw [PasteTarget.trackable] at h
  cases hsecure : target.secure <;> simp [targetChoice, choosePasteMethod, h, hsecure]

/-- **A migration leaves every target its rule, with at most a new method, and its route; a second one changes
nothing.** -/
theorem route_migrates (stored : StoredOutput) (target : PasteTarget) (h : target.trackable = true) :
    resolvePasteRule u fold lower ((migrateOutputMethod json stored).settings json platform).pasteRules target =
        withMethod (migratedMethod stored.outputMethod)
          (resolvePasteRule u fold lower (stored.settings json platform).pasteRules target) ∧
      targetRoute platform u fold lower ((migrateOutputMethod json stored).settings json platform) target =
        targetRoute platform u fold lower (stored.settings json platform) target ∧
      (targetChoice u fold lower ((migrateOutputMethod json stored).settings json platform)
          target).currentFocusFallback =
        (targetChoice u fold lower (stored.settings json platform) target).currentFocusFallback ∧
      migrateOutputMethod json (migrateOutputMethod json stored) = migrateOutputMethod json stored := by
  refine ⟨resolvePasteRule_migrate json platform u fold lower stored target, ?_, ?_,
    migrateOutputMethod_twice json stored⟩
  · rw [targetRoute, targetRoute, targetChoice_of_trackable u fold lower h, targetChoice_of_trackable u fold lower h,
      resolvePasteRule_migrate]
    cases hmeant : meantMethod stored.outputMethod with
    | none =>
      rw [migrateOutputMethod_of_none json hmeant, withMethod, migratedMethod, hmeant, Option.elim_none]
    | some paste =>
      cases target.secure with
      | true => rw [if_pos rfl, if_pos rfl, pasteRoute_clipboardOnly, pasteRoute_clipboardOnly]
      | false =>
        rw [if_neg Bool.false_ne_true, if_neg Bool.false_ne_true, withMethod, migratedMethod, hmeant, Option.elim_some]
        exact pasteRoute_replacePaste platform hmeant rfl _
  · rw [targetChoice_of_trackable u fold lower h, targetChoice_of_trackable u fold lower h]

/-- A terminal the program knows. -/
def terminalTarget : PasteTarget where
  accessible := true
  terminalHost := true

theorem route_migrates_terminal :
    targetRoute .other .basic .ascii .asciiLetters
        ((migrateOutputMethod .compact ⟨"direct_insert", [], false, false⟩).settings .compact .other) terminalTarget =
      targetRoute .other .basic .ascii .asciiLetters
        (StoredOutput.settings .compact .other ⟨"direct_insert", [], false, false⟩) terminalTarget :=
  (route_migrates .compact .other .basic .ascii .asciiLetters _ terminalTarget rfl).2.1

/-- The rule itself is not the one before: a terminal's rule said to paste. -/
theorem terminal_rule_changes :
    resolvePasteRule .basic .ascii .asciiLetters
        ((migrateOutputMethod .compact ⟨"direct_insert", [], false, false⟩).settings .compact .other).pasteRules
        terminalTarget ≠
      resolvePasteRule .basic .ascii .asciiLetters
        (StoredOutput.settings .compact .other ⟨"direct_insert", [], false, false⟩).pasteRules terminalTarget := by
  have hbefore : resolvePasteRule .basic .ascii .asciiLetters
      (StoredOutput.settings .compact .other ⟨"direct_insert", [], false, false⟩).pasteRules terminalTarget =
      ⟨.category, "terminal", .terminalPaste, true⟩ := by
    rfl
  rw [resolvePasteRule_migrate, hbefore]
  decide

end TextDelivery

end Speecher
