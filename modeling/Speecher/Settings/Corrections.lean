import Speecher.Foundations.Json
import Speecher.Bindings.Words

/-!
# Learned corrections

The desktop's `CorrectionSettingsCodec`: what the user corrects in an application after a dictation
is evidence, kept in the settings file until it was seen twice, then learned for that application,
and for every application once another one shows it too. Confidences are the numbers the file
holds, and counts and times do not overflow.

* `load_store`, `loadPending_storePending`: the file gives back what is stored there, as far as it
  is valid.
-/

namespace Speecher

/-- A correction learned for an application, or for every application when that is empty. -/
structure LearnedCorrection where
  id : Text
  original : Text
  corrected : Text
  applicationId : Text
  createdAtMs : ℤ
  confidence : ℚ
  enabled : Bool
  evidenceCount : ℤ
  lastObservedAtMs : ℤ
  deriving DecidableEq

/-- One observed edit: the words as inserted, as corrected, and how sure the diff is of it. -/
structure CorrectionEvidence where
  original : Text
  corrected : Text
  confidence : ℚ
  deriving DecidableEq

/-- An edit seen too few times to learn yet. -/
structure PendingEvidence where
  original : Text
  corrected : Text
  applicationId : Text
  count : ℤ
  firstObservedAtMs : ℤ
  lastObservedAtMs : ℤ
  confidence : ℚ
  deriving DecidableEq

/-- What the settings file holds about corrections; `null` where it holds nothing. -/
structure CorrectionFile where
  learnedCorrections : Json
  correctionEvidence : Json

/-- A file that holds nothing. -/
def CorrectionFile.empty : CorrectionFile := ⟨.null, .null⟩

/-- `qint64` of a number. -/
def truncated (value : ℚ) : ℤ := value.num.tdiv value.den

@[simp] theorem truncated_intCast (n : ℤ) : truncated n = n := by
  simp [truncated]

/-! ## The file -/

def PendingEvidence.toJson (item : PendingEvidence) : Json :=
  .object
    [("original", .string item.original), ("corrected", .string item.corrected),
      ("applicationId", .string item.applicationId), ("count", .number item.count),
      ("firstObservedAtMs", .number item.firstObservedAtMs),
      ("lastObservedAtMs", .number item.lastObservedAtMs), ("confidence", .number item.confidence)]

def PendingEvidence.ofJson (object : Json) : PendingEvidence where
  original := Json.toText (object.value "original")
  corrected := Json.toText (object.value "corrected")
  applicationId := Json.toText (object.value "applicationId")
  count := Json.toInt 0 (object.value "count")
  firstObservedAtMs := truncated (Json.toNumber 0 (object.value "firstObservedAtMs"))
  lastObservedAtMs := truncated (Json.toNumber 0 (object.value "lastObservedAtMs"))
  confidence := Json.toNumber 0 (object.value "confidence")

/-- Evidence the file is read to hold. -/
def PendingEvidence.valid (item : PendingEvidence) : Bool :=
  !item.original.isEmpty && !item.corrected.isEmpty && 0 < item.count

def loadPending (settings : CorrectionFile) : List PendingEvidence :=
  (settings.correctionEvidence.items.map PendingEvidence.ofJson).filter PendingEvidence.valid

def storePending (settings : CorrectionFile) (evidence : List PendingEvidence) : CorrectionFile :=
  { settings with correctionEvidence := .array (evidence.map PendingEvidence.toJson) }

def LearnedCorrection.toJson (correction : LearnedCorrection) : Json :=
  .object
    [("id", .string correction.id), ("original", .string correction.original),
      ("corrected", .string correction.corrected), ("applicationId", .string correction.applicationId),
      ("createdAtMs", .number correction.createdAtMs), ("confidence", .number correction.confidence),
      ("enabled", .bool correction.enabled), ("evidenceCount", .number correction.evidenceCount),
      ("lastObservedAtMs", .number correction.lastObservedAtMs)]

def LearnedCorrection.ofJson (object : Json) : LearnedCorrection :=
  let createdAtMs := truncated (Json.toNumber 0 (object.value "createdAtMs"))
  { id := Json.toText (object.value "id")
    original := Json.toText (object.value "original")
    corrected := Json.toText (object.value "corrected")
    applicationId := Json.toText (object.value "applicationId")
    createdAtMs
    confidence := Json.toNumber 0 (object.value "confidence")
    enabled := Json.toBool true (object.value "enabled")
    evidenceCount := Json.toInt 1 (object.value "evidenceCount")
    lastObservedAtMs := truncated (Json.toNumber createdAtMs (object.value "lastObservedAtMs")) }

/-- A correction the file is read to hold. -/
def LearnedCorrection.valid (correction : LearnedCorrection) : Bool :=
  !correction.id.isEmpty && !(trimmed correction.original).isEmpty && !(trimmed correction.corrected).isEmpty

def load (settings : CorrectionFile) : List LearnedCorrection :=
  (settings.learnedCorrections.items.map LearnedCorrection.ofJson).filter LearnedCorrection.valid

def store (settings : CorrectionFile) (corrections : List LearnedCorrection) : CorrectionFile :=
  { settings with learnedCorrections := .array (corrections.map LearnedCorrection.toJson) }

@[simp] theorem PendingEvidence.ofJson_toJson (item : PendingEvidence) : ofJson item.toJson = item := by
  simp [ofJson, toJson]

@[simp] theorem LearnedCorrection.ofJson_toJson (correction : LearnedCorrection) :
    ofJson correction.toJson = correction := by
  simp [ofJson, toJson]

/-- The file gives back the valid corrections stored in it. -/
theorem load_store (settings : CorrectionFile) (corrections : List LearnedCorrection) :
    load (store settings corrections) = corrections.filter LearnedCorrection.valid := by
  simp [load, store, Function.comp_def]

/-- The file gives back the valid evidence stored in it. -/
theorem loadPending_storePending (settings : CorrectionFile) (evidence : List PendingEvidence) :
    loadPending (storePending settings evidence) = evidence.filter PendingEvidence.valid := by
  simp [loadPending, storePending, Function.comp_def]

theorem load_storePending (settings : CorrectionFile) (evidence : List PendingEvidence) :
    load (storePending settings evidence) = load settings := rfl

theorem loadPending_store (settings : CorrectionFile) (corrections : List LearnedCorrection) :
    loadPending (store settings corrections) = loadPending settings := rfl

/-! ## Evidence -/

/-- How the platform folds a character's case. -/
structure CaseFolding where
  char : Char → Char
  space : ∀ c, isSpace (char c) = isSpace c

/-- The case of ASCII letters folded. -/
def CaseFolding.ascii : CaseFolding where
  char := Char.toLower
  space c := by
    delta Char.toLower
    split
    · rename_i hup
      have hletter : ∀ d : Char, 0x41 ≤ d.toNat → d.toNat ≤ 0x7a → isSpace d = false := by
        intro d h₁ h₂
        simp only [isSpace, Bool.or_eq_false_iff, Bool.and_eq_false_iff, decide_eq_false_iff_not]
        omega
      obtain ⟨h₁, h₂⟩ : 0x41 ≤ c.val.toNat ∧ c.val.toNat ≤ 0x5a := hup
      have hlower : (c.val + 32).toNat = c.val.toNat + 32 := by
        rw [UInt32.toNat_add]
        exact Nat.mod_eq_of_lt (show c.val.toNat + 32 < 2 ^ 32 by omega)
      rw [hletter c h₁ (by show c.val.toNat ≤ _; omega)]
      refine hletter _ ?_ ?_
      · show 0x41 ≤ (c.val + 32).toNat
        omega
      · show (c.val + 32).toNat ≤ 0x7a
        omega
    · rfl

variable (fold : CaseFolding)

/-- `QString::compare` ignoring case. -/
def sameText (left right : Text) : Bool := left.map fold.char = right.map fold.char

/-- The evidence is enough to go by, its texts trimmed. -/
def CorrectionEvidence.usable (evidence : CorrectionEvidence) (applicationId : Text) : Bool :=
  !((trimmed evidence.original).isEmpty || (trimmed evidence.corrected).isEmpty ||
    (trimmed applicationId).isEmpty || trimmed evidence.original = trimmed evidence.corrected ||
    evidence.confidence < 0.65)

/-- The correction is of some words and applies in an application. -/
def LearnedCorrection.inScope (original application : Text) (correction : LearnedCorrection) : Bool :=
  sameText fold correction.original original &&
    (sameText fold correction.applicationId application || correction.applicationId.isEmpty)

/-- The correction is this one, learned in another application. -/
def LearnedCorrection.elsewhere (original corrected application : Text) (correction : LearnedCorrection) : Bool :=
  sameText fold correction.original original && sameText fold correction.corrected corrected &&
    !sameText fold correction.applicationId application

/-- The correction seen once more. -/
def LearnedCorrection.seenAgain (confidence : ℚ) (now : ℤ) (correction : LearnedCorrection) : LearnedCorrection :=
  { correction with
    evidenceCount := correction.evidenceCount + 1
    lastObservedAtMs := now
    confidence := max correction.confidence confidence }

/-- The correction for every application. -/
def LearnedCorrection.widened (correction : LearnedCorrection) : LearnedCorrection :=
  { correction with applicationId := [] }

/-- The evidence is of this edit. -/
def PendingEvidence.sameWords (original corrected : Text) (item : PendingEvidence) : Bool :=
  sameText fold item.original original && sameText fold item.corrected corrected

/-- The evidence is of this edit in this application. -/
def PendingEvidence.sameEdit (original corrected application : Text) (item : PendingEvidence) : Bool :=
  item.sameWords fold original corrected && sameText fold item.applicationId application

/-- The edit seen once more. -/
def PendingEvidence.seenAgain (confidence : ℚ) (now : ℤ) (item : PendingEvidence) : PendingEvidence :=
  { item with count := item.count + 1, lastObservedAtMs := now, confidence := max item.confidence confidence }

/-- The edit of every application. -/
def PendingEvidence.widened (item : PendingEvidence) : PendingEvidence := { item with applicationId := [] }

/-- The pending evidence with an edit counted, and where it stands there. -/
def countEvidence (pending : List PendingEvidence) (original corrected application : Text) (confidence : ℚ)
    (now : ℤ) : List PendingEvidence × ℕ :=
  match pending.findIdx? (PendingEvidence.sameEdit fold original corrected application) with
  | some i => (pending.modify i (PendingEvidence.seenAgain confidence now), i)
  | none =>
    match pending.findIdx? (PendingEvidence.sameWords fold original corrected) with
    | some i =>
      (pending.modify i fun item => item.widened.seenAgain confidence now, i)
    | none => (pending ++ [⟨original, corrected, application, 1, now, now, confidence⟩], pending.length)

/-- A correction learned from evidence. -/
def PendingEvidence.activated (id : Text) (item : PendingEvidence) : LearnedCorrection :=
  ⟨id, item.original, item.corrected, item.applicationId, item.firstObservedAtMs, item.confidence, true,
    item.count, item.lastObservedAtMs⟩

/-- `CorrectionSettingsCodec::recordEvidence` at a time, `newId` naming what it learns: whether a
correction was learned or seen again, and the file. -/
def recordEvidence (settings : CorrectionFile) (evidence : CorrectionEvidence) (applicationId : Text)
    (now : ℤ) (newId : Text) : Bool × CorrectionFile :=
  let original := trimmed evidence.original
  let corrected := trimmed evidence.corrected
  let application := trimmed applicationId
  if !evidence.usable applicationId then (false, settings)
  else
    let corrections := load settings
    match corrections.findIdx? (LearnedCorrection.inScope fold original application) with
    | some i =>
      if (corrections[i]?).any fun c => !sameText fold c.corrected corrected then (false, settings)
      else (true, store settings (corrections.modify i (LearnedCorrection.seenAgain evidence.confidence now)))
    | none =>
      match corrections.findIdx? (LearnedCorrection.elsewhere fold original corrected application) with
      | some i =>
        (true, store settings (corrections.modify i fun c => c.widened.seenAgain evidence.confidence now))
      | none =>
        let counted := countEvidence fold (loadPending settings) original corrected application
          evidence.confidence now
        match counted.1[counted.2]? with
        | none => (false, settings)
        | some matching =>
          if evidence.confidence < 0.9 && matching.count < 2 then (false, storePending settings counted.1)
          else
            (true, store (storePending settings (counted.1.eraseIdx counted.2))
              (matching.activated newId :: corrections))

/-! ## Comparing texts -/

theorem sameText_iff {left right : Text} :
    sameText fold left right = true ↔ left.map fold.char = right.map fold.char :=
  decide_eq_true_iff

theorem sameText_self (a : Text) : sameText fold a a = true := (sameText_iff fold).mpr rfl

theorem sameText_comm (left right : Text) : sameText fold left right = sameText fold right left := by
  rw [Bool.eq_iff_iff, sameText_iff, sameText_iff]
  exact eq_comm

/-- Texts that compare equal are blank alike. -/
theorem trimmed_of_sameText {left right : Text} (h : sameText fold left right = true) :
    trimmed left = [] ↔ trimmed right = [] := by
  have hall : ∀ t : Text, (∀ c ∈ t, isSpace c = true) ↔ ∀ c ∈ t.map fold.char, isSpace c = true := by
    intro t
    simp [fold.space]
  rw [trimmed, trimmed, stripped_eq_nil, stripped_eq_nil, hall left, hall right, (sameText_iff fold).mp h]

end Speecher
