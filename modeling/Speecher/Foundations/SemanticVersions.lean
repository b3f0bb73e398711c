import Mathlib.Data.Char
import Mathlib.Data.List.Lex
import Mathlib.Data.Prod.Lex
import Mathlib.Data.Sum.Order
import Mathlib.Order.WithBot
import Mathlib.Order.Compare
import Speecher.Foundations.Blocks

/-!
# Semantic versions

Versions of three numbers, a prerelease of dotted identifiers and build metadata, and their precedence: by the numbers,
a prerelease below its release, prereleases identifier by identifier. A number's identifier comes before any other,
numbers are ordered as numbers and the others as texts, and the shorter of two prereleases comes first where they agree.
The build metadata counts for nothing.

* `rank`: precedence, as the order of a product.
* `FirstDiff`: what holds at the first place where two lists differ.
-/

namespace Speecher

/-! ## Comparing place by place -/

section Compare

variable {α β : Type*} [LinearOrder α] [LinearOrder β]

theorem then_of_ne_eq {o : Ordering} (h : o ≠ .eq) (o' : Ordering) : o.then o' = o := by
  cases o with
  | lt => rfl
  | eq => exact absurd rfl h
  | gt => rfl

/-- How one value stands to another. -/
def compareTo (a b : α) : Ordering := cmp a b

@[simp] theorem compareTo_self (a : α) : compareTo a a = .eq := cmp_self_eq_eq a

theorem compareTo_eq_lt {a b : α} : compareTo a b = .lt ↔ a < b := cmp_eq_lt_iff a b

theorem compareTo_eq_gt {a b : α} : compareTo a b = .gt ↔ b < a := cmp_eq_gt_iff a b

theorem compareTo_eq_eq {a b : α} : compareTo a b = .eq ↔ a = b := cmp_eq_eq_iff a b

theorem compareTo_swap (a b : α) : (compareTo a b).swap = compareTo b a := cmp_swap a b

/-- Pairs are compared by their first parts, and then by the second. -/
theorem compareTo_toLex (a c : α) (b d : β) :
    compareTo (toLex (a, b)) (toLex (c, d)) = (compareTo a c).then (compareTo b d) := by
  rcases lt_trichotomy a c with h | rfl | h
  · rw [compareTo_eq_lt.mpr h, compareTo_eq_lt.mpr (Prod.Lex.toLex_lt_toLex.mpr (.inl h))]
    rfl
  · rw [compareTo_self]
    rcases lt_trichotomy b d with h | rfl | h
    · rw [compareTo_eq_lt.mpr h, compareTo_eq_lt.mpr (Prod.Lex.toLex_lt_toLex.mpr (.inr ⟨Eq.refl a, h⟩))]
      rfl
    · rw [compareTo_self, compareTo_self]
      rfl
    · rw [compareTo_eq_gt.mpr h, compareTo_eq_gt.mpr (Prod.Lex.toLex_lt_toLex.mpr (.inr ⟨Eq.refl a, h⟩))]
      rfl
  · rw [compareTo_eq_gt.mpr h, compareTo_eq_gt.mpr (Prod.Lex.toLex_lt_toLex.mpr (.inl h))]
    rfl

/-- The first place at which two lists are not alike decides, and the shorter list comes first where they are. -/
def placewise {γ : Type*} (compare : γ → γ → Ordering) : List γ → List γ → Ordering
  | x :: xs, y :: ys => (compare x y).then (placewise compare xs ys)
  | [], [] => .eq
  | [], _ :: _ => .lt
  | _ :: _, [] => .gt

theorem placewise_map {γ δ : Type*} (compare : γ → γ → Ordering) (f : δ → γ) : ∀ xs ys : List δ,
    placewise compare (xs.map f) (ys.map f) = placewise (fun x y => compare (f x) (f y)) xs ys
  | [], [] => rfl
  | [], _ :: _ => rfl
  | _ :: _, [] => rfl
  | x :: xs, y :: ys => by
    rw [List.map_cons, List.map_cons, placewise, placewise, placewise_map compare f xs ys]

/-- Lists are compared place by place. -/
theorem compareTo_list : ∀ xs ys : List α, compareTo xs ys = placewise compareTo xs ys
  | [], [] => compareTo_self []
  | [], y :: ys => compareTo_eq_lt.mpr (List.nil_lt_cons y ys)
  | x :: xs, [] => compareTo_eq_gt.mpr (List.nil_lt_cons x xs)
  | x :: xs, y :: ys => by
    rw [placewise, ← compareTo_list xs ys]
    rcases lt_trichotomy x y with h | rfl | h
    · rw [compareTo_eq_lt.mpr h, compareTo_eq_lt.mpr (List.cons_lt_cons_iff.mpr (.inl h))]
      rfl
    · rw [compareTo_self]
      rcases lt_trichotomy xs ys with h | rfl | h
      · rw [compareTo_eq_lt.mpr h, compareTo_eq_lt.mpr (List.cons_lt_cons_iff.mpr (.inr ⟨rfl, h⟩))]
        rfl
      · rw [compareTo_self, compareTo_self]
        rfl
      · rw [compareTo_eq_gt.mpr h, compareTo_eq_gt.mpr (List.cons_lt_cons_iff.mpr (.inr ⟨rfl, h⟩))]
        rfl
    · rw [compareTo_eq_gt.mpr h, compareTo_eq_gt.mpr (List.cons_lt_cons_iff.mpr (.inl h))]
      rfl

end Compare

section FirstDiff

variable {α : Type*}

/-- `P` holds of the two values at the first place where the lists differ. -/
def FirstDiff (P : α → α → Prop) : List α → List α → Prop
  | x :: xs, y :: ys => (x ≠ y → P x y) ∧ (x = y → FirstDiff P xs ys)
  | _, _ => True

theorem FirstDiff.mono {P Q : α → α → Prop} (h : ∀ x y, x ≠ y → P x y → Q x y) :
    ∀ {xs ys : List α}, FirstDiff P xs ys → FirstDiff Q xs ys
  | x :: _, y :: _, hd => ⟨fun hne => h x y hne (hd.1 hne), fun heq => (hd.2 heq).mono h⟩
  | [], _, _ => trivial
  | _ :: _, [], _ => trivial

variable {read order : α → α → Ordering} (hread : ∀ x, read x x = .eq) (horder : ∀ x y, order x y = .eq ↔ x = y)

include hread horder

/-- **Where no two values that differ are read as alike, two lists are in the same order as read exactly when they are
at the first place where they differ.** -/
theorem placewise_eq_iff : ∀ {xs ys : List α}, FirstDiff (fun x y => read x y ≠ .eq) xs ys →
    (placewise read xs ys = placewise order xs ys ↔ FirstDiff (fun x y => read x y = order x y) xs ys)
  | [], [], _ => ⟨fun _ => trivial, fun _ => rfl⟩
  | [], _ :: _, _ => ⟨fun _ => trivial, fun _ => rfl⟩
  | _ :: _, [], _ => ⟨fun _ => trivial, fun _ => rfl⟩
  | x :: xs, y :: ys, h => by
    rw [placewise, placewise, FirstDiff]
    by_cases heq : x = y
    · subst heq
      rw [hread, (horder x x).mpr rfl, Ordering.eq_then, Ordering.eq_then, placewise_eq_iff (h.2 rfl)]
      exact ⟨fun hd => ⟨fun hne => absurd rfl hne, fun _ => hd⟩, fun hd => hd.2 rfl⟩
    · have hne : order x y ≠ .eq := fun ho => heq ((horder x y).mp ho)
      rw [then_of_ne_eq (h.1 heq), then_of_ne_eq hne]
      exact ⟨fun hsame => ⟨fun _ => hsame, fun he => absurd he heq⟩, fun hd => hd.1 heq⟩

/-- Lists that are read in order at the first place where they differ are read in order. -/
theorem placewise_eq {xs ys : List α} (h : FirstDiff (fun x y => read x y = order x y) xs ys) :
    placewise read xs ys = placewise order xs ys := by
  refine (placewise_eq_iff hread horder (h.mono fun x y hne hsame => ?_)).mpr h
  rw [hsame]
  exact fun ho => hne ((horder x y).mp ho)

end FirstDiff

/-! ## Versions -/

/-- An identifier that is no number: letters, digits and hyphens, not digits alone. -/
structure VersionWord where
  text : List Char
  chars : text.all (fun c => c.isAlphanum || c = '-') = true
  nondigit : text.any (!·.isDigit) = true
  deriving DecidableEq

inductive VersionIdentifier
  | number (n : ℕ)
  | word (w : VersionWord)
  deriving DecidableEq

namespace VersionIdentifier

/-- How an identifier is written: a number without zeros before it. -/
def text : VersionIdentifier → List Char
  | number n => Nat.toDigits 10 n
  | word w => w.text

/-- The place of an identifier among all: the numbers, then the other texts. -/
def rank : VersionIdentifier → ℕ ⊕ₗ List Char
  | number n => toLex (.inl n)
  | word w => toLex (.inr w.text)

theorem rank_injective {x y : VersionIdentifier} (h : x.rank = y.rank) : x = y := by
  cases x with
  | number n =>
    cases y with
    | number m => exact congrArg number (Sum.inl.inj h)
    | word w => exact nomatch h
  | word v =>
    cases y with
    | number m => exact nomatch h
    | word w =>
      obtain ⟨v, hv, hv'⟩ := v
      obtain ⟨w, hw, hw'⟩ := w
      have hsame : v = w := Sum.inr.inj h
      subst hsame
      rfl

end VersionIdentifier

/-- A semantic version. -/
structure SemanticVersion where
  /-- Written with a `v` before it. -/
  leadingV : Bool := false
  major : ℕ
  minor : ℕ
  patch : ℕ
  /-- No identifiers are a release. -/
  prerelease : List VersionIdentifier := []
  build : Option (List Char) := none

namespace SemanticVersion

def numbers (v : SemanticVersion) : List ℕ := [v.major, v.minor, v.patch]

def coreText (v : SemanticVersion) : List Char := ['.'].intercalate (v.numbers.map (Nat.toDigits 10))

def prereleaseText (v : SemanticVersion) : List Char :=
  if v.prerelease = [] then [] else '-' :: ['.'].intercalate (v.prerelease.map VersionIdentifier.text)

def text (v : SemanticVersion) : List Char :=
  (if v.leadingV then ['v'] else []) ++ (v.coreText ++ v.prereleaseText) ++ v.build.elim [] ('+' :: ·)

/-- A release is above all its prereleases. -/
def prereleaseRank (v : SemanticVersion) : WithTop (List (ℕ ⊕ₗ List Char)) :=
  if v.prerelease = [] then ⊤ else (v.prerelease.map VersionIdentifier.rank : List (ℕ ⊕ₗ List Char))

/-- Precedence. -/
def rank (v : SemanticVersion) : ℕ ×ₗ ℕ ×ₗ ℕ ×ₗ WithTop (List (ℕ ⊕ₗ List Char)) :=
  toLex (v.major, toLex (v.minor, toLex (v.patch, v.prereleaseRank)))

end SemanticVersion

/-! ## The places of a version -/

/-- What stands at one place of a version. -/
inductive VersionPlace
  | number (n : ℕ)
  | identifier (x : VersionIdentifier)
  /-- The end of a release, above every identifier. -/
  | release

namespace VersionPlace

def rank : VersionPlace → ℕ ⊕ₗ WithTop (ℕ ⊕ₗ List Char)
  | number n => toLex (.inl n)
  | identifier x => toLex (.inr x.rank)
  | release => toLex (.inr ⊤)

/-- How one place stands to another. -/
def order (x y : VersionPlace) : Ordering := compareTo x.rank y.rank

theorem rank_injective {x y : VersionPlace} (h : x.rank = y.rank) : x = y := by
  cases x with
  | number n =>
    cases y with
    | number m => exact congrArg number (Sum.inl.inj h)
    | identifier y => exact absurd h Sum.inl_ne_inr
    | release => exact absurd h Sum.inl_ne_inr
  | identifier x =>
    cases y with
    | number m => exact absurd h Sum.inr_ne_inl
    | identifier y =>
      exact congrArg identifier (VersionIdentifier.rank_injective (WithTop.coe_injective (Sum.inr.inj h)))
    | release => exact absurd (Sum.inr.inj h) (WithTop.coe_ne_top)
  | release =>
    cases y with
    | number m => exact absurd h Sum.inr_ne_inl
    | identifier y => exact absurd (Sum.inr.inj h).symm (WithTop.coe_ne_top)
    | release => rfl

theorem order_eq {x y : VersionPlace} : order x y = .eq ↔ x = y :=
  compareTo_eq_eq.trans ⟨rank_injective, fun h => congrArg rank h⟩

theorem order_number (n m : ℕ) : order (number n) (number m) = compareTo n m :=
  Sum.Lex.inl_strictMono.cmp_map_eq n m

theorem order_identifier (x y : VersionIdentifier) :
    order (identifier x) (identifier y) = compareTo x.rank y.rank :=
  (Sum.Lex.inr_strictMono.cmp_map_eq (x.rank : WithTop (ℕ ⊕ₗ List Char)) y.rank).trans
    (WithTop.coe_strictMono.cmp_map_eq x.rank y.rank)

theorem order_release_identifier (x : VersionIdentifier) : order release (identifier x) = .gt :=
  compareTo_eq_gt.mpr (Sum.Lex.inr_strictMono (WithTop.coe_lt_top x.rank))

theorem order_identifier_release (x : VersionIdentifier) : order (identifier x) release = .lt :=
  compareTo_eq_lt.mpr (Sum.Lex.inr_strictMono (WithTop.coe_lt_top x.rank))

end VersionPlace

namespace SemanticVersion

open VersionPlace

/-- The numbers of a version, and then its identifiers or the end of the release. -/
def places (v : SemanticVersion) : List VersionPlace :=
  v.numbers.map .number ++ if v.prerelease = [] then [.release] else v.prerelease.map .identifier

theorem compareTo_prereleaseRank (l r : SemanticVersion) :
    compareTo l.prereleaseRank r.prereleaseRank =
      placewise order (if l.prerelease = [] then [.release] else l.prerelease.map .identifier)
        (if r.prerelease = [] then [.release] else r.prerelease.map .identifier) := by
  rw [prereleaseRank, prereleaseRank]
  cases hl : l.prerelease with
  | nil =>
    cases hr : r.prerelease with
    | nil =>
      rw [if_pos rfl, if_pos rfl, compareTo_self]
      rfl
    | cons y ys =>
      rw [if_pos rfl, if_neg (List.cons_ne_nil y ys), compareTo_eq_gt.mpr (WithTop.coe_lt_top _)]
      exact (congrArg (Ordering.then · _) (order_release_identifier y)).symm
  | cons x xs =>
    cases hr : r.prerelease with
    | nil =>
      rw [if_pos rfl, if_neg (List.cons_ne_nil x xs), compareTo_eq_lt.mpr (WithTop.coe_lt_top _)]
      exact (congrArg (Ordering.then · _) (order_identifier_release x)).symm
    | cons y ys =>
      have hcoe : compareTo (((x :: xs).map VersionIdentifier.rank : List _) : WithTop (List (ℕ ⊕ₗ List Char)))
          ((y :: ys).map VersionIdentifier.rank : List _) =
          compareTo ((x :: xs).map VersionIdentifier.rank) ((y :: ys).map VersionIdentifier.rank) :=
        WithTop.coe_strictMono.cmp_map_eq _ _
      rw [if_neg (List.cons_ne_nil x xs), if_neg (List.cons_ne_nil y ys), if_neg (List.cons_ne_nil x xs),
        if_neg (List.cons_ne_nil y ys), hcoe, compareTo_list, placewise_map, placewise_map]
      exact congrArg (placewise · _ _) (funext fun x => funext fun y => (order_identifier x y).symm)

/-- **Precedence goes by the first place at which two versions differ.** -/
theorem compareTo_rank (l r : SemanticVersion) : compareTo l.rank r.rank = placewise order l.places r.places := by
  rw [rank, rank, compareTo_toLex, compareTo_toLex, compareTo_toLex, compareTo_prereleaseRank, ← order_number,
    ← order_number, ← order_number]
  rfl

end SemanticVersion

end Speecher
