import Mathlib.Algebra.Ring.Int.Defs
import Mathlib.Algebra.Ring.Nat
import Mathlib.Data.Int.Notation
import Mathlib.Data.List.TakeWhile
import Speecher.Foundations.PercentEncoding

/-!
# Links as Java reads them

`Uri.create` takes a link apart, checking the characters of its parts, and `JavaText.parseInt` reads a whole number.
`JavaText` holds the tables that say what these make of text beyond ASCII.

* `Uri.create_server`: a link with a host and a query is taken apart where it was put together.
* `JavaText.parseInt_toDigits`: a number's digits are read as the number.
* `legal_toPercentEncoding`: what percent encoding writes may stand in a link.
-/

namespace Speecher

/-- What Java's text functions know about text beyond ASCII: which characters are digits, which a link may hold, and
what stands for bytes that are not UTF-8. -/
structure JavaText where
  digit : Char → Option ℕ
  isOther : Char → Bool
  garbled : List UInt8 → List Char
  digit_ascii : ∀ c : Char, c.toNat < 128 → digit c = if c.isDigit then some (c.toNat - '0'.toNat) else none

namespace JavaText

/-- The tables without anything beyond ASCII. -/
def ascii : JavaText where
  digit c := if c.isDigit then some (c.toNat - '0'.toNat) else none
  isOther _ := false
  garbled bytes := bytes.map fun _ => '?'
  digit_ascii _ _ := rfl

variable (java : JavaText)

/-- `String(bytes, UTF_8)`. -/
def decode (bytes : List UInt8) : List Char := (utf8Text bytes).getD (java.garbled bytes)

theorem decode_utf8 (text : List Char) : java.decode (utf8 text) = text := by
  rw [decode, utf8Text_utf8, Option.getD_some]

/-! ## Whole numbers -/

/-- The number that digits stand for. -/
def digits (text : List Char) : Option ℕ :=
  if text = [] then none else text.foldlM (fun n c => (java.digit c).map (10 * n + ·)) 0

/-- `Integer.parseInt`: digits, with a sign at will, that stand for a number of 32 bits. -/
def parseInt (text : List Char) : Option ℤ :=
  let value : Option ℤ :=
    match text with
    | '-' :: rest => (java.digits rest).map fun n => -(n : ℤ)
    | '+' :: rest => (java.digits rest).map fun n => (n : ℤ)
    | _ => (java.digits text).map fun n => (n : ℤ)
  value.filter fun n => -2 ^ 31 ≤ n ∧ n < 2 ^ 31

theorem digit_of_isDigit {c : Char} (h : c.isDigit = true) : java.digit c = some (c.toNat - '0'.toNat) := by
  have hlt : c.toNat < 128 := by
    simp only [Char.isDigit, Bool.and_eq_true, decide_eq_true_eq, UInt32.le_iff_toNat_le] at h
    exact Nat.lt_of_le_of_lt h.2 (by decide)
  rw [java.digit_ascii c hlt, if_pos h]

theorem digits_of_isDigit {text : List Char} (hne : text ≠ []) (h : ∀ c ∈ text, c.isDigit = true) :
    java.digits text = some (Nat.ofDigitChars 10 text 0) := by
  have hfold : ∀ start : ℕ, text.foldlM (fun n c => (java.digit c).map (10 * n + ·)) start =
      some (Nat.ofDigitChars 10 text start) := by
    clear hne
    induction text with
    | nil => exact fun _ => congrArg some Nat.ofDigitChars_nil.symm
    | cons c text ih =>
      intro start
      rw [List.foldlM_cons, java.digit_of_isDigit (h c List.mem_cons_self), Nat.ofDigitChars_cons]
      exact ih (fun d hd => h d (List.mem_cons_of_mem c hd)) _
  rw [digits, if_neg hne]
  exact hfold 0

/-- A text with something other than a digit in it is no number. -/
theorem digits_eq_none {text : List Char} {c : Char} (hmem : c ∈ text) (hc : java.digit c = none) :
    java.digits text = none := by
  have hfold : ∀ start : ℕ, text.foldlM (fun n c => (java.digit c).map (10 * n + ·)) start = none := by
    induction text with
    | nil => exact absurd hmem List.not_mem_nil
    | cons d text ih =>
      intro start
      rw [List.foldlM_cons]
      rcases List.mem_cons.mp hmem with rfl | hmem
      · rw [hc]
        rfl
      · cases java.digit d with
        | none => rfl
        | some value => exact ih hmem _
  rw [digits, if_neg (List.ne_nil_of_mem hmem), hfold]

theorem isDigit_of_mem_toDigits {n : ℕ} : ∀ c ∈ Nat.toDigits 10 n, c.isDigit = true := fun _ hc =>
  Nat.isDigit_of_mem_toDigits (by decide) (by decide) hc

theorem digits_toDigits (n : ℕ) : java.digits (Nat.toDigits 10 n) = some n := by
  rw [java.digits_of_isDigit Nat.toDigits_ne_nil isDigit_of_mem_toDigits, Nat.ofDigitChars_ten_toDigits]

/-- Text with no sign is read by its digits. -/
theorem parseInt_of_head {c : Char} (hminus : c ≠ '-') (hplus : c ≠ '+') (text : List Char) :
    java.parseInt (c :: text) = ((java.digits (c :: text)).map fun n : ℕ => (n : ℤ)).filter
      fun n => -2 ^ 31 ≤ n ∧ n < 2 ^ 31 := by
  rw [parseInt]
  · cases java.digits (c :: text) <;> rfl
  · exact fun rest heq => hminus (List.cons.inj heq).1
  · exact fun rest heq => hplus (List.cons.inj heq).1

/-- **A number's digits are read as the number, unless it is beyond 32 bits.** -/
theorem parseInt_natDigits (n : ℕ) :
    java.parseInt (Nat.toDigits 10 n) = if n < 2 ^ 31 then some (n : ℤ) else none := by
  have hread := java.digits_toDigits n
  obtain ⟨c, text, htext⟩ := List.exists_cons_of_ne_nil (Nat.toDigits_ne_nil (n := n) (b := 10))
  have hc : c.isDigit = true := isDigit_of_mem_toDigits (n := n) c (by rw [htext]; exact List.mem_cons_self)
  rw [htext] at hread ⊢
  rw [java.parseInt_of_head (by rintro rfl; exact absurd hc (by decide)) (by rintro rfl; exact absurd hc (by decide)),
    hread, Option.map_some, Option.filter_some]
  by_cases h : n < 2 ^ 31
  · rw [if_pos h, if_pos (by simp only [decide_eq_true_eq]; omega)]
  · rw [if_neg h, if_neg (by simp only [decide_eq_true_eq]; omega)]

/-- A number of 32 bits is read as itself. -/
theorem parseInt_toDigits {n : ℕ} (h : n < 2 ^ 31) : java.parseInt (Nat.toDigits 10 n) = some (n : ℤ) := by
  rw [java.parseInt_natDigits, if_pos h]

end JavaText

/-! ## Links -/

/-- The parts of a link that stand for a server. -/
structure Uri where
  scheme : List Char
  host : Option (List Char)
  rawQuery : Option (List Char)

/-- Text of characters that may stand there and of whole escapes. -/
def legal (p : Char → Bool) : List Char → Bool
  | [] => true
  | '%' :: a :: b :: rest => (hexValue a).isSome && (hexValue b).isSome && legal p rest
  | '%' :: _ => false
  | c :: rest => p c && legal p rest

def isLabelChar (c : Char) : Bool := c.isAlphanum || c = '-'

/-- A name of labels with dots between them, the rightmost of several starting with a letter. -/
def isHostname (host : List Char) : Bool :=
  let labels := host.splitOn '.'
  labels.all (fun label =>
      label.head?.any Char.isAlphanum && label.getLast?.any Char.isAlphanum && label.all isLabelChar) &&
    (labels.length ≤ 1 || (labels.getLast?.bind List.head?).any Char.isAlpha)

namespace Uri

variable (java : JavaText)

def isSchemeChar (c : Char) : Bool := c.isAlphanum || c = '+' || c = '-' || c = '.'

/-- A character that may stand in a link beside the escapes. -/
def isUriChar (c : Char) : Bool :=
  c.isAlphanum || "_-!.~'()*;/?:@&=+$,[]".toList.contains c || (128 ≤ c.toNat && java.isOther c)

/-- The host's name in an authority, after the user and before the port. A host given as a number, and one that is no
name, reads as none. -/
def hostOf (authority : List Char) : Option (List Char) :=
  let server := if '@' ∈ authority then (authority.dropWhile (· ≠ '@')).drop 1 else authority
  let host := server.takeWhile (· ≠ ':')
  if isHostname host ∧ ((server.dropWhile (· ≠ ':')).drop 1).all Char.isDigit then some host else none

/-- The link's parts, when it has a scheme and an authority and its characters may stand where they do. -/
def create (text : List Char) : Option Uri :=
  let scheme := text.takeWhile (!":/?#".toList.contains ·)
  let afterScheme := (text.dropWhile (!":/?#".toList.contains ·))
  let rest := afterScheme.drop 3
  let authority := rest.takeWhile (!"/?#".toList.contains ·)
  let afterAuthority := rest.dropWhile (!"/?#".toList.contains ·)
  let path := afterAuthority.takeWhile (!"?#".toList.contains ·)
  let afterPath := afterAuthority.dropWhile (!"?#".toList.contains ·)
  let query := (afterPath.drop 1).takeWhile (· ≠ '#')
  let fragment := (afterPath.dropWhile (· ≠ '#')).drop 1
  if afterScheme.take 3 = "://".toList ∧ scheme.head?.any Char.isAlpha ∧ scheme.all isSchemeChar ∧
      legal (isUriChar java) authority ∧ legal (isUriChar java) path ∧ legal (isUriChar java) fragment then
    if afterPath.head? = some '?' then
      if legal (isUriChar java) query then some ⟨scheme, hostOf authority, some query⟩ else none
    else some ⟨scheme, hostOf authority, none⟩
  else none

end Uri

/-! ## Taking a link apart -/

section Legal

variable {p : Char → Bool}

theorem legal_cons {c : Char} (h : c ≠ '%') (rest : List Char) : legal p (c :: rest) = (p c && legal p rest) := by
  rw [legal]
  · exact fun _ _ _ heq _ => h heq
  · exact h

theorem legal_append {text : List Char} (h : ∀ c ∈ text, p c = true ∧ c ≠ '%') (rest : List Char) :
    legal p (text ++ rest) = legal p rest := by
  induction text with
  | nil => rfl
  | cons c text ih =>
    have hc := h c List.mem_cons_self
    rw [List.cons_append, legal_cons hc.2, hc.1, Bool.true_and, ih fun d hd => h d (List.mem_cons_of_mem c hd)]

theorem legal_append_of_legal {text : List Char} (h : legal p text = true) (rest : List Char) :
    legal p (text ++ rest) = legal p rest := by
  induction text using legal.induct with
  | case1 => rfl
  | case2 a b text ih =>
    rw [legal, Bool.and_eq_true, Bool.and_eq_true] at h
    rw [List.cons_append, List.cons_append, List.cons_append, legal, h.1.1, h.1.2, ih h.2]
    rfl
  | case3 text hescape =>
    rw [legal] at h
    · exact absurd h Bool.false_ne_true
    · exact hescape
  | case4 c text hescape hpercent ih =>
    rw [legal_cons hpercent, Bool.and_eq_true] at h
    rw [List.cons_append, legal_cons hpercent, h.1, ih h.2, Bool.true_and]

/-- Legal parts with a legal character between one and the next. -/
theorem legal_intercalate {separator : Char} (hseparator : p separator = true) (hpercent : separator ≠ '%') :
    ∀ {parts : List (List Char)}, (∀ part ∈ parts, legal p part = true) → legal p ([separator].intercalate parts) = true
  | [], _ => rfl
  | [part], h => by
    rw [List.intercalate_singleton]
    exact h part List.mem_cons_self
  | part :: next :: parts, h => by
    rw [List.intercalate_cons_cons, List.append_assoc, legal_append_of_legal (h part List.mem_cons_self),
      List.singleton_append, legal_cons hpercent, hseparator,
      legal_intercalate hseparator hpercent fun part' hpart' => h part' (List.mem_cons_of_mem part hpart')]
    rfl

theorem legal_of_forall {text : List Char} (h : ∀ c ∈ text, p c = true ∧ c ≠ '%') : legal p text = true := by
  simpa [legal] using legal_append h []

theorem legal_percentByte (b : UInt8) (rest : List Char) : legal p (percentByte b ++ rest) = legal p rest := by
  have hlt := b.toNat_lt
  rw [percentByte, List.cons_append, List.cons_append, List.cons_append, List.nil_append, legal,
    hexValue_hexDigit _ (by omega), hexValue_hexDigit _ (by omega)]
  rfl

/-- **Percent encoding writes text a link may hold.** -/
theorem legal_toPercentEncoding (h : ∀ c, isUnreserved c = true → p c = true) (text rest : List Char) :
    legal p (toPercentEncoding text ++ rest) = legal p rest := by
  rw [toPercentEncoding]
  induction utf8 text with
  | nil => rfl
  | cons b bytes ih =>
    rw [List.flatMap_cons, List.append_assoc, percentEncoded]
    split_ifs with hb
    · refine (legal_append (fun c hc => ?_) _).trans ih
      obtain rfl := List.mem_singleton.mp hc
      refine ⟨h _ hb, ?_⟩
      rintro heq
      rw [heq] at hb
      exact absurd hb (by decide)
    · rw [legal_percentByte, ih]

end Legal

/-- Only unreserved characters and `%` are written. -/
theorem mem_toPercentEncoding {text : List Char} : ∀ c ∈ toPercentEncoding text, isUnreserved c = true ∨ c = '%' := by
  intro c hc
  obtain ⟨b, -, hc⟩ := List.mem_flatMap.mp hc
  rw [percentEncoded] at hc
  split_ifs at hc with hb
  · rw [List.mem_singleton.mp hc]
    exact .inl hb
  · have hlt := b.toNat_lt
    have hdigit : ∀ n < 16, isUnreserved (hexDigit n) = true := by decide
    rcases List.mem_cons.mp hc with rfl | hc
    · exact .inr rfl
    rcases List.mem_cons.mp hc with rfl | hc
    · exact .inl (hdigit _ (by omega))
    · rw [List.mem_singleton.mp hc]
      exact .inl (hdigit _ (by omega))

namespace Uri

variable (java : JavaText)

theorem not_contains {p : Char → Bool} {stops : List Char} (h : stops.any p = false) {c : Char} (hc : p c = true) :
    (!stops.contains c) = true := by
  rw [Bool.not_eq_true', ← Bool.not_eq_true, List.contains_iff_mem]
  intro hmem
  exact absurd (List.any_eq_true.mpr ⟨c, hmem, hc⟩) (ne_true_of_eq_false h)

/-- **A link to a host is taken apart where it was put together.** -/
theorem create_server {scheme host query : List Char} (hscheme : scheme.head?.any Char.isAlpha = true)
    (hchars : ∀ c ∈ scheme, isSchemeChar c = true) (hhost : isHostname host = true)
    (hlabels : ∀ c ∈ host, isLabelChar c = true ∨ c = '.') (hquery : legal (isUriChar java) query = true)
    (hmark : '#' ∉ query) :
    create java (scheme ++ "://".toList ++ host ++ '?' :: query) = some ⟨scheme, some host, some query⟩ := by
  have hschemeStops : ∀ c ∈ scheme, (!":/?#".toList.contains c) = true := fun c hc =>
    not_contains (p := isSchemeChar) (by decide) (hchars c hc)
  have hlabel : ∀ c ∈ host, (isLabelChar c || c = '.') = true := fun c hc => by
    simpa using hlabels c hc
  have hhostStops : ∀ c ∈ host, (!"/?#".toList.contains c) = true := fun c hc =>
    not_contains (p := fun c => isLabelChar c || c = '.') (by decide) (hlabel c hc)
  have hhostEnds : ∀ c ∈ host, (!":@".toList.contains c) = true := fun c hc =>
    not_contains (p := fun c => isLabelChar c || c = '.') (by decide) (hlabel c hc)
  have hhostLegal : legal (isUriChar java) host = true := legal_of_forall fun c hc => by
    have hkept : isUriChar java c = true := by
      rcases hlabels c hc with h | rfl
      · simp only [isLabelChar, Bool.or_eq_true, decide_eq_true_eq] at h
        rcases h with h | rfl
        · simp [isUriChar, h]
        · rfl
      · rfl
    refine ⟨hkept, ?_⟩
    rintro rfl
    exact absurd (hlabel '%' hc) (by decide)
  have hhostOf : hostOf host = some host := by
    have huser : '@' ∉ host := fun hmem => absurd (hhostEnds '@' hmem) (by decide)
    have hport : ∀ c ∈ host, decide (c ≠ ':') = true := fun c hc => by
      rw [decide_eq_true_eq]
      rintro rfl
      exact absurd (hhostEnds ':' hc) (by decide)
    rw [hostOf, if_neg huser, List.takeWhile_eq_self_iff.mpr hport, List.dropWhile_eq_nil_iff.mpr hport]
    exact if_pos ⟨hhost, rfl⟩
  rw [List.append_assoc, List.append_assoc]
  have hrest : ("://".toList ++ (host ++ '?' :: query)) = ':' :: '/' :: '/' :: (host ++ '?' :: query) := rfl
  rw [create, List.takeWhile_append_of_pos hschemeStops, List.dropWhile_append_of_pos hschemeStops, hrest,
    List.takeWhile_cons_of_neg (by decide), List.dropWhile_cons_of_neg (by decide), List.append_nil]
  simp only [List.drop_succ_cons, List.drop_zero]
  rw [List.takeWhile_append_of_pos hhostStops, List.dropWhile_append_of_pos hhostStops,
    List.takeWhile_cons_of_neg (by decide), List.dropWhile_cons_of_neg (by decide), List.append_nil]
  have hwhole : ∀ c ∈ query, decide (c ≠ '#') = true := fun c hc =>
    decide_eq_true (ne_of_mem_of_not_mem hc hmark)
  have hfragment : ('?' :: query).dropWhile (· ≠ '#') = [] :=
    List.dropWhile_eq_nil_iff.mpr (List.forall_mem_cons.mpr ⟨rfl, hwhole⟩)
  rw [List.takeWhile_cons_of_neg (by decide), List.dropWhile_cons_of_neg (by decide), hfragment, List.drop_succ_cons,
    List.drop_zero, List.takeWhile_eq_self_iff.mpr hwhole, hhostOf]
  rw [if_pos ⟨rfl, hscheme, List.all_eq_true.mpr hchars, hhostLegal, rfl, rfl⟩, List.head?_cons, if_pos rfl,
    if_pos hquery]

end Uri

end Speecher
