import Mathlib.Algebra.Ring.Nat
import Speecher.Bindings.Words
import Speecher.Foundations.ArgText
import Speecher.Foundations.Base64
import Speecher.Foundations.Blocks
import Speecher.Foundations.Uri

/-!
# The link of a settings transfer

A computer offers its dictation settings to a phone by a code that holds a link: where the computer listens, the token
that gets the settings once, the key they are sealed with and the computer's name. `phoneTransferLink` writes the link
and `parseImportLink` reads it.

* `isSiteLocalAddress_eq`: the two sides take the same addresses for private ones.
* `parseImportLink_phoneTransferLink`: the phone reads what the computer wrote.
-/

namespace Speecher

/-! ## Addresses -/

/-- An IPv4 address. -/
structure Inet4Address where
  first : UInt8
  second : UInt8
  third : UInt8
  fourth : UInt8
  deriving DecidableEq

namespace Inet4Address

def octets (address : Inet4Address) : List UInt8 := [address.first, address.second, address.third, address.fourth]

/-- The address as a number. -/
def toIPv4Address (address : Inet4Address) : ℕ :=
  ((address.first.toNat * 256 + address.second.toNat) * 256 + address.third.toNat) * 256 + address.fourth.toNat

/-- The octets as numbers with a dot between one and the next. -/
def toText (address : Inet4Address) : Text :=
  ['.'].intercalate (address.octets.map fun octet => Nat.toDigits 10 octet.toNat)

def isInSubnet (address : Inet4Address) (subnet : Inet4Address) (netmask : ℕ) : Bool :=
  address.toIPv4Address / 2 ^ (32 - netmask) = subnet.toIPv4Address / 2 ^ (32 - netmask)

/-- An address whose subnet is one of RFC 1918's, as the computer checks it. -/
def isPrivateIPv4 (address : Inet4Address) : Bool :=
  [((⟨10, 0, 0, 0⟩ : Inet4Address), 8), (⟨172, 16, 0, 0⟩, 12), (⟨192, 168, 0, 0⟩, 16)].any fun range =>
    address.isInSubnet range.1 range.2

/-- The same as Java checks it, octet by octet. -/
def isSiteLocalAddress (address : Inet4Address) : Bool :=
  address.first = 10 || (address.first = 172 && address.second &&& 0xF0 = 16) ||
    (address.first = 192 && address.second = 168)

end Inet4Address

/-! ## The computer's link -/

def kFormat : ℕ := 1
def kTokenSize : ℕ := 16
def kKeySize : ℕ := 32

def base64Url (bytes : List UInt8) : Text := toBase64Url bytes

def phoneTransferLink (addresses : List Text) (port : UInt16) (token key : List UInt8) (computerName : Text) : Text :=
  let version := arg [Nat.toDigits 10 kFormat] "speecher://import?v=%1&a=%2&p=%3&t=%4&k=%5&n=%6".toList
  let located := arg [Nat.toDigits 10 port.toNat] (arg [[','].intercalate addresses] version)
  arg [base64Url token, base64Url key, toPercentEncoding computerName] located

/-! ## The phone's reading -/

/-- Why a code is not taken: it is not one of Speecher's, or of another version of it. -/
inductive ImportFailure
  | notSpeecherCode
  | otherVersion
  deriving DecidableEq

structure ImportLink where
  addresses : List Inet4Address
  port : ℤ
  token : List UInt8
  key : List UInt8
  computer : Text
  deriving DecidableEq

def MAX_ADDRESSES : ℕ := 4
def TOKEN_BYTES : ℕ := 16
def KEY_BYTES : ℕ := 32

section Reading

variable (java : JavaText)

/-- One to three digits. -/
def isOctetText (text : Text) : Bool :=
  1 ≤ text.length && text.length ≤ 3 && text.all fun c => (java.digit c).isSome

/-- A private address read from numbers only: four of them with dots between. -/
def privateAddress (text : Text) : Option Inet4Address :=
  match text.splitOn '.' with
  | [first, second, third, fourth] =>
    if [first, second, third, fourth].all (isOctetText java) then
      ([first, second, third, fourth].mapM java.parseInt).bind fun
        | [a, b, c, d] =>
          let address : Inet4Address :=
            ⟨UInt8.ofNat a.toNat, UInt8.ofNat b.toNat, UInt8.ofNat c.toNat, UInt8.ofNat d.toNat⟩
          if [a, b, c, d].all (· ≤ 255) ∧ address.isSiteLocalAddress then some address else none
        | _ => none
    else none
  | _ => none

/-- The fields of a query by their keys, a later field of a key in place of an earlier one, unless one is not encoded
as it has to be. -/
def queryFields (rawQuery : Text) : Option (List (Text × Text)) :=
  (rawQuery.splitOn '&').mapM fun field =>
    (decodeForm java.decode ((field.dropWhile (· ≠ '=')).drop 1)).map fun value => (field.takeWhile (· ≠ '='), value)

/-- What a code is not Speecher's without. -/
def required {α : Type} (value : Option α) : Except ImportFailure α := value.elim (.error .notSpeecherCode) .ok

def require (holds : Bool) : Except ImportFailure Unit := if holds then .ok () else .error .notSpeecherCode

@[simp] theorem required_some_bind {α β : Type} (a : α) (f : α → Except ImportFailure β) : (required (some a) >>= f) = f a :=
  rfl

@[simp] theorem require_true_bind {β : Type} (f : Unit → Except ImportFailure β) : (require true >>= f) = f () := rfl

/-- The link whose query has these fields. -/
def readImportLink (query : List (Text × Text)) : Except ImportFailure ImportLink := do
  let getValue (key : String) : Except ImportFailure Text := required (query.reverse.lookup key.toList)
  let version ← getValue "v"
  if version = "1".toList then
    let a ← getValue "a"
    let addresses ← required ((a.splitOn ',').mapM (privateAddress java))
    require (1 ≤ addresses.length && addresses.length ≤ MAX_ADDRESSES)
    let p ← getValue "p"
    let port ← required (java.parseInt p)
    require (1 ≤ port && port ≤ 65535)
    let t ← getValue "t"
    let token ← required (ofBase64Url t)
    require (token.length = TOKEN_BYTES)
    let k ← getValue "k"
    let key ← required (ofBase64Url k)
    require (key.length = KEY_BYTES)
    let n ← getValue "n"
    return ⟨addresses, port, token, key, n⟩
  else throw .otherVersion

/-- The link a scanned code holds. -/
def parseImportLink (scanned : Text) : Except ImportFailure ImportLink := do
  let uri ← required (Uri.create java scanned)
  require (uri.scheme = "speecher".toList && uri.host = some "import".toList)
  let query ← required (queryFields java (uri.rawQuery.getD []))
  readImportLink java query

end Reading

/-! ## What the link is made of -/

/-- A character that a link holds as it stands, in a value that is not encoded. -/
def isLinkChar (c : Char) : Bool := c.isAlphanum || "-_.,".toList.contains c

theorem isLinkChar_of_isDigit {c : Char} (h : c.isDigit = true) : isLinkChar c = true := by
  simp [isLinkChar, Char.isAlphanum, h]

theorem ne_of_isLinkChar {c d : Char} (h : isLinkChar c = true) (hd : isLinkChar d = false) : c ≠ d := by
  rintro rfl
  exact Bool.false_ne_true (hd.symm.trans h)

theorem isUriChar_of_isLinkChar (java : JavaText) {c : Char} (h : isLinkChar c = true) : Uri.isUriChar java c = true := by
  rw [isLinkChar, Bool.or_eq_true] at h
  rcases h with h | h
  · simp [Uri.isUriChar, h]
  · have hmarks : ∀ d ∈ "-_.,".toList, "_-!.~'()*;/?:@&=+$,[]".toList.contains d = true :=
      List.all_eq_true.mp (by decide)
    rw [Uri.isUriChar, hmarks c (List.contains_iff_mem.mp h), Bool.or_true, Bool.true_or]

theorem isLinkChar_base64Url (bytes : List UInt8) : ∀ c ∈ base64Url bytes, isLinkChar c = true := fun c hc =>
  have halphabet : ∀ d ∈ base64Alphabet, isLinkChar d = true := List.all_eq_true.mp (by decide)
  halphabet c (mem_toBase64Url c hc)

theorem isLinkChar_toDigits (n : ℕ) : ∀ c ∈ Nat.toDigits 10 n, isLinkChar c = true := fun c hc =>
  isLinkChar_of_isDigit (JavaText.isDigit_of_mem_toDigits c hc)

theorem mem_toText (address : Inet4Address) : ∀ c ∈ address.toText, c.isDigit = true ∨ c = '.' := by
  intro c hc
  rcases mem_of_mem_intercalate hc with hdot | ⟨octet, hoctet, hmem⟩
  · exact .inr (List.mem_singleton.mp hdot)
  · obtain ⟨n, -, rfl⟩ := List.mem_map.mp hoctet
    exact .inl (JavaText.isDigit_of_mem_toDigits c hmem)

theorem isLinkChar_addresses (addresses : List Inet4Address) :
    ∀ c ∈ [','].intercalate (addresses.map Inet4Address.toText), isLinkChar c = true := by
  intro c hc
  rcases mem_of_mem_intercalate hc with hcomma | ⟨text, htext, hmem⟩
  · rw [List.mem_singleton.mp hcomma]
    rfl
  · obtain ⟨address, -, rfl⟩ := List.mem_map.mp htext
    rcases mem_toText address c hmem with hdigit | rfl
    · exact isLinkChar_of_isDigit hdigit
    · rfl

/-- A field of a query. -/
def fieldText (field : Text × Text) : Text := field.1 ++ '=' :: field.2

/-- The fields of a computer's link, as they are written. -/
def linkFields (addresses : Text) (port : UInt16) (token key : List UInt8) (computerName : Text) : List (Text × Text) :=
  [("v".toList, "1".toList), ("a".toList, addresses), ("p".toList, Nat.toDigits 10 port.toNat),
    ("t".toList, base64Url token), ("k".toList, base64Url key), ("n".toList, toPercentEncoding computerName)]

theorem phoneTransferLink_eq {addresses : List Text} (h : '%' ∉ [','].intercalate addresses) (port : UInt16)
    (token key : List UInt8) (computerName : Text) :
    phoneTransferLink addresses port token key computerName =
      "speecher".toList ++ "://".toList ++ "import".toList ++ '?' ::
        ['&'].intercalate
          ((linkFields ([','].intercalate addresses) port token key computerName).map fieldText) := by
  have hport : '%' ∉ Nat.toDigits 10 port.toNat := fun hmem => absurd (isLinkChar_toDigits _ _ hmem) (by decide)
  have hversion : arg [Nat.toDigits 10 kFormat] "speecher://import?v=%1&a=%2&p=%3&t=%4&k=%5&n=%6".toList =
      "speecher://import?v=1&a=%2&p=%3&t=%4&k=%5&n=%6".toList := by decide
  have haddresses (text : Text) : arg [text] "speecher://import?v=1&a=%2&p=%3&t=%4&k=%5&n=%6".toList =
      "speecher://import?v=1&a=".toList ++ (text ++ "&p=%3&t=%4&k=%5&n=%6".toList) := rfl
  have hport' (text : Text) : arg [text] "&p=%3&t=%4&k=%5&n=%6".toList =
      "&p=".toList ++ (text ++ "&t=%4&k=%5&n=%6".toList) := rfl
  have hrest (t k n : Text) : arg [t, k, n] "&t=%4&k=%5&n=%6".toList =
      "&t=".toList ++ (t ++ ("&k=".toList ++ (k ++ ("&n=".toList ++ (n ++ []))))) := rfl
  rw [phoneTransferLink, hversion, haddresses]
  rw [arg_append _ (by decide), arg_append _ h, hport', arg_append _ (by decide), arg_append _ h,
    arg_append _ (by decide), arg_append _ hport, hrest]
  simp [linkFields, fieldText, List.intercalate_cons_cons]

/-! ## Reading it back -/

theorem octet_toDigits : ∀ n < 256, 1 ≤ (Nat.toDigits 10 n).length ∧ (Nat.toDigits 10 n).length ≤ 3 := by decide +kernel

theorem and_eq_iff : ∀ n < 256, UInt8.ofNat n &&& 0xF0 = 16 ↔ n / 16 = 1 := by decide +kernel

namespace Inet4Address

/-- **The phone takes the addresses for private ones that the computer does.** -/
theorem isSiteLocalAddress_eq (address : Inet4Address) : address.isSiteLocalAddress = address.isPrivateIPv4 := by
  have h₁ := address.first.toNat_lt
  have h₂ := address.second.toNat_lt
  have h₃ := address.third.toNat_lt
  have h₄ := address.fourth.toNat_lt
  have hmask := and_eq_iff address.second.toNat h₂
  rw [UInt8.ofNat_toNat] at hmask
  rw [Bool.eq_iff_iff]
  simp only [isSiteLocalAddress, isPrivateIPv4, isInSubnet, toIPv4Address, Bool.or_eq_true, Bool.and_eq_true,
    decide_eq_true_eq, List.any_cons, List.any_nil, hmask, ← UInt8.toNat_inj, UInt8.toNat_ofNat, Bool.false_eq_true,
    or_false]
  simp only [Nat.reducePow, Nat.reduceSub, Nat.reduceMod, Nat.reduceMul, Nat.reduceAdd, Nat.reduceDiv]
  omega

end Inet4Address

section Reading

variable (java : JavaText)

/-- **An address is read back.** -/
theorem privateAddress_toText {address : Inet4Address} (h : address.isPrivateIPv4 = true) :
    privateAddress java address.toText = some address := by
  have hdot : ∀ octet ∈ address.octets.map fun octet => Nat.toDigits 10 octet.toNat, '.' ∉ octet := by
    intro octet hoctet hmem
    obtain ⟨n, -, rfl⟩ := List.mem_map.mp hoctet
    exact absurd (JavaText.isDigit_of_mem_toDigits _ hmem) (by decide)
  have hoctet (octet : UInt8) : isOctetText java (Nat.toDigits 10 octet.toNat) = true := by
    have hlength := octet_toDigits octet.toNat octet.toNat_lt
    have hdigits : ∀ c ∈ Nat.toDigits 10 octet.toNat, (java.digit c).isSome = true := fun c hc => by
      rw [java.digit_of_isDigit (JavaText.isDigit_of_mem_toDigits c hc), Option.isSome_some]
    simp only [isOctetText, Bool.and_eq_true, decide_eq_true_eq]
    exact ⟨hlength, List.all_eq_true.mpr hdigits⟩
  have hread (octet : UInt8) : java.parseInt (Nat.toDigits 10 octet.toNat) = some (octet.toNat : ℤ) :=
    java.parseInt_toDigits (Nat.lt_trans octet.toNat_lt (by decide))
  have hsmall (octet : UInt8) : (octet.toNat : ℤ) ≤ 255 := by
    have := octet.toNat_lt
    omega
  rw [privateAddress, Inet4Address.toText, List.splitOn_intercalate '.' hdot (List.cons_ne_nil _ _),
    Inet4Address.octets]
  simp only [List.map_cons, List.map_nil, List.all_cons, List.all_nil, hoctet, Bool.and_self, if_true]
  rw [show [Nat.toDigits 10 address.first.toNat, Nat.toDigits 10 address.second.toNat,
      Nat.toDigits 10 address.third.toNat, Nat.toDigits 10 address.fourth.toNat].mapM java.parseInt =
    some [(address.first.toNat : ℤ), address.second.toNat, address.third.toNat, address.fourth.toNat] by
      simp [hread]]
  simp [hsmall, address.isSiteLocalAddress_eq, h]

/-- The fields of a query are read one by one. -/
theorem queryFields_intercalate {fields : List (Text × Text)} (hne : fields ≠ [])
    (h : ∀ field ∈ fields, '=' ∉ field.1 ∧ '&' ∉ fieldText field) :
    queryFields java (['&'].intercalate (fields.map fieldText)) =
      fields.mapM fun field => (decodeForm java.decode field.2).map (field.1, ·) := by
  have hkept : ∀ text ∈ fields.map fieldText, '&' ∉ text := by
    intro text htext
    obtain ⟨field, hfield, rfl⟩ := List.mem_map.mp htext
    exact (h field hfield).2
  rw [queryFields, List.splitOn_intercalate '&' hkept (by simpa using hne)]
  clear hne hkept
  induction fields with
  | nil => rfl
  | cons field fields ih =>
    have hkey : ∀ c ∈ field.1, decide (c ≠ '=') = true := fun c hc =>
      decide_eq_true (ne_of_mem_of_not_mem hc (h field List.mem_cons_self).1)
    rw [List.map_cons, List.mapM_cons, List.mapM_cons, ih fun other hother => h other (List.mem_cons_of_mem field hother),
      fieldText, List.takeWhile_append_of_pos hkey, List.dropWhile_append_of_pos hkey,
      List.takeWhile_cons_of_neg (by decide), List.dropWhile_cons_of_neg (by decide), List.append_nil,
      List.drop_succ_cons, List.drop_zero]

/-- The fields of a computer's link hold no mark of the link's own, and are read as what they stand for. -/
theorem linkFields_mapM {addresses : Text} (h : ∀ c ∈ addresses, isLinkChar c = true) (port : UInt16)
    (token key : List UInt8) (computerName : Text) :
    ((linkFields addresses port token key computerName).mapM fun field =>
        (decodeForm java.decode field.2).map (field.1, ·)) =
      some [("v".toList, "1".toList), ("a".toList, addresses), ("p".toList, Nat.toDigits 10 port.toNat),
        ("t".toList, base64Url token), ("k".toList, base64Url key), ("n".toList, computerName)] := by
  have hplain {text : Text} (htext : ∀ c ∈ text, isLinkChar c = true) :
      decodeForm java.decode text = some text :=
    decodeForm_plain java.decode_utf8 fun c hc =>
      ⟨ne_of_isLinkChar (htext c hc) (by decide), ne_of_isLinkChar (htext c hc) (by decide)⟩
  have hname := decodeForm_toPercentEncoding java.decode_utf8 computerName
  have hversion : decodeForm java.decode ['1'] = some ['1'] := hplain (List.all_eq_true.mp rfl)
  simp [linkFields, hplain h, hplain (isLinkChar_toDigits port.toNat), hplain (isLinkChar_base64Url token),
    hplain (isLinkChar_base64Url key), hname, hversion]

/-- A value of a link: characters that stand for themselves, and escapes. -/
def isValueChar (c : Char) : Bool := isLinkChar c || isUnreserved c || c = '%'

theorem mem_fieldText {field : Text × Text} (hkey : ∀ c ∈ field.1, isLinkChar c = true)
    (hvalue : ∀ c ∈ field.2, isValueChar c = true) {mark : Char} (hmark : isValueChar mark = false)
    (hequals : mark ≠ '=') : mark ∉ fieldText field := by
  intro hmem
  rcases List.mem_append.mp hmem with hmem | hmem
  · have hlink := hkey mark hmem
    rw [isValueChar, hlink] at hmark
    exact absurd hmark (by simp)
  · rcases List.mem_cons.mp hmem with heq | hmem
    · exact hequals heq
    · exact Bool.false_ne_true (hmark.symm.trans (hvalue mark hmem))

theorem legal_fieldText {field : Text × Text} (hkey : ∀ c ∈ field.1, isLinkChar c = true)
    (hvalue : legal (Uri.isUriChar java) field.2 = true) : legal (Uri.isUriChar java) (fieldText field) = true := by
  rw [fieldText, legal_append, legal_cons (by decide), hvalue]
  · rfl
  · exact fun c hc => ⟨isUriChar_of_isLinkChar java (hkey c hc), ne_of_isLinkChar (hkey c hc) (by decide)⟩

theorem mem_linkFields {addresses : Text} (h : ∀ c ∈ addresses, isLinkChar c = true) (port : UInt16)
    (token key : List UInt8) (computerName : Text) :
    ∀ field ∈ linkFields addresses port token key computerName,
      (∀ c ∈ field.1, isLinkChar c = true) ∧ (∀ c ∈ field.2, isValueChar c = true) ∧
        legal (Uri.isUriChar java) field.2 = true := by
  have hplain {text : Text} (htext : ∀ c ∈ text, isLinkChar c = true) :
      (∀ c ∈ text, isValueChar c = true) ∧ legal (Uri.isUriChar java) text = true := by
    refine ⟨fun c hc => by rw [isValueChar, htext c hc]; rfl, legal_of_forall fun c hc => ?_⟩
    exact ⟨isUriChar_of_isLinkChar java (htext c hc), ne_of_isLinkChar (htext c hc) (by decide)⟩
  have hname : (∀ c ∈ toPercentEncoding computerName, isValueChar c = true) ∧
      legal (Uri.isUriChar java) (toPercentEncoding computerName) = true := by
    constructor
    · intro c hc
      rcases mem_toPercentEncoding c hc with hkept | rfl
      · rw [isValueChar, hkept, Bool.or_true, Bool.true_or]
      · rfl
    · have hunreserved : ∀ c, isUnreserved c = true → Uri.isUriChar java c = true := by
        intro c hc
        simp only [isUnreserved, Bool.or_eq_true, decide_eq_true_eq] at hc
        rcases hc with (((hc | rfl) | rfl) | rfl) | rfl
        · simp [Uri.isUriChar, hc]
        all_goals rfl
      simpa [legal] using legal_toPercentEncoding hunreserved computerName []
  simp only [linkFields, List.forall_mem_cons, List.not_mem_nil, false_implies, implies_true, and_true]
  have hkey (name : Char) (hname : isLinkChar name = true) : ∀ c ∈ [name], isLinkChar c = true :=
    List.forall_mem_singleton.mpr hname
  exact ⟨⟨hkey 'v' rfl, hplain (hkey '1' rfl)⟩, ⟨hkey 'a' rfl, hplain h⟩, ⟨hkey 'p' rfl, hplain (isLinkChar_toDigits _)⟩,
    ⟨hkey 't' rfl, hplain (isLinkChar_base64Url token)⟩, ⟨hkey 'k' rfl, hplain (isLinkChar_base64Url key)⟩,
    ⟨hkey 'n' rfl, hname⟩⟩

/-- The values of a computer's link are the link. -/
theorem readImportLink_values {addresses : List Inet4Address} (hne : addresses ≠ []) (hmax : addresses.length ≤ 4)
    (hprivate : ∀ address ∈ addresses, address.isPrivateIPv4 = true) {port : UInt16} (hport : port ≠ 0)
    {token key : List UInt8} (htoken : token.length = kTokenSize) (hkey : key.length = kKeySize) (computerName : Text) :
    readImportLink java
        [("v".toList, "1".toList), ("a".toList, [','].intercalate (addresses.map Inet4Address.toText)),
          ("p".toList, Nat.toDigits 10 port.toNat), ("t".toList, base64Url token), ("k".toList, base64Url key),
          ("n".toList, computerName)] =
      .ok ⟨addresses, port.toNat, token, key, computerName⟩ := by
  have haddresses : (([','].intercalate (addresses.map Inet4Address.toText)).splitOn ',').mapM (privateAddress java) =
      some addresses := by
    have hcomma : ∀ text ∈ addresses.map Inet4Address.toText, ',' ∉ text := by
      intro text htext hmem
      obtain ⟨address, -, rfl⟩ := List.mem_map.mp htext
      exact absurd (mem_toText address ',' hmem) (by decide)
    rw [List.splitOn_intercalate ',' hcomma (by simpa using hne)]
    clear hcomma hne hmax
    induction addresses with
    | nil => rfl
    | cons address addresses ih =>
      rw [List.map_cons, List.mapM_cons, privateAddress_toText java (hprivate address List.mem_cons_self),
        ih fun other hother => hprivate other (List.mem_cons_of_mem address hother)]
      rfl
  have hlength : (1 ≤ addresses.length && addresses.length ≤ MAX_ADDRESSES) = true := by
    rw [Bool.and_eq_true, decide_eq_true_eq, decide_eq_true_eq]
    exact ⟨List.length_pos_of_ne_nil hne, hmax⟩
  have hportRead := java.parseInt_toDigits (n := port.toNat) (Nat.lt_trans port.toNat_lt (by decide))
  have hportBounds : (1 ≤ (port.toNat : ℤ) && (port.toNat : ℤ) ≤ 65535) = true := by
    have hlt := port.toNat_lt
    have hpos : port.toNat ≠ 0 := fun h => hport (UInt16.toNat_inj.mp h)
    rw [Bool.and_eq_true, decide_eq_true_eq, decide_eq_true_eq]
    omega
  have htokenBytes : ofBase64Url (base64Url token) = some token := ofBase64Url_toBase64Url token
  have hkeyBytes : ofBase64Url (base64Url key) = some key := ofBase64Url_toBase64Url key
  have htokenLength : decide (token.length = TOKEN_BYTES) = true := decide_eq_true htoken
  have hkeyLength : decide (key.length = KEY_BYTES) = true := decide_eq_true hkey
  simp only [readImportLink, List.reverse_cons, List.reverse_nil, List.nil_append, List.cons_append]
  rw [show List.lookup "v".toList _ = some "1".toList from rfl, required_some_bind, if_pos rfl,
    show List.lookup "a".toList _ = some ([','].intercalate (addresses.map Inet4Address.toText)) from rfl,
    required_some_bind, haddresses, required_some_bind, hlength, require_true_bind,
    show List.lookup "p".toList _ = some (Nat.toDigits 10 port.toNat) from rfl, required_some_bind, hportRead,
    required_some_bind, hportBounds, require_true_bind,
    show List.lookup "t".toList _ = some (base64Url token) from rfl, required_some_bind, htokenBytes,
    required_some_bind, htokenLength, require_true_bind,
    show List.lookup "k".toList _ = some (base64Url key) from rfl, required_some_bind, hkeyBytes,
    required_some_bind, hkeyLength, require_true_bind,
    show List.lookup "n".toList _ = some computerName from rfl, required_some_bind]
  rfl

/-- **A link is read back.** -/
theorem parseImportLink_phoneTransferLink {addresses : List Inet4Address} (hne : addresses ≠ [])
    (hmax : addresses.length ≤ 4) (hprivate : ∀ address ∈ addresses, address.isPrivateIPv4 = true) {port : UInt16}
    (hport : port ≠ 0) {token key : List UInt8} (htoken : token.length = kTokenSize) (hkey : key.length = kKeySize)
    (computerName : Text) :
    parseImportLink java (phoneTransferLink (addresses.map Inet4Address.toText) port token key computerName) =
      .ok ⟨addresses, port.toNat, token, key, computerName⟩ := by
  have hplain := isLinkChar_addresses addresses
  have hfields := mem_linkFields java hplain port token key computerName
  have hread := linkFields_mapM java hplain port token key computerName
  have hpercent : '%' ∉ [','].intercalate (addresses.map Inet4Address.toText) := fun hmem =>
    absurd (hplain '%' hmem) (by decide)
  rw [phoneTransferLink_eq hpercent]
  have hne' : linkFields ([','].intercalate (addresses.map Inet4Address.toText)) port token key computerName ≠ [] :=
    List.cons_ne_nil _ _
  generalize linkFields ([','].intercalate (addresses.map Inet4Address.toText)) port token key computerName = fields
    at hfields hread hne'
  have hquery : queryFields java (['&'].intercalate (fields.map fieldText)) = _ :=
    (queryFields_intercalate java hne' fun field hfield =>
      ⟨fun hmem => absurd ((hfields field hfield).1 '=' hmem) (by decide),
        mem_fieldText (hfields field hfield).1 (hfields field hfield).2.1 (by decide) (by decide)⟩).trans hread
  have hlegal : legal (Uri.isUriChar java) (['&'].intercalate (fields.map fieldText)) = true := by
    refine legal_intercalate rfl (by decide) fun text htext => ?_
    obtain ⟨field, hfield, rfl⟩ := List.mem_map.mp htext
    exact legal_fieldText java (hfields field hfield).1 (hfields field hfield).2.2
  have hmark : '#' ∉ ['&'].intercalate (fields.map fieldText) := by
    intro hmem
    rcases mem_of_mem_intercalate hmem with hmem | ⟨text, htext, hmem⟩
    · exact absurd (List.mem_singleton.mp hmem) (by decide)
    · obtain ⟨field, hfield, rfl⟩ := List.mem_map.mp htext
      exact mem_fieldText (hfields field hfield).1 (hfields field hfield).2.1 (by decide) (by decide) hmem
  have hhost : ∀ c ∈ "import".toList, isLabelChar c = true := List.all_eq_true.mp (by decide)
  have hcreate : Uri.create java ("speecher".toList ++ "://".toList ++ "import".toList ++ '?' ::
      ['&'].intercalate (fields.map fieldText)) = _ :=
    Uri.create_server java (by decide) (List.all_eq_true.mp (by decide)) (by decide)
      (fun c hc => .inl (hhost c hc)) hlegal hmark
  have hfound := readImportLink_values java hne hmax hprivate hport htoken hkey computerName
  simp only [parseImportLink, hcreate, required_some_bind, decide_true, Bool.and_self, require_true_bind, Option.getD_some,
    hquery, hfound]

end Reading

end Speecher
