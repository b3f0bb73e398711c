import Mathlib.Data.List.Basic
import Mathlib.Tactic.Common

/-!
# Base64 for links

Bytes as text that a link can hold: `toBase64Url` writes three bytes as four characters of the alphabet with `-` and
`_`, without padding; `ofBase64Url` reads text with or without it.

* `ofBase64Url_toBase64Url`: the bytes are read back.
* `mem_toBase64Url`: only letters, digits, `-` and `_` are written.
-/

namespace Speecher

def base64Alphabet : List Char := "ABCDEFGHIJKLMNOPQRSTUVWXYZabcdefghijklmnopqrstuvwxyz0123456789-_".toList

/-- The character that stands for six bits. -/
def base64Digit (n : ℕ) : Char := base64Alphabet.getD n 'A'

/-- The six bits a character stands for. -/
def base64Value (c : Char) : Option ℕ := base64Alphabet.idxOf? c

/-- The bits that characters stand for, the first of them highest. -/
def sextets (text : List Char) : Option ℕ := text.foldlM (fun n c => (base64Value c).map (64 * n + ·)) 0

def toBase64Url : List UInt8 → List Char
  | a :: b :: c :: rest =>
    let n := (a.toNat * 256 + b.toNat) * 256 + c.toNat
    [n / 262144, n / 4096 % 64, n / 64 % 64, n % 64].map base64Digit ++ toBase64Url rest
  | [a, b] =>
    let n := (a.toNat * 256 + b.toNat) * 4
    [n / 4096, n / 64 % 64, n % 64].map base64Digit
  | [a] =>
    let n := a.toNat * 16
    [n / 64, n % 64].map base64Digit
  | [] => []

/-- The bytes of text, unless a character is not of the alphabet or a single one is left over. The bits left over
after the last whole byte count for nothing. -/
def ofBase64Url : List Char → Option (List UInt8)
  | [] => some []
  | [_] => none
  | [a, b] => (sextets [a, b]).map fun n => [UInt8.ofNat (n / 16)]
  | [a, b, c] => (sextets [a, b, c]).map fun n => [UInt8.ofNat (n / 1024), UInt8.ofNat (n / 4)]
  | a :: b :: c :: d :: rest =>
    -- padding stands at the end of the text only
    if d = '=' ∧ rest = [] then
      if c = '=' then (sextets [a, b]).map fun n => [UInt8.ofNat (n / 16)]
      else (sextets [a, b, c]).map fun n => [UInt8.ofNat (n / 1024), UInt8.ofNat (n / 4)]
    else
      (sextets [a, b, c, d]).bind fun n =>
        (ofBase64Url rest).map ([UInt8.ofNat (n / 65536), UInt8.ofNat (n / 256), UInt8.ofNat n] ++ ·)

/-! ## Reading back -/

theorem base64Value_base64Digit : ∀ n < 64, base64Value (base64Digit n) = some n := by decide

theorem base64Digit_ne_padding : ∀ n < 64, base64Digit n ≠ '=' := by decide +kernel

theorem base64Digit_mem {n : ℕ} (h : n < 64) : base64Digit n ∈ base64Alphabet := by
  rw [base64Digit, List.getD_eq_getElem?_getD, List.getElem?_eq_getElem (by exact h), Option.getD_some]
  exact List.getElem_mem _

/-- The digits of a number below 64 to the power of their number read back as it. -/
theorem sextets_map (digits : List ℕ) (h : ∀ n ∈ digits, n < 64) :
    sextets (digits.map base64Digit) = some (digits.foldl (64 * · + ·) 0) := by
  have hfold : ∀ start : ℕ, (digits.map base64Digit).foldlM (fun n c => (base64Value c).map (64 * n + ·)) start =
      some (digits.foldl (64 * · + ·) start) := by
    induction digits with
    | nil => exact fun _ => rfl
    | cons n digits ih =>
      intro start
      rw [List.map_cons, List.foldlM_cons, base64Value_base64Digit n (h n List.mem_cons_self)]
      exact ih (fun m hm => h m (List.mem_cons_of_mem n hm)) _
  exact hfold 0

theorem ofNat_eq {n : ℕ} {b : UInt8} (h : n % 256 = b.toNat) : UInt8.ofNat n = b := by
  rw [← UInt8.toNat_inj, UInt8.toNat_ofNat', ← h]

/-- **Bytes are read back.** -/
theorem ofBase64Url_toBase64Url (bytes : List UInt8) : ofBase64Url (toBase64Url bytes) = some bytes := by
  induction bytes using toBase64Url.induct with
  | case1 a b c rest ih =>
    have ha := a.toNat_lt
    have hb := b.toNat_lt
    have hc := c.toNat_lt
    simp only [toBase64Url]
    generalize hn : (a.toNat * 256 + b.toNat) * 256 + c.toNat = n
    have hread := sextets_map [n / 262144, n / 4096 % 64, n / 64 % 64, n % 64]
      (by intro m hm; simp only [List.mem_cons, List.not_mem_nil, or_false] at hm; omega)
    have hsum : [n / 262144, n / 4096 % 64, n / 64 % 64, n % 64].foldl (64 * · + ·) 0 = n := by
      simp only [List.foldl_cons, List.foldl_nil]
      omega
    rw [hsum, List.map_cons, List.map_cons, List.map_cons, List.map_singleton] at hread
    simp only [List.map_cons, List.map_nil, List.cons_append, List.nil_append, ofBase64Url]
    rw [if_neg fun h => base64Digit_ne_padding (n % 64) (by omega) h.1, hread, ih, Option.bind_some, Option.map_some,
      ofNat_eq (n := n / 65536) (b := a) (by omega), ofNat_eq (n := n / 256) (b := b) (by omega),
      ofNat_eq (n := n) (b := c) (by omega)]
  | case2 a b =>
    have ha := a.toNat_lt
    have hb := b.toNat_lt
    simp only [toBase64Url]
    generalize hn : (a.toNat * 256 + b.toNat) * 4 = n
    have hread := sextets_map [n / 4096, n / 64 % 64, n % 64]
      (by intro m hm; simp only [List.mem_cons, List.not_mem_nil, or_false] at hm; omega)
    have hsum : [n / 4096, n / 64 % 64, n % 64].foldl (64 * · + ·) 0 = n := by
      simp only [List.foldl_cons, List.foldl_nil]
      omega
    rw [hsum] at hread
    have hfirst : UInt8.ofNat (n / 1024) = a := ofNat_eq (by omega)
    have hsecond : UInt8.ofNat (n / 4) = b := ofNat_eq (by omega)
    simp only [List.map_cons, List.map_nil, ofBase64Url] at hread ⊢
    rw [hread, Option.map_some, hfirst, hsecond]
  | case3 a =>
    have ha := a.toNat_lt
    simp only [toBase64Url]
    generalize hn : a.toNat * 16 = n
    have hread := sextets_map [n / 64, n % 64]
      (by intro m hm; simp only [List.mem_cons, List.not_mem_nil, or_false] at hm; omega)
    have hsum : [n / 64, n % 64].foldl (64 * · + ·) 0 = n := by
      simp only [List.foldl_cons, List.foldl_nil]
      omega
    have hfirst : UInt8.ofNat (n / 16) = a := ofNat_eq (by omega)
    simp only [List.map_cons, List.map_nil, ofBase64Url] at hread ⊢
    rw [hread, hsum, Option.map_some, hfirst]
  | case4 => rfl

theorem mem_toBase64Url {bytes : List UInt8} : ∀ c ∈ toBase64Url bytes, c ∈ base64Alphabet := by
  induction bytes using toBase64Url.induct with
  | case1 a b c rest ih =>
    have ha := a.toNat_lt
    intro d hd
    simp only [toBase64Url] at hd
    rcases List.mem_append.mp hd with hd | hd
    · obtain ⟨n, hn, rfl⟩ := List.mem_map.mp hd
      refine base64Digit_mem ?_
      simp only [List.mem_cons, List.not_mem_nil, or_false] at hn
      have hb := b.toNat_lt
      have hc := c.toNat_lt
      omega
    · exact ih d hd
  | case2 a b =>
    have ha := a.toNat_lt
    have hb := b.toNat_lt
    intro d hd
    obtain ⟨n, hn, rfl⟩ := List.mem_map.mp hd
    refine base64Digit_mem ?_
    simp only [List.mem_cons, List.not_mem_nil, or_false] at hn
    omega
  | case3 a =>
    have ha := a.toNat_lt
    intro d hd
    obtain ⟨n, hn, rfl⟩ := List.mem_map.mp hd
    refine base64Digit_mem ?_
    simp only [List.mem_cons, List.not_mem_nil, or_false] at hn
    omega
  | case4 => exact fun _ h => absurd h List.not_mem_nil

end Speecher
