import Speecher.Bindings.Placeholders
import Speecher.Foundations.Blocks
import Speecher.Foundations.PercentEncoding
import Speecher.Foundations.OnePass
import Speecher.Settings.Vocabulary

/-!
# How much of the vocabulary is sent

A speech service takes so many terms as hints and no more. `limited` walks the terms in send order and keeps those
that fit: each once, at most `maxKeyterms` of them and `maxTokens` words in all. `claudeVoiceKeyterms` does the same
for a header of `maxHeaderBytes` bytes. Both are a `OnePass` whose state is what is kept and counted so far.

* `limits_and_priority`: the limits, that each result is a subsequence of the simplified terms without copies, and
  that appended terms displace none.
-/

namespace Speecher

namespace VocabularyLimit

def maxKeyterms : ℕ := 100

def maxTokens : ℕ := 500

def maxHeaderBytes : ℕ := 1024

/-- The words of a term. -/
def tokenCount (term : Text) : ℕ := (((trimmed term).splitOnP asciiSpace).filter (!·.isEmpty)).length

/-- The words of a list of terms. -/
def tokenCounts (terms : List Text) : ℕ := terms.foldl (fun count term => count + tokenCount term) 0

/-- The loop of `limited`, from what it kept, saw and counted so far. -/
def limitedFrom (result seen : List Text) (tokens : ℕ) : List Text → List Text
  | [] => result
  | rawTerm :: terms =>
    if result.length ≥ maxKeyterms then result
    else
      let term := simplified rawTerm
      if term.isEmpty || seen.contains term then limitedFrom result seen tokens terms
      else
        let termTokens := tokenCount term
        if termTokens ≤ 0 ∨ tokens + termTokens > maxTokens then limitedFrom result seen tokens terms
        else limitedFrom (result ++ [term]) (term :: seen) (tokens + termTokens) terms

/-- The terms a speech request can carry, within both limits. -/
def limited (terms : List Text) : List Text := limitedFrom [] [] 0 terms

/-- `QByteArray::toLower`. -/
def toLower (bytes : List UInt8) : List UInt8 := bytes.map fun b => if 65 ≤ b ∧ b ≤ 90 then b + 32 else b

/-- The loop of `claudeVoiceKeyterms`, from what it kept, saw and counted so far. -/
def claudeVoiceKeytermsFrom (kept : List Text) (seen : List (List UInt8)) (bytes : ℕ) : List Text → List Text
  | [] => kept
  | value :: terms =>
    let term := simplified value
    let key := toLower (utf8 term)
    if term.isEmpty || seen.contains key then claudeVoiceKeytermsFrom kept seen bytes terms
    else
      let separator := if kept.isEmpty then 0 else 1
      if bytes + separator + (utf8 term).length > maxHeaderBytes then claudeVoiceKeytermsFrom kept seen bytes terms
      else claudeVoiceKeytermsFrom (kept ++ [term]) (key :: seen) (bytes + separator + (utf8 term).length) terms

/-- What the header of Claude Voice carries of the terms. -/
def claudeVoiceKeyterms (terms : List Text) : List Text := claudeVoiceKeytermsFrom [] [] 0 terms

/-- The header itself. -/
def claudeVoiceKeytermsHeader (vocabulary : List Text) : List UInt8 :=
  utf8 ([','].intercalate (claudeVoiceKeyterms vocabulary))

/-! ## The loops as selections -/

/-- What a loop holds: the terms it kept, their keys, and what they count. -/
structure Kept (κ : Type*) where
  terms : List Text
  seen : List κ
  count : ℕ

/-- What `limited` decides about a term. -/
def limit : OnePass (Kept Text) Text Text := fun s rawTerm =>
  let term := simplified rawTerm
  if s.terms.length ≥ maxKeyterms ∨ (term.isEmpty || s.seen.contains term) = true ∨ tokenCount term ≤ 0 ∨
    s.count + tokenCount term > maxTokens then none
  else some (term, ⟨s.terms ++ [term], term :: s.seen, s.count + tokenCount term⟩)

theorem limitedFrom_eq (s : Kept Text) (terms : List Text) :
    limitedFrom s.terms s.seen s.count terms = s.terms ++ limit.kept s terms := by
  induction terms generalizing s with
  | nil => exact (List.append_nil _).symm
  | cons rawTerm terms ih =>
    rw [limitedFrom]
    by_cases hfull : s.terms.length ≥ maxKeyterms
    · have hnone : ∀ rawTerm, limit s rawTerm = none := fun rawTerm => if_pos (.inl hfull)
      rw [if_pos hfull, OnePass.kept_of_full hnone, List.append_nil]
    · rw [if_neg hfull]
      dsimp only
      by_cases hskip : ((simplified rawTerm).isEmpty || s.seen.contains (simplified rawTerm)) = true
      · rw [if_pos hskip, OnePass.kept_cons_none (if_pos (.inr (.inl hskip))), ih]
      · rw [if_neg hskip]
        by_cases hroom : tokenCount (simplified rawTerm) ≤ 0 ∨ s.count + tokenCount (simplified rawTerm) > maxTokens
        · rw [if_pos hroom, OnePass.kept_cons_none (if_pos (.inr (.inr hroom))), ih]
        · have hnot := not_or.mpr ⟨hfull, not_or.mpr ⟨hskip, hroom⟩⟩
          rw [if_neg hroom, OnePass.kept_cons_some (if_neg hnot), ih ⟨_, _, _⟩, List.append_assoc, List.singleton_append]

/-- What `claudeVoiceKeyterms` decides about a term. -/
def headerLimit : OnePass (Kept (List UInt8)) Text Text := fun s value =>
  let term := simplified value
  let key := toLower (utf8 term)
  let count := s.count + (if s.terms.isEmpty then 0 else 1) + (utf8 term).length
  if (term.isEmpty || s.seen.contains key) = true ∨ count > maxHeaderBytes then none
  else some (term, ⟨s.terms ++ [term], key :: s.seen, count⟩)

theorem claudeVoiceKeytermsFrom_eq (s : Kept (List UInt8)) (terms : List Text) :
    claudeVoiceKeytermsFrom s.terms s.seen s.count terms = s.terms ++ headerLimit.kept s terms := by
  induction terms generalizing s with
  | nil => exact (List.append_nil _).symm
  | cons value terms ih =>
    rw [claudeVoiceKeytermsFrom]
    dsimp only
    by_cases hskip : ((simplified value).isEmpty || s.seen.contains (toLower (utf8 (simplified value)))) = true
    · rw [if_pos hskip, OnePass.kept_cons_none (if_pos (.inl hskip)), ih]
    · rw [if_neg hskip]
      by_cases hroom : s.count + (if s.terms.isEmpty then 0 else 1) + (utf8 (simplified value)).length > maxHeaderBytes
      · rw [if_pos hroom, OnePass.kept_cons_none (if_pos (.inr hroom)), ih]
      · rw [if_neg hroom, OnePass.kept_cons_some (if_neg (not_or.mpr ⟨hskip, hroom⟩)), ih ⟨_, _, _⟩, List.append_assoc,
          List.singleton_append]

theorem limited_eq (terms : List Text) : limited terms = limit.kept ⟨[], [], 0⟩ terms :=
  limitedFrom_eq ⟨[], [], 0⟩ terms

theorem claudeVoiceKeyterms_eq (terms : List Text) :
    claudeVoiceKeyterms terms = headerLimit.kept ⟨[], [], 0⟩ terms :=
  claudeVoiceKeytermsFrom_eq ⟨[], [], 0⟩ terms

/-! ## The limits -/

/-- What a loop holds is right: what it kept, each under its own key, and what that counts, within the limit. -/
structure Kept.Within {κ : Type*} (key : Text → κ) (count : List Text → ℕ) (limit : ℕ) (s : Kept κ)
    (kept : List Text) : Prop where
  terms : s.terms = kept
  seen : ∀ term ∈ kept, key term ∈ s.seen
  apart : (kept.map key).Nodup
  counted : s.count = count kept
  bound : s.count ≤ limit

/-- A term under a new key that fits is kept rightly. -/
theorem Kept.Within.kept {κ : Type*} {key : Text → κ} {count : List Text → ℕ} {limit n : ℕ} {s : Kept κ}
    {before : List Text} {term : Text} (h : s.Within key count limit before) (hkey : key term ∉ s.seen)
    (hcount : n = count (before ++ [term])) (hbound : n ≤ limit) :
    (⟨s.terms ++ [term], key term :: s.seen, n⟩ : Kept κ).Within key count limit (before ++ [term]) where
  terms := congrArg (· ++ [term]) h.terms
  seen t ht := by
    rcases List.mem_append.mp ht with ht | ht
    · exact List.mem_cons_of_mem _ (h.seen t ht)
    · rw [List.mem_singleton.mp ht]
      exact List.mem_cons_self
  apart := by
    rw [List.map_append, List.map_singleton]
    refine List.nodup_append.mpr ⟨h.apart, List.nodup_singleton _, fun k hk k' hk' => ?_⟩
    obtain ⟨t, ht, rfl⟩ := List.mem_map.mp hk
    rw [List.mem_singleton.mp hk']
    exact fun heq => hkey (heq ▸ h.seen t ht)
  counted := hcount
  bound := hbound

theorem tokenCounts_append_singleton (terms : List Text) (term : Text) :
    tokenCounts (terms ++ [term]) = tokenCounts terms + tokenCount term :=
  List.foldl_append

/-- The bytes of the header of a list of terms. -/
def headerBytes (terms : List Text) : ℕ := (utf8 ([','].intercalate terms)).length

theorem headerBytes_append_singleton (terms : List Text) (term : Text) :
    headerBytes (terms ++ [term]) = headerBytes terms + (if terms.isEmpty then 0 else 1) + (utf8 term).length := by
  by_cases hempty : terms = []
  · rw [hempty]
    simp [headerBytes, utf8]
  · have hcomma : (utf8 [',']).length = 1 := by decide
    have hnot : ¬ terms.isEmpty = true := fun h => hempty (List.isEmpty_iff.mp h)
    rw [headerBytes, intercalate_append hempty (List.cons_ne_nil _ _), List.intercalate_singleton, utf8_append,
      utf8_append, List.length_append, List.length_append, hcomma, if_neg hnot, headerBytes]

theorem limit_eq_some {s s' : Kept Text} {rawTerm term : Text} (h : limit s rawTerm = some (term, s')) :
    term = simplified rawTerm ∧ s.terms.length < maxKeyterms ∧ term ∉ s.seen ∧
      s.count + tokenCount term ≤ maxTokens ∧ s' = ⟨s.terms ++ [term], term :: s.seen, s.count + tokenCount term⟩ := by
  obtain ⟨hnot, h⟩ := Option.ite_none_left_eq_some.mp h
  simp only [not_or, Bool.or_eq_true, List.contains_iff_mem] at hnot
  obtain ⟨hlength, ⟨-, hseen⟩, -, hroom⟩ := hnot
  obtain ⟨rfl, rfl⟩ := Prod.mk.inj (Option.some.inj h)
  exact ⟨rfl, Nat.lt_of_not_le hlength, hseen, Nat.le_of_not_lt hroom, rfl⟩

theorem headerLimit_eq_some {s s' : Kept (List UInt8)} {value term : Text} (h : headerLimit s value = some (term, s')) :
    term = simplified value ∧ toLower (utf8 term) ∉ s.seen ∧
      s.count + (if s.terms.isEmpty then 0 else 1) + (utf8 term).length ≤ maxHeaderBytes ∧
      s' = ⟨s.terms ++ [term], toLower (utf8 term) :: s.seen,
        s.count + (if s.terms.isEmpty then 0 else 1) + (utf8 term).length⟩ := by
  obtain ⟨hnot, h⟩ := Option.ite_none_left_eq_some.mp h
  simp only [not_or, Bool.or_eq_true, List.contains_iff_mem] at hnot
  obtain ⟨⟨-, hseen⟩, hroom⟩ := hnot
  obtain ⟨rfl, rfl⟩ := Prod.mk.inj (Option.some.inj h)
  exact ⟨rfl, hseen, Nat.le_of_not_lt hroom, rfl⟩

theorem limited_within (terms : List Text) :
    ∃ s : Kept Text, s.Within id tokenCounts maxTokens (limited terms) ∧ (limited terms).length ≤ maxKeyterms := by
  have hstart : (⟨[], [], 0⟩ : Kept Text).Within id tokenCounts maxTokens [] ∧ ([] : List Text).length ≤ maxKeyterms :=
    ⟨⟨rfl, nofun, List.nodup_nil, rfl, Nat.zero_le _⟩, Nat.zero_le _⟩
  have hrun := OnePass.preserves limit
    (P := fun (s : Kept Text) kept => s.Within id tokenCounts maxTokens kept ∧ kept.length ≤ maxKeyterms)
    (fun s rawTerm term s' before ⟨hwithin, _⟩ hstep => by
      obtain ⟨-, hlength, hseen, hroom, rfl⟩ := limit_eq_some hstep
      have hcount : s.count + tokenCount term = tokenCounts (before ++ [term]) := by
        rw [tokenCounts_append_singleton, hwithin.counted]
      refine ⟨hwithin.kept hseen hcount hroom, ?_⟩
      rw [List.length_append, ← hwithin.terms]
      exact hlength) hstart terms
  rw [List.nil_append, ← limited_eq] at hrun
  exact ⟨_, hrun⟩

theorem claudeVoiceKeyterms_within (terms : List Text) :
    ∃ s : Kept (List UInt8), s.Within (toLower ∘ utf8) headerBytes maxHeaderBytes (claudeVoiceKeyterms terms) := by
  have hstart : (⟨[], [], 0⟩ : Kept (List UInt8)).Within (toLower ∘ utf8) headerBytes maxHeaderBytes [] :=
    ⟨rfl, nofun, List.nodup_nil, rfl, Nat.zero_le _⟩
  have hrun := OnePass.preserves headerLimit
    (P := fun (s : Kept (List UInt8)) kept => s.Within (toLower ∘ utf8) headerBytes maxHeaderBytes kept)
    (fun s value term s' before hwithin hstep => by
      obtain ⟨-, hseen, hroom, rfl⟩ := headerLimit_eq_some hstep
      refine hwithin.kept hseen ?_ hroom
      rw [headerBytes_append_singleton, hwithin.counted, hwithin.terms]) hstart terms
  rw [List.nil_append, ← claudeVoiceKeyterms_eq] at hrun
  exact ⟨_, hrun⟩

theorem limited_sublist (terms : List Text) : (limited terms).Sublist (terms.map simplified) :=
  limited_eq terms ▸ OnePass.kept_sublist (fun _ _ _ _ h => (limit_eq_some h).1 : OnePass.Cleans limit simplified) terms

theorem claudeVoiceKeyterms_sublist (terms : List Text) : (claudeVoiceKeyterms terms).Sublist (terms.map simplified) :=
  claudeVoiceKeyterms_eq terms ▸
    OnePass.kept_sublist (fun _ _ _ _ h => (headerLimit_eq_some h).1 : OnePass.Cleans headerLimit simplified) terms

theorem limited_isPrefix (terms terms' : List Text) : limited terms <+: limited (terms ++ terms') := by
  rw [limited_eq, limited_eq]
  exact OnePass.kept_isPrefix terms terms'

theorem claudeVoiceKeyterms_isPrefix (terms terms' : List Text) :
    claudeVoiceKeyterms terms <+: claudeVoiceKeyterms (terms ++ terms') := by
  rw [claudeVoiceKeyterms_eq, claudeVoiceKeyterms_eq]
  exact OnePass.kept_isPrefix terms terms'

/-- **What is sent respects the limits and the order of the terms.** `limited` keeps at most `maxKeyterms` terms of
at most `maxTokens` words, the header of `claudeVoiceKeyterms` is at most `maxHeaderBytes` bytes, each keeps a
subsequence of the simplified terms without copies, and what it keeps of a list it keeps first of a longer one. -/
theorem limits_and_priority (terms : List Text) :
    ((limited terms).length ≤ 100 ∧ tokenCounts (limited terms) ≤ 500) ∧
      (claudeVoiceKeytermsHeader terms).length ≤ 1024 ∧
      ((limited terms).Nodup ∧ (limited terms).Sublist (terms.map simplified)) ∧
      ((claudeVoiceKeyterms terms).Nodup ∧ (claudeVoiceKeyterms terms).Sublist (terms.map simplified)) ∧
      ∀ terms', limited terms <+: limited (terms ++ terms') ∧
        claudeVoiceKeyterms terms <+: claudeVoiceKeyterms (terms ++ terms') := by
  obtain ⟨s, hwithin, hlength⟩ := limited_within terms
  obtain ⟨s', hwithin'⟩ := claudeVoiceKeyterms_within terms
  have htokens : tokenCounts (limited terms) ≤ 500 := hwithin.counted ▸ hwithin.bound
  have hbytes : headerBytes (claudeVoiceKeyterms terms) ≤ 1024 := hwithin'.counted ▸ hwithin'.bound
  have hapart : (limited terms).Nodup := .of_map id hwithin.apart
  exact ⟨⟨hlength, htokens⟩, hbytes, ⟨hapart, limited_sublist terms⟩,
    ⟨.of_map _ hwithin'.apart, claudeVoiceKeyterms_sublist terms⟩,
    fun terms' => ⟨limited_isPrefix terms terms', claudeVoiceKeyterms_isPrefix terms terms'⟩⟩

end VocabularyLimit

end Speecher
