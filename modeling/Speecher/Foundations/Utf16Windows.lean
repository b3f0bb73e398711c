import Speecher.Foundations.Utf16Reading

/-!
# Windows on a text in UTF-16

The end of a text that fits into so many code units is cut at a character: `IsLongestEnd n text found` says that `found`
is the longest one, and `IsLongestBeginning` the same of a beginning. The last units of a text are those of its longest
end, or one more in front of them, the second half of a pair that was cut in two (`lastUnits_cases`); so it is at the
other side (`firstUnits_cases`).
-/

namespace Speecher

/-- The last units, at most so many. -/
def lastUnits (n : ℕ) (units : List ℕ) : List ℕ := units.drop (units.length - n)

structure IsLongestEnd (n : ℕ) (text found : List Char) : Prop where
  suffix : found <:+ text
  short : (utf16Units found).length ≤ n
  longest : ∀ other, other <:+ text → (utf16Units other).length ≤ n → other <:+ found

structure IsLongestBeginning (n : ℕ) (text found : List Char) : Prop where
  start : found <+: text
  short : (utf16Units found).length ≤ n
  longest : ∀ other, other <+: text → (utf16Units other).length ≤ n → other <+: found

variable {n : ℕ} {text found found' : List Char}

theorem IsLongestEnd.unique (h : IsLongestEnd n text found) (h' : IsLongestEnd n text found') : found = found' :=
  (h'.longest found h.suffix h.short).eq_of_length_le (h.longest found' h'.suffix h'.short).length_le

theorem IsLongestBeginning.unique (h : IsLongestBeginning n text found) (h' : IsLongestBeginning n text found') :
    found = found' :=
  (h'.longest found h.start h.short).eq_of_length_le (h.longest found' h'.start h'.short).length_le

theorem length_charUnits_pos (c : Char) : 0 < (charUnits c).length := List.length_pos_iff.mpr (charUnits_ne_nil c)

/-- An end is longest where the next character does not fit. -/
theorem isLongestEnd_of_next {before : List Char} (htext : text = before ++ found)
    (hshort : (utf16Units found).length ≤ n)
    (hnext : ∀ front c, before = front ++ [c] → n < (charUnits c ++ utf16Units found).length) :
    IsLongestEnd n text found := by
  refine ⟨⟨before, htext.symm⟩, hshort, fun other hother hfits => ?_⟩
  rcases List.suffix_or_suffix_of_suffix hother ⟨before, htext.symm⟩ with hwithin | ⟨more, rfl⟩
  · exact hwithin
  · rcases more.eq_nil_or_concat' with rfl | ⟨more, c, rfl⟩
    · exact List.suffix_rfl
    · obtain ⟨front, hfront⟩ := hother
      rw [htext, ← List.append_assoc, ← List.append_assoc] at hfront
      have hlong := hnext (front ++ more) c (List.append_cancel_right hfront).symm
      simp only [utf16Units_append, utf16Units_cons, utf16Units_nil, List.append_nil, List.length_append] at hfits hlong
      omega

/-- A beginning is longest where the next character does not fit. -/
theorem isLongestBeginning_of_next {after : List Char} (htext : text = found ++ after)
    (hshort : (utf16Units found).length ≤ n)
    (hnext : ∀ c rest, after = c :: rest → n < (utf16Units found ++ charUnits c).length) :
    IsLongestBeginning n text found := by
  refine ⟨⟨after, htext.symm⟩, hshort, fun other hother hfits => ?_⟩
  rcases List.prefix_or_prefix_of_prefix hother ⟨after, htext.symm⟩ with hwithin | ⟨more, rfl⟩
  · exact hwithin
  · cases more with
    | nil => simp
    | cons c more =>
      obtain ⟨rest, hrest⟩ := hother
      rw [htext, List.append_assoc, List.cons_append] at hrest
      have hlong := hnext c (more ++ rest) (List.append_cancel_left hrest).symm
      simp only [utf16Units_append, utf16Units_cons, List.length_append] at hfits hlong
      omega

theorem length_le_utf16Units (text : List Char) : text.length ≤ (utf16Units text).length := by
  induction text with
  | nil => exact Nat.le_refl _
  | cons c text ih =>
    have := length_charUnits_pos c
    rw [utf16Units_cons, List.length_append, List.length_cons]
    omega

/-- No end that fits has more characters than units. -/
theorem IsLongestEnd.of_drop (h : IsLongestEnd n (text.drop (text.length - n)) found) : IsLongestEnd n text found where
  suffix := h.suffix.trans (List.drop_suffix ..)
  short := h.short
  longest other hother hfits := by
    refine h.longest other (List.suffix_of_suffix_length_le hother (List.drop_suffix ..) ?_) hfits
    have := length_le_utf16Units other
    have := hother.length_le
    rw [List.length_drop]
    omega

theorem IsLongestBeginning.of_take (h : IsLongestBeginning n (text.take n) found) : IsLongestBeginning n text found where
  start := h.start.trans (List.take_prefix ..)
  short := h.short
  longest other hother hfits := by
    refine h.longest other (List.prefix_of_prefix_length_le hother (List.take_prefix ..) ?_) hfits
    have := length_le_utf16Units other
    have := hother.length_le
    rw [List.length_take]
    omega

theorem take_append_lastUnits (n : ℕ) (units : List ℕ) :
    units = units.take (units.length - n) ++ lastUnits n units := (List.take_append_drop ..).symm

theorem length_lastUnits (n : ℕ) (units : List ℕ) : (lastUnits n units).length = min n units.length := by
  rw [lastUnits, List.length_drop]
  omega

/-- **The last units of a text** are those of its longest end, or the second half of a pair and those. -/
theorem lastUnits_cases (n : ℕ) (text : List Char) : ∃ found, IsLongestEnd n text found ∧
    (lastUnits n (utf16Units text) = utf16Units found ∨
      ∃ low, isLowSurrogate low = true ∧ lastUnits n (utf16Units text) = low :: utf16Units found) := by
  have hsplit := take_append_lastUnits n (utf16Units text)
  have hlength := length_lastUnits n (utf16Units text)
  cases hlow : (lastUnits n (utf16Units text)).head?.any isLowSurrogate with
  | false =>
    obtain ⟨before, found, htext, hbefore, hfound⟩ := utf16Units_cut hsplit hlow
    refine ⟨found, isLongestEnd_of_next htext (by rw [hfound, hlength]; omega) ?_, .inl hfound.symm⟩
    rintro front c rfl
    have hpos := length_charUnits_pos c
    have hone := congrArg List.length hbefore
    rw [List.length_take] at hone
    simp only [utf16Units_append, utf16Units_cons, utf16Units_nil, List.append_nil, List.length_append] at hone
    rw [List.length_append, hfound, hlength]
    omega
  | true =>
    obtain ⟨low, units, hunits⟩ : ∃ low units, lastUnits n (utf16Units text) = low :: units := by
      cases hcase : lastUnits n (utf16Units text) with
      | nil => rw [hcase] at hlow; cases hlow
      | cons low units => exact ⟨low, units, rfl⟩
    rw [hunits] at hlow hlength hsplit
    have hlow' : isLowSurrogate low = true := hlow
    rw [List.append_cons] at hsplit
    have hhead : units.head?.any isLowSurrogate = false := by
      by_contra hmore
      have hhigh := (low_iff_high hsplit).mpr (Bool.not_eq_false _ ▸ hmore)
      rw [List.getLast?_concat] at hhigh
      exact Bool.noConfusion (hlow'.symm.trans (high_or_low hhigh))
    obtain ⟨before, found, htext, hbefore, hfound⟩ := utf16Units_cut hsplit hhead
    rw [List.length_cons] at hlength
    refine ⟨found, isLongestEnd_of_next htext (by rw [hfound]; omega) ?_, .inr ⟨low, hlow', by rw [hunits, hfound]⟩⟩
    rintro front c rfl
    -- The character before the end is the one that was cut, so it takes two units.
    rcases charUnits_cases c with ⟨-, hc, -, hnotlow⟩ | ⟨-, high, low', hc, -⟩
    · rw [utf16Units_append, utf16Units_cons, utf16Units_nil, List.append_nil, hc] at hbefore
      obtain ⟨-, hlast⟩ := List.append_inj' hbefore rfl
      rw [(List.cons.inj hlast).1, hlow'] at hnotlow
      cases hnotlow
    · have hone := congrArg List.length hbefore
      rw [utf16Units_append, utf16Units_cons, utf16Units_nil, List.append_nil, hc] at hone
      simp only [List.length_append, List.length_take, List.length_cons, List.length_nil] at hone
      rw [hc, List.length_append, hfound]
      simp only [List.length_cons, List.length_nil]
      omega

/-- **The first units of a text** are those of its longest beginning, or those and the first half of a pair. -/
theorem firstUnits_cases (n : ℕ) (text : List Char) : ∃ found, IsLongestBeginning n text found ∧
    ((utf16Units text).take n = utf16Units found ∨
      ∃ high, isHighSurrogate high = true ∧ (utf16Units text).take n = utf16Units found ++ [high]) := by
  have hsplit : utf16Units text = (utf16Units text).take n ++ (utf16Units text).drop n :=
    (List.take_append_drop ..).symm
  have hlength : ((utf16Units text).take n).length = min n (utf16Units text).length := List.length_take
  cases hlow : ((utf16Units text).drop n).head?.any isLowSurrogate with
  | false =>
    obtain ⟨found, after, htext, hfound, hafter⟩ := utf16Units_cut hsplit hlow
    refine ⟨found, isLongestBeginning_of_next htext (by rw [hfound, hlength]; omega) ?_, .inl hfound.symm⟩
    rintro c rest rfl
    have hpos := length_charUnits_pos c
    have hone := congrArg List.length hafter
    rw [List.length_drop, utf16Units_cons, List.length_append] at hone
    rw [List.length_append, hfound, hlength]
    omega
  | true =>
    have hhigh := (low_iff_high hsplit).mpr hlow
    rcases ((utf16Units text).take n).eq_nil_or_concat' with hnil | ⟨units, high, hunits⟩
    · rw [hnil] at hhigh
      cases hhigh
    rw [hunits] at hhigh hsplit hlength
    rw [List.getLast?_concat] at hhigh
    have hhigh' : isHighSurrogate high = true := hhigh
    rw [List.append_assoc, List.singleton_append] at hsplit
    have hhead : (high :: (utf16Units text).drop n).head?.any isLowSurrogate = false := high_or_low hhigh'
    obtain ⟨found, after, htext, hfound, hafter⟩ := utf16Units_cut hsplit hhead
    rw [List.length_append, List.length_singleton] at hlength
    refine ⟨found, isLongestBeginning_of_next htext (by rw [hfound]; omega) ?_,
      .inr ⟨high, hhigh', by rw [hunits, hfound]⟩⟩
    rintro c rest rfl
    rcases charUnits_cases c with ⟨-, hc, hnothigh, -⟩ | ⟨-, high', low, hc, -⟩
    · rw [utf16Units_cons, hc] at hafter
      rw [(List.cons.inj hafter).1, hhigh'] at hnothigh
      cases hnothigh
    · have hone := congrArg List.length hafter
      rw [utf16Units_cons, hc] at hone
      simp only [List.length_append, List.length_drop, List.length_cons, List.length_nil] at hone
      rw [hc, List.length_append, hfound]
      simp only [List.length_cons, List.length_nil]
      omega

end Speecher
