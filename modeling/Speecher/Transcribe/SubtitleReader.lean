import Mathlib.Tactic.Positivity
import Speecher.Transcribe.Subtitles

/-!
# Reading subtitles back

`readSubRip` and `readWebVtt` read the blocks of a subtitle file: the number and the times of a cue, and its text on
the lines after them. `readSubRip_subtitleFile` and `readWebVtt_subtitleFile` recover the cues the file was written
from, numbers and milliseconds included, and `isCueText_of_mem_cues` is what keeps a text within its block: it is one
line that is not blank, and WebVTT's escaping leaves no arrow in it.
-/

namespace Speecher

namespace Subtitles

/-! ## The readers -/

def readTimestamp (decimalMark : Char) (text : Text) : Option ℤ :=
  match text.splitOn ':' with
  | [hours, minutes, rest] =>
    match rest.splitOn decimalMark with
    | [seconds, millis] => do
      guard (2 ≤ hours.length ∧ minutes.length = 2 ∧ seconds.length = 2 ∧ millis.length = 3)
      let h ← readDigits hours
      let m ← readDigits minutes
      let s ← readDigits seconds
      let ms ← readDigits millis
      guard (m < 60 ∧ s < 60)
      return (((h * 60 + m) * 60 + s) * 1000 + ms : ℕ)
    | _ => none
  | _ => none

def readTiming (decimalMark : Char) (line : Text) : Option (ℤ × ℤ) :=
  match line.splitOn ' ' with
  | [start, mark, stop] => do
    guard (mark = arrow)
    return (← readTimestamp decimalMark start, ← readTimestamp decimalMark stop)
  | _ => none

/-- A SubRip block: a number, the times, and lines of text. -/
def readSubRipBlock : List Text → Option (TranscriptSegment × ℕ)
  | index :: times :: lines => do
    let number ← readDigits index
    let (startMs, endMs) ← readTiming ',' times
    return (⟨startMs, endMs, ['\n'].intercalate lines⟩, number)
  | _ => none

def readSubRip (text : Text) : Option (List (TranscriptSegment × ℕ)) :=
  (readBlocks '\n' text).mapM readSubRipBlock

/-- The text that WebVTT cue text stands for. -/
def unescaped : Text → Text
  | '&' :: 'a' :: 'm' :: 'p' :: ';' :: rest => '&' :: unescaped rest
  | '&' :: 'l' :: 't' :: ';' :: rest => '<' :: unescaped rest
  | '&' :: 'g' :: 't' :: ';' :: rest => '>' :: unescaped rest
  | c :: rest => c :: unescaped rest
  | [] => []

/-- The times of a WebVTT cue and its lines of text. -/
def readWebVttCue (times : Text) (lines : List Text) : Option TranscriptSegment := do
  let (startMs, endMs) ← readTiming '.' times
  return ⟨startMs, endMs, unescaped (['\n'].intercalate lines)⟩

/-- A WebVTT block: the line with the arrow, after an identifier or without one, and lines of text. -/
def readWebVttBlock : List Text → Option TranscriptSegment
  | [] => none
  | first :: lines =>
    if arrow <:+: first then readWebVttCue first lines
    else
      match lines with
      | times :: lines => readWebVttCue times lines
      | [] => none

/-- The cues of a WebVTT file, numbered as they come. -/
def readWebVtt (text : Text) : Option (List (TranscriptSegment × ℕ)) :=
  match readBlocks '\n' text with
  | (header :: _) :: blocks =>
    if "WEBVTT".toList <+: header then (blocks.mapM readWebVttBlock).map (·.zipIdx 1) else none
  | _ => none

/-! ## Texts of cues -/

/-- A text whose white space is single spaces, apart from each other and from its ends. -/
structure Simplified (text : Text) : Prop where
  ne_nil : text ≠ []
  space : ∀ c ∈ text, isSpace c → c = ' '
  apart : ¬[' ', ' '] <:+: text
  first : ' ' ∉ text.head?
  last : ' ' ∉ text.getLast?

/-- A text for one line of a file, which is not blank. -/
structure IsCueText (text : Text) : Prop where
  ne_nil : text ≠ []
  space : ∀ c ∈ text, isSpace c → c = ' '

/-- A text without an empty word has no two spaces together and none at its ends. -/
theorem apart_of_nil_notMem {text : Text} (h : [] ∉ text.splitOn ' ') :
    ¬[' ', ' '] <:+: text ∧ ' ' ∉ text.head? ∧ ' ' ∉ text.getLast? := by
  refine ⟨?_, ?_, ?_⟩
  · rintro ⟨before, after, rfl⟩
    refine h ?_
    rw [List.append_assoc, List.cons_append, List.cons_append, List.nil_append, List.splitOn_append_cons_self,
      List.splitOn_cons_eq_if_modifyHead]
    simp
  · intro hfirst
    obtain ⟨rest, rfl⟩ := List.head?_eq_some_iff.mp hfirst
    exact h (by simp [List.splitOn_cons_eq_if_modifyHead])
  · intro hlast
    obtain ⟨before, rfl⟩ := List.getLast?_eq_some_iff.mp hlast
    exact h (by simp [List.splitOn_append_cons_self])

/-- A word after the first is empty between two spaces, or after a last one. -/
theorem of_nil_mem_tail_splitOn : ∀ {text : Text}, [] ∈ (text.splitOn ' ').tail →
    [' ', ' '] <:+: text ∨ ' ' ∈ text.getLast?
  | [], h => by simp at h
  | [c], h => by
    rw [List.splitOn_cons_eq_if_modifyHead] at h
    split_ifs at h with hc
    · exact .inr (by simpa using hc)
    · simp at h
  | c :: next :: rest, h => by
    have hrest : [] ∈ ((next :: rest).splitOn ' ').tail → [' ', ' '] <:+: c :: next :: rest ∨
        ' ' ∈ (c :: next :: rest).getLast? := by
      intro htail
      refine (of_nil_mem_tail_splitOn htail).imp (fun hwithin => hwithin.trans (List.infix_cons List.infix_rfl)) ?_
      simp
    rw [List.splitOn_cons_eq_if_modifyHead] at h
    split_ifs at h with hc
    · rw [List.tail_cons, List.splitOn_cons_eq_if_modifyHead] at h
      split_ifs at h with hnext
      · refine .inl (List.IsPrefix.isInfix ⟨rest, ?_⟩)
        rw [LawfulBEq.eq_of_beq hc, LawfulBEq.eq_of_beq hnext]
        rfl
      · refine hrest ?_
        obtain ⟨first, words, hwords⟩ := List.exists_cons_of_ne_nil (List.splitOn_ne_nil ' ' rest)
        rw [List.splitOn_cons_eq_if_modifyHead, if_neg hnext]
        simpa [hwords] using h
    · rw [List.tail_modifyHead] at h
      exact hrest h

theorem Simplified.nil_notMem {text : Text} (h : Simplified text) : [] ∉ text.splitOn ' ' := by
  intro hnil
  have htail : [] ∈ (text.splitOn ' ').tail := by
    obtain ⟨c, rest, rfl⟩ := List.exists_cons_of_ne_nil h.ne_nil
    have hc : (c == ' ') = false := by simpa using h.first
    rw [List.splitOn_cons_eq_if_modifyHead, hc, if_neg Bool.false_ne_true] at hnil ⊢
    obtain ⟨first, words, hwords⟩ := List.exists_cons_of_ne_nil (List.splitOn_ne_nil ' ' rest)
    simpa [hwords] using hnil
  exact (of_nil_mem_tail_splitOn htail).elim h.apart h.last

theorem simplified_simplified {text : Text} (h : simplified text ≠ []) : Simplified (simplified text) := by
  set words := (text.splitOnP isSpace).filter (· ≠ []) with hwords
  have hword : ∀ word ∈ words, word ≠ [] ∧ ∀ c ∈ word, isSpace c = false := by
    intro word hmem
    obtain ⟨hmem, hne⟩ := List.mem_filter.mp hmem
    exact ⟨by simpa using hne, eq_false_of_mem_splitOnP hmem⟩
  have hwords_ne : words ≠ [] := by
    intro hnil
    exact h (by rw [simplified, ← hwords, hnil]; rfl)
  have hsplit : (simplified text).splitOn ' ' = words := by
    refine List.splitOn_intercalate ' ' (fun word hmem hspace => ?_) hwords_ne
    exact absurd ((hword word hmem).2 ' ' hspace) (by decide)
  have hnil : [] ∉ (simplified text).splitOn ' ' := by
    rw [hsplit]
    exact fun hnil => (hword [] hnil).1 rfl
  obtain ⟨hapart, hfirst, hlast⟩ := apart_of_nil_notMem hnil
  refine ⟨h, fun c hc hspace => ?_, hapart, hfirst, hlast⟩
  rcases mem_of_mem_intercalate hc with hc | ⟨word, hmem, hc⟩
  · simpa using hc
  · rw [(hword word hmem).2 c hc] at hspace
    cases hspace

/-- A trimmed part of such a text is one, unless it is empty. -/
theorem Simplified.trimmed {text part : Text} (h : Simplified text) (hpart : part <:+: text)
    (hne : trimmed part ≠ []) : Simplified (trimmed part) := by
  have hwithin : Speecher.trimmed part <:+: text :=
    (List.rdropWhile_prefix isSpace _).isInfix.trans ((List.dropWhile_suffix isSpace).isInfix.trans hpart)
  refine ⟨hne, fun c hc => h.space c (hwithin.subset hc), fun hspaces => h.apart (hspaces.trans hwithin), ?_, ?_⟩
  · exact fun hfirst => absurd (isSpace_head_trimmed part ' ' hfirst) (by decide)
  · exact fun hlast => absurd (isSpace_last_trimmed part ' ' hlast) (by decide)

theorem flatten_cutAfter (marks text : Text) : (cutAfter marks text).flatten = text := by
  fun_induction cutAfter marks text with
  | case1 => rfl
  | case2 c => rfl
  | case3 c next rest hcut ih => rw [List.flatten_cons, ih, List.singleton_append]
  | case4 c next rest hcut ih =>
    cases hpieces : cutAfter marks (next :: rest) with
    | nil => simp [hpieces] at ih
    | cons piece pieces =>
      rw [hpieces] at ih
      simpa using ih

theorem Simplified.of_mem_splitAt {text part : Text} (h : Simplified text) {place : Break}
    (hpart : part ∈ splitAt text place) : Simplified part := by
  have hafter (marks : Text) (hpart : part ∈ splitAfter text marks) : Simplified part := by
    obtain ⟨hpart, hne⟩ := List.mem_filter.mp hpart
    obtain ⟨piece, hpiece, rfl⟩ := List.mem_map.mp hpart
    refine h.trimmed ?_ (by simpa using hne)
    exact flatten_cutAfter marks text ▸ List.infix_of_mem_flatten hpiece
  cases place with
  | sentence => exact hafter _ hpart
  | clause => exact hafter _ hpart
  | none => exact List.mem_singleton.mp hpart ▸ h
  | word =>
    have hne : part ≠ [] := fun hnil => h.nil_notMem (hnil ▸ hpart)
    have hwithin : part <:+: text := by
      have hwords : [' '].intercalate (text.splitOn ' ') = text := List.intercalate_splitOn ' '
      exact hwords ▸ infix_intercalate hpart
    have hspace : ' ' ∉ part := by
      rw [splitAt, List.splitOn_eq_splitOnP] at hpart
      intro hspace
      have := eq_false_of_mem_splitOnP hpart ' ' hspace
      cases this
    refine ⟨hne, fun c hc => h.space c (hwithin.subset hc), fun hspaces => ?_, fun hfirst => ?_, fun hlast => ?_⟩
    · exact hspace (hspaces.subset List.mem_cons_self)
    · exact hspace (List.mem_of_mem_head? hfirst)
    · exact hspace (List.mem_of_mem_getLast? hlast)

theorem Simplified.of_mem_appendPieces {text piece : Text} {place : Break} (h : Simplified text)
    (hpiece : piece ∈ appendPieces text place) : Simplified piece := by
  fun_induction appendPieces text place with
  | case1 text place hfits => exact List.mem_singleton.mp hpiece ▸ h
  | case2 text place hlong ih =>
    obtain ⟨part, hpart, hpiece⟩ := List.mem_flatMap.mp hpiece
    exact ih part (h.of_mem_splitAt hpart) hpiece

theorem isCueText_joinPiece {cues : List Text} {piece : Text} (h : ∀ cue ∈ cues, IsCueText cue)
    (hpiece : IsCueText piece) : ∀ cue ∈ joinPiece cues piece, IsCueText cue := by
  have hsnoc : ∀ cue ∈ cues ++ [piece], IsCueText cue := by
    simpa [or_imp, forall_and] using ⟨h, hpiece⟩
  unfold joinPiece
  split
  · rename_i last hlast
    split_ifs
    · intro cue hcue
      rcases List.mem_append.mp hcue with hcue | hcue
      · exact h cue (List.mem_of_mem_dropLast hcue)
      · rw [List.mem_singleton.mp hcue]
        refine ⟨by simp, fun c hc hspace => ?_⟩
        rcases List.mem_append.mp hc with hc | hc
        · exact (h last (List.mem_of_mem_getLast? hlast)).space c hc hspace
        · rcases List.mem_cons.mp hc with rfl | hc
          · rfl
          · exact hpiece.space c hc hspace
    · exact hsnoc
  · exact hsnoc

theorem isCueText_of_mem_cueTexts {text cue : Text} (h : Simplified text) (hcue : cue ∈ cueTexts text) :
    IsCueText cue := by
  have hjoin : ∀ {pieces cues : List Text}, (∀ cue ∈ cues, IsCueText cue) → (∀ piece ∈ pieces, IsCueText piece) →
      ∀ cue ∈ pieces.foldl joinPiece cues, IsCueText cue := by
    intro pieces
    induction pieces with
    | nil => exact fun hcues _ => hcues
    | cons piece pieces ih =>
      intro cues hcues hpieces
      refine ih (isCueText_joinPiece hcues (hpieces piece List.mem_cons_self)) ?_
      exact fun other hother => hpieces other (List.mem_cons_of_mem piece hother)
  refine hjoin (by simp) (fun piece hpiece => ?_) cue hcue
  have hsimplified := h.of_mem_appendPieces hpiece
  exact ⟨hsimplified.ne_nil, hsimplified.space⟩

/-! ## Times of cues -/

/-- What a reader relies on in a cue: times from zero on, and a text for one line. -/
structure IsCue (cue : TranscriptSegment) : Prop where
  startMs : 0 ≤ cue.startMs
  endMs : 0 ≤ cue.endMs
  text : IsCueText cue.text

theorem isCue_of_mem_cuesOf {startMs duration : ℤ} {total : ℕ} (hstart : 0 ≤ startMs) (hduration : 0 ≤ duration) :
    ∀ {texts : List Text} {before : ℕ}, (∀ text ∈ texts, IsCueText text) →
      ∀ cue ∈ cuesOf startMs duration total before texts, IsCue cue
  | [], _, _ => by simp [cuesOf]
  | piece :: texts, before, htexts => by
    intro cue hcue
    rcases List.mem_cons.mp hcue with rfl | hcue
    · have hbefore : 0 ≤ duration * before / total := by positivity
      refine ⟨?_, ?_, htexts piece List.mem_cons_self⟩
      · dsimp only
        omega
      · simp only [minCueMs]
        omega
    · exact isCue_of_mem_cuesOf hstart hduration
        (fun text htext => htexts text (List.mem_cons_of_mem piece htext)) cue hcue

/-- **Every cue has times from zero on and a text for one line.** -/
theorem isCue_of_mem_cues {segments : List TranscriptSegment} (h : ∀ segment ∈ segments, 0 ≤ segment.startMs) :
    ∀ cue ∈ cues segments, IsCue cue := by
  intro cue hcue
  obtain ⟨segment, hsegment, hcue⟩ := List.mem_flatMap.mp hcue
  unfold segmentCues at hcue
  dsimp only at hcue
  split_ifs at hcue with hblank
  · cases hcue
  · exact isCue_of_mem_cuesOf (h segment hsegment) (le_max_left _ _)
      (fun text htext => isCueText_of_mem_cueTexts (simplified_simplified hblank) htext) cue hcue

/-! ## Timestamps -/

theorem argNumber_natCast (number width : ℕ) : argNumber number width = paddedDigits width number := by
  rw [argNumber, if_pos (Int.natCast_nonneg number), Int.natAbs_natCast]

theorem timestamp_natCast (ms : ℕ) (decimalMark : Char) :
    timestamp ms decimalMark =
      [':'].intercalate [paddedDigits 2 (ms / 3600000), paddedDigits 2 (ms / 60000 % 60),
        [decimalMark].intercalate [paddedDigits 2 (ms / 1000 % 60), paddedDigits 3 (ms % 1000)]] := by
  have hhours : (ms : ℤ).tdiv 3600000 = (ms / 3600000 : ℕ) := rfl
  have hminutes : ((ms : ℤ).tdiv 60000).tmod 60 = (ms / 60000 % 60 : ℕ) := rfl
  have hseconds : ((ms : ℤ).tdiv 1000).tmod 60 = (ms / 1000 % 60 : ℕ) := rfl
  have hmillis : (ms : ℤ).tmod 1000 = (ms % 1000 : ℕ) := rfl
  simp only [timestamp, hhours, hminutes, hseconds, hmillis, argNumber_natCast, List.intercalate_cons_cons,
    List.intercalate_singleton, List.append_assoc, List.cons_append, List.nil_append]

theorem notMem_paddedDigits {c : Char} (h : c.isDigit = false) (width number : ℕ) :
    c ∉ paddedDigits width number := fun hmem => by
  rw [isDigit_of_mem_paddedDigits hmem] at h
  cases h

/-- **A timestamp is read back to the millisecond.** -/
theorem readTimestamp_timestamp {decimalMark : Char} (hmark : decimalMark.isDigit = false) (hcolon : decimalMark ≠ ':')
    {ms : ℤ} (h : 0 ≤ ms) : readTimestamp decimalMark (timestamp ms decimalMark) = some ms := by
  lift ms to ℕ using h
  have hrest : ':' ∉ [decimalMark].intercalate [paddedDigits 2 (ms / 1000 % 60), paddedDigits 3 (ms % 1000)] := by
    simp [notMem_paddedDigits, hcolon.symm]
  have hhours : 2 ≤ (paddedDigits 2 (ms / 3600000)).length := by simp [paddedDigits, List.leftpad]; omega
  rw [timestamp_natCast, readTimestamp, List.splitOn_intercalate ':' ?_ (List.cons_ne_nil _ _)]
  · dsimp only
    rw [List.splitOn_intercalate decimalMark ?_ (List.cons_ne_nil _ _)]
    · simp only [readDigits_paddedDigits, hhours, length_paddedDigits (show 0 < 2 by decide)
        (show ms / 60000 % 60 < 10 ^ 2 by omega), length_paddedDigits (show 0 < 2 by decide)
        (show ms / 1000 % 60 < 10 ^ 2 by omega), length_paddedDigits (show 0 < 3 by decide)
        (show ms % 1000 < 10 ^ 3 by omega)]
      have hsum : ((ms / 3600000 * 60 + ms / 60000 % 60) * 60 + ms / 1000 % 60) * 1000 + ms % 1000 = ms := by omega
      have hrange : ms / 60000 % 60 < 60 ∧ ms / 1000 % 60 < 60 := by omega
      simp [guard, hrange]
      exact_mod_cast hsum
    · simp [notMem_paddedDigits hmark]
  · simp only [List.mem_cons, List.not_mem_nil, or_false, forall_eq_or_imp, forall_eq]
    have hcolon : Char.isDigit ':' = false := rfl
    exact ⟨notMem_paddedDigits hcolon 2 _, notMem_paddedDigits hcolon 2 _, hrest⟩

/-- Digits, colons and the decimal mark are all there is in a timestamp. -/
theorem mem_timestamp {ms : ℤ} (h : 0 ≤ ms) {decimalMark c : Char} (hc : c ∈ timestamp ms decimalMark) :
    c.isDigit ∨ c = ':' ∨ c = decimalMark := by
  lift ms to ℕ using h
  rw [timestamp_natCast] at hc
  rcases mem_of_mem_intercalate hc with hc | ⟨part, hpart, hc⟩
  · exact .inr (.inl (List.mem_singleton.mp hc))
  simp only [List.mem_cons, List.not_mem_nil, or_false] at hpart
  rcases hpart with rfl | rfl | rfl
  · exact .inl (isDigit_of_mem_paddedDigits hc)
  · exact .inl (isDigit_of_mem_paddedDigits hc)
  rcases mem_of_mem_intercalate hc with hc | ⟨part, hpart, hc⟩
  · exact .inr (.inr (List.mem_singleton.mp hc))
  simp only [List.mem_cons, List.not_mem_nil, or_false] at hpart
  rcases hpart with rfl | rfl <;> exact .inl (isDigit_of_mem_paddedDigits hc)

/-- A character that ends a line, or a word of one, is not part of a timestamp. -/
theorem notMem_timestamp {ms : ℤ} (h : 0 ≤ ms) {decimalMark c : Char} (hdigit : c.isDigit = false) (hcolon : c ≠ ':')
    (hmark : c ≠ decimalMark) : c ∉ timestamp ms decimalMark := fun hmem => by
  rcases mem_timestamp h hmem with hc | hc | hc
  · rw [hc] at hdigit
    cases hdigit
  · exact hcolon hc
  · exact hmark hc

section Timing

variable {decimalMark : Char} {cue : TranscriptSegment} (hmark : decimalMark = ',' ∨ decimalMark = '.')
  (h : IsCue cue)

include hmark h

theorem readTiming_timing : readTiming decimalMark (timing cue decimalMark) = some (cue.startMs, cue.endMs) := by
  have hdigit : decimalMark.isDigit = false := by rcases hmark with rfl | rfl <;> rfl
  have hcolon : decimalMark ≠ ':' := by rcases hmark with rfl | rfl <;> decide
  have hspace : ' ' ≠ decimalMark := by rcases hmark with rfl | rfl <;> decide
  have hwords : timing cue decimalMark =
      [' '].intercalate [timestamp cue.startMs decimalMark, arrow, timestamp cue.endMs decimalMark] := by
    simp [timing]
  rw [readTiming, hwords, List.splitOn_intercalate ' ' ?_ (List.cons_ne_nil _ _)]
  · simp [guard, readTimestamp_timestamp hdigit hcolon h.startMs, readTimestamp_timestamp hdigit hcolon h.endMs]
  · simp only [List.mem_cons, List.not_mem_nil, or_false, forall_eq_or_imp, forall_eq]
    exact ⟨notMem_timestamp h.startMs rfl (by decide) hspace, by decide,
      notMem_timestamp h.endMs rfl (by decide) hspace⟩

theorem newline_notMem_timing : '\n' ∉ timing cue decimalMark := by
  have hnewline : '\n' ≠ decimalMark := by rcases hmark with rfl | rfl <;> decide
  simp only [timing, List.mem_append, List.mem_cons, not_or]
  exact ⟨⟨notMem_timestamp h.startMs rfl (by decide) hnewline, by decide, by decide⟩, by decide,
    notMem_timestamp h.endMs rfl (by decide) hnewline⟩

end Timing

theorem IsCueText.newline_notMem {text : Text} (h : IsCueText text) : '\n' ∉ text :=
  fun hmem => absurd (h.space '\n' hmem rfl) (by decide)

theorem timing_ne_nil (cue : TranscriptSegment) (decimalMark : Char) : timing cue decimalMark ≠ [] := by
  simp [timing]

/-! ## WebVTT text -/

/-- What a character is escaped as. -/
def escapedChar (c : Char) : Text :=
  if c = '&' then "&amp;".toList else if c = '<' then "&lt;".toList else if c = '>' then "&gt;".toList else [c]

theorem escapedForWebVtt_eq (text : Text) : escapedForWebVtt text = text.flatMap escapedChar := by
  rw [escapedForWebVtt, replaced, replaced, replaced, List.flatMap_assoc, List.flatMap_assoc]
  refine List.flatMap_congr fun c _ => ?_
  by_cases hand : c = '&'
  · subst hand
    rfl
  by_cases hless : c = '<'
  · subst hless
    rfl
  simp [escapedChar, hand, hless]

theorem unescaped_cons {c : Char} (h : c ≠ '&') (rest : Text) : unescaped (c :: rest) = c :: unescaped rest := by
  rw [unescaped.eq_def]
  split <;> simp_all

/-- **Escaping is undone.** -/
theorem unescaped_escapedForWebVtt (text : Text) : unescaped (escapedForWebVtt text) = text := by
  rw [escapedForWebVtt_eq]
  induction text with
  | nil => rfl
  | cons c text ih =>
    rw [List.flatMap_cons, escapedChar]
    split_ifs with hand hless hmore
    · exact hand ▸ congrArg ('&' :: ·) ih
    · exact hless ▸ congrArg ('<' :: ·) ih
    · exact hmore ▸ congrArg ('>' :: ·) ih
    · rw [List.singleton_append, unescaped_cons hand, ih]

/-- The characters of an escaped text: its own, but no angle, and those of the three escapes. -/
theorem mem_escapedForWebVtt {text : Text} {c : Char} (h : c ∈ escapedForWebVtt text) :
    c ∈ text ∧ c ≠ '>' ∨ c ∈ "&amp;lt;gt;".toList := by
  rw [escapedForWebVtt_eq] at h
  obtain ⟨d, hd, hc⟩ := List.mem_flatMap.mp h
  unfold escapedChar at hc
  split_ifs at hc with hand hless hmore
  · exact .inr ((by decide : "&amp;".toList ⊆ "&amp;lt;gt;".toList) hc)
  · exact .inr ((by decide : "&lt;".toList ⊆ "&amp;lt;gt;".toList) hc)
  · exact .inr ((by decide : "&gt;".toList ⊆ "&amp;lt;gt;".toList) hc)
  · rw [List.mem_singleton.mp hc]
    exact .inl ⟨hd, hmore⟩

theorem arrow_not_infix (text : Text) : ¬arrow <:+: escapedForWebVtt text := by
  intro harrow
  have hmem : '>' ∈ escapedForWebVtt text := harrow.subset (by decide)
  rcases mem_escapedForWebVtt hmem with ⟨-, hne⟩ | hmem
  · exact hne rfl
  · exact absurd hmem (by decide)

/-! ## Files -/

theorem mapM_map_eq_some {α β γ : Type*} {write : α → β} {read : β → Option γ} {expected : α → γ} :
    ∀ {items : List α}, (∀ item ∈ items, read (write item) = some (expected item)) →
      (items.map write).mapM read = some (items.map expected)
  | [], _ => rfl
  | item :: items, h => by
    have ih := mapM_map_eq_some fun other hother => h other (List.mem_cons_of_mem item hother)
    rw [List.map_cons, List.mapM_cons, h item List.mem_cons_self, ih]
    rfl

/-- The blocks of a SubRip file. -/
def subRipBlock (numbered : TranscriptSegment × ℕ) : List Text :=
  [argNumber numbered.2 0, timing numbered.1 ',', numbered.1.text]

/-- The blocks of a WebVTT file after its header. -/
def webVttBlock (cue : TranscriptSegment) : List Text := [timing cue '.', escapedForWebVtt cue.text]

theorem subtitleFile_srt (segments : List TranscriptSegment) :
    subtitleFile segments .srt = blocksText '\n' (((cues segments).zipIdx 1).map subRipBlock) := by
  have hnumbered : (cues segments).zipIdx 1 = (cues segments).zipIdx.map fun numbered => (numbered.1, 1 + numbered.2) :=
    List.zipIdx_eq_map_add
  rw [subtitleFile, if_neg (by decide), blocksText, List.mapIdx_eq_zipIdx_map, hnumbered, List.map_map, List.map_map]
  congr 1
  refine List.map_congr_left fun numbered _ => ?_
  simp [subRipBlock, add_comm]

theorem subtitleFile_webVtt (segments : List TranscriptSegment) :
    subtitleFile segments .webVtt = blocksText '\n' (["WEBVTT".toList] :: (cues segments).map webVttBlock) := by
  rw [subtitleFile, if_pos rfl, blocksText, List.map_cons, List.map_map]
  congr 2
  refine List.map_congr_left fun cue _ => ?_
  simp [webVttBlock]

theorem isBlock_subRipBlock {numbered : TranscriptSegment × ℕ} (h : IsCue numbered.1) :
    IsBlock '\n' (subRipBlock numbered) where
  ne_nil := by simp [subRipBlock]
  nil_notMem := by
    have hnumber : argNumber numbered.2 0 ≠ [] := by
      rw [argNumber_natCast]
      exact paddedDigits_ne_nil 0 numbered.2
    simp only [subRipBlock, List.mem_cons, List.not_mem_nil, or_false, not_or]
    exact ⟨hnumber.symm, (timing_ne_nil numbered.1 ',').symm, h.text.ne_nil.symm⟩
  newline_notMem := by
    have hnumber : '\n' ∉ argNumber numbered.2 0 := by
      rw [argNumber_natCast]
      exact notMem_paddedDigits rfl 0 numbered.2
    simp only [subRipBlock, List.mem_cons, List.not_mem_nil, or_false, forall_eq_or_imp, forall_eq]
    exact ⟨hnumber, newline_notMem_timing (.inl rfl) h, h.text.newline_notMem⟩

theorem isBlock_webVttBlock {cue : TranscriptSegment} (h : IsCue cue) : IsBlock '\n' (webVttBlock cue) where
  ne_nil := by simp [webVttBlock]
  nil_notMem := by
    have htext : escapedForWebVtt cue.text ≠ [] := by
      intro hnil
      have := unescaped_escapedForWebVtt cue.text
      rw [hnil] at this
      exact h.text.ne_nil this.symm
    simp only [webVttBlock, List.mem_cons, List.not_mem_nil, or_false, not_or]
    exact ⟨(timing_ne_nil cue '.').symm, htext.symm⟩
  newline_notMem := by
    have htext : '\n' ∉ escapedForWebVtt cue.text := by
      intro hmem
      rcases mem_escapedForWebVtt hmem with ⟨hmem, -⟩ | hmem
      · exact h.text.newline_notMem hmem
      · exact absurd hmem (by decide)
    simp only [webVttBlock, List.mem_cons, List.not_mem_nil, or_false, forall_eq_or_imp, forall_eq]
    exact ⟨newline_notMem_timing (.inr rfl) h, htext⟩

theorem readSubRipBlock_subRipBlock {numbered : TranscriptSegment × ℕ} (h : IsCue numbered.1) :
    readSubRipBlock (subRipBlock numbered) = some numbered := by
  rw [subRipBlock, readSubRipBlock, argNumber_natCast, readDigits_paddedDigits, readTiming_timing (.inl rfl) h,
    List.intercalate_singleton]
  rfl

theorem readWebVttBlock_webVttBlock {cue : TranscriptSegment} (h : IsCue cue) :
    readWebVttBlock (webVttBlock cue) = some cue := by
  have harrow : arrow <:+: timing cue '.' :=
    ⟨timestamp cue.startMs '.' ++ [' '], ' ' :: timestamp cue.endMs '.', by simp [timing]⟩
  rw [webVttBlock, readWebVttBlock, if_pos harrow, readWebVttCue, readTiming_timing (.inr rfl) h,
    List.intercalate_singleton, unescaped_escapedForWebVtt]
  rfl

/-- **A SubRip file reads back as the cues**, numbered from one. -/
theorem readSubRip_subtitleFile {segments : List TranscriptSegment}
    (h : ∀ segment ∈ segments, 0 ≤ segment.startMs) :
    readSubRip (subtitleFile segments .srt) = some ((cues segments).zipIdx 1) := by
  have hcue : ∀ numbered ∈ (cues segments).zipIdx 1, IsCue numbered.1 := fun numbered hmem =>
    isCue_of_mem_cues h _ (List.fst_mem_of_mem_zipIdx hmem)
  rw [subtitleFile_srt, readSubRip, readBlocks_blocksText]
  · have hread := mapM_map_eq_some fun numbered hmem => readSubRipBlock_subRipBlock (hcue numbered hmem)
    rw [hread, List.map_id']
  · intro block hblock
    obtain ⟨numbered, hmem, rfl⟩ := List.mem_map.mp hblock
    exact isBlock_subRipBlock (hcue numbered hmem)

/-- **A WebVTT file reads back as the cues**, numbered from one. -/
theorem readWebVtt_subtitleFile {segments : List TranscriptSegment}
    (h : ∀ segment ∈ segments, 0 ≤ segment.startMs) :
    readWebVtt (subtitleFile segments .webVtt) = some ((cues segments).zipIdx 1) := by
  have hcue := isCue_of_mem_cues h
  rw [subtitleFile_webVtt, readWebVtt, readBlocks_blocksText]
  · have hread := mapM_map_eq_some fun cue hmem => readWebVttBlock_webVttBlock (hcue cue hmem)
    dsimp only
    rw [if_pos List.prefix_rfl, hread, List.map_id']
    rfl
  · intro block hblock
    rcases List.mem_cons.mp hblock with rfl | hblock
    · exact ⟨by decide, by decide, by decide⟩
    · obtain ⟨cue, hmem, rfl⟩ := List.mem_map.mp hblock
      exact isBlock_webVttBlock (hcue cue hmem)

/-- **Subtitle files read back as the cues they were written from**, and a cue's text is one line, not blank, that no
reader of blocks takes for another block or for the times of one. -/
theorem subtitleFile_readsBack (segments : List TranscriptSegment) (h : ∀ segment ∈ segments, 0 ≤ segment.startMs) :
    readSubRip (subtitleFile segments .srt) = some ((cues segments).zipIdx 1) ∧
      readWebVtt (subtitleFile segments .webVtt) = some ((cues segments).zipIdx 1) ∧
      ∀ cue ∈ cues segments, cue.text ≠ [] ∧ '\n' ∉ cue.text ∧ '\r' ∉ cue.text ∧
        ¬arrow <:+: escapedForWebVtt cue.text := by
  refine ⟨readSubRip_subtitleFile h, readWebVtt_subtitleFile h, fun cue hcue => ?_⟩
  have htext := (isCue_of_mem_cues h cue hcue).text
  refine ⟨htext.ne_nil, htext.newline_notMem, fun hreturn => ?_, arrow_not_infix cue.text⟩
  exact absurd (htext.space '\r' hreturn rfl) (by decide)

/-- A text with a blank line, a number and the times of a cue in it. -/
theorem subtitleFile_readsBack_times :
    let segments : List TranscriptSegment := [⟨1000, 2500, "Then\n\n2\n00:00:03.000 --> 00:00:04.000 <i>".toList⟩]
    readSubRip (subtitleFile segments .srt) = some ((cues segments).zipIdx 1) ∧
      readWebVtt (subtitleFile segments .webVtt) = some ((cues segments).zipIdx 1) := by
  intro segments
  have hreads := subtitleFile_readsBack segments (by simp [segments])
  exact ⟨hreads.1, hreads.2.1⟩

end Subtitles

end Speecher
