import Mathlib.Data.List.Chain
import Speecher.Bindings.SpacedWords
import Speecher.Transcribe.SubtitleReader

/-!
# How a segment is cut into cues

A segment's text is cut into pieces that fit, which are joined back while they fit, and its time is shared out by length.
The words of the text stay in order (`flatMap_wordsOf_cueTexts`), no cue is longer than it may be unless it is one word,
no two neighbours could be one (`apart_cueTexts`), and the times divide the segment's (`getElem_cuesOf`). `segment_split`
says it of a segment's cues.
-/

namespace Speecher.Subtitles

/-! ## Words -/

theorem splitOnP_congr {p q : Char → Bool} : ∀ {text : Text}, (∀ c ∈ text, p c = q c) → text.splitOnP p = text.splitOnP q
  | [], _ => rfl
  | c :: text, h => by
    rw [List.splitOnP_cons_eq_if_modifyHead, List.splitOnP_cons_eq_if_modifyHead, h c List.mem_cons_self,
      splitOnP_congr fun d hd => h d (List.mem_cons_of_mem c hd)]

/-- A text with single spaces is its words with single spaces. -/
theorem Simplified.joinWords_wordsOf {text : Text} (h : Simplified text) : joinWords (wordsOf text) = text := by
  have hsplit : text.splitOnP isSpace = text.splitOn ' ' := by
    rw [List.splitOn_eq_splitOnP]
    refine splitOnP_congr fun c hc => ?_
    by_cases hspace : isSpace c = true
    · rw [h.space c hc hspace]
      rfl
    · have hne : (c == ' ') = false := by
        rw [beq_eq_false_iff_ne]
        rintro rfl
        exact hspace rfl
      rw [hne, Bool.eq_false_iff.mpr hspace]
  have hwords : wordsOf text = text.splitOn ' ' := by
    rw [wordsOf, hsplit, List.filter_eq_self]
    intro word hword
    cases word with
    | nil => exact absurd hword h.nil_notMem
    | cons c word => rfl
  rw [hwords, joinWords]
  exact List.intercalate_splitOn ' '

/-- A text followed by one that begins with a space. -/
theorem wordsOf_append_cons_space (text rest : Text) {c : Char} (hc : isSpace c = true) :
    wordsOf (text ++ c :: rest) = wordsOf text ++ wordsOf (c :: rest) := by
  have hrest : wordsOf (c :: rest) = wordsOf rest := wordsOf_append_cons [] rest hc
  rw [wordsOf_append_cons _ _ hc, hrest]

/-- The words of texts one after the other, where all but the first begin with a space. -/
theorem wordsOf_flatten {first : Text} {pieces : List Text} (h : ∀ piece ∈ pieces, ∃ c rest, piece = c :: rest ∧ isSpace c = true) :
    wordsOf (first :: pieces).flatten = (first :: pieces).flatMap wordsOf := by
  induction pieces generalizing first with
  | nil => simp
  | cons piece pieces ih =>
    obtain ⟨c, rest, rfl, hc⟩ := h piece List.mem_cons_self
    have hlater : wordsOf ((c :: rest) :: pieces).flatten = _ := ih fun other hother => h other (List.mem_cons_of_mem _ hother)
    rw [List.flatten_cons, List.flatten_cons, List.cons_append, wordsOf_append_cons_space _ _ hc,
      List.flatMap_cons, ← hlater]
    rfl

theorem exists_cutAfter_cons (marks : Text) (c : Char) (rest : Text) :
    ∃ piece pieces, cutAfter marks (c :: rest) = (c :: piece) :: pieces := by
  induction rest generalizing c with
  | nil => exact ⟨[], [], rfl⟩
  | cons next rest ih =>
    rw [cutAfter]
    split
    · exact ⟨[], _, rfl⟩
    · obtain ⟨piece, pieces, hpieces⟩ := ih next
      rw [hpieces]
      exact ⟨_, _, rfl⟩

/-- A text is cut before spaces. -/
theorem space_of_mem_tail_cutAfter (marks text : Text) :
    ∀ piece ∈ (cutAfter marks text).tail, ∃ c rest, piece = c :: rest ∧ isSpace c = true := by
  fun_induction cutAfter marks text with
  | case1 => simp
  | case2 c => simp
  | case3 c next rest hcut ih =>
    obtain ⟨first, pieces, hpieces⟩ := exists_cutAfter_cons marks next rest
    rw [List.tail_cons]
    rw [hpieces] at ih ⊢
    intro piece hpiece
    rcases List.mem_cons.mp hpiece with rfl | hpiece
    · exact ⟨next, first, rfl, hcut.2⟩
    · exact ih piece hpiece
  | case4 c next rest hcut ih =>
    rw [List.tail_modifyHead]
    exact ih

/-- Texts that are trimmed, and those left out that are empty then, keep their words. -/
theorem flatMap_wordsOf_splitAfter (text marks : Text) : (splitAfter text marks).flatMap wordsOf = wordsOf text := by
  have hkeep : ∀ pieces : List Text, ((pieces.map trimmed).filter (· ≠ [])).flatMap wordsOf = pieces.flatMap wordsOf := by
    intro pieces
    induction pieces with
    | nil => rfl
    | cons piece pieces ih =>
      rw [List.map_cons, List.flatMap_cons, ← ih]
      by_cases hnone : trimmed piece = []
      · rw [List.filter_cons_of_neg (by simpa using hnone), wordsOf_eq_nil_iff.mpr hnone, List.nil_append]
      · rw [List.filter_cons_of_pos (by simpa using hnone), List.flatMap_cons, wordsOf_trimmed]
  rw [splitAfter, hkeep]
  have hspace := space_of_mem_tail_cutAfter marks text
  have hflatten := flatten_cutAfter marks text
  cases hpieces : cutAfter marks text with
  | nil =>
    rw [hpieces] at hflatten
    rw [← hflatten]
    rfl
  | cons first pieces =>
    rw [hpieces] at hspace hflatten
    exact (wordsOf_flatten hspace).symm.trans (congrArg wordsOf hflatten)

theorem flatMap_wordsOf_splitAt (text : Text) (place : Break) : (splitAt text place).flatMap wordsOf = wordsOf text := by
  cases place with
  | sentence => exact flatMap_wordsOf_splitAfter ..
  | clause => exact flatMap_wordsOf_splitAfter ..
  | none => simp [splitAt]
  | word =>
    rw [splitAt, ← wordsOf_joinWords, joinWords]
    exact congrArg wordsOf (List.intercalate_splitOn ' ')

theorem flatMap_wordsOf_appendPieces (text : Text) (place : Break) :
    (appendPieces text place).flatMap wordsOf = wordsOf text := by
  fun_induction appendPieces text place with
  | case1 text place hfits => simp
  | case2 text place hlong ih =>
    rw [List.flatMap_assoc, ← flatMap_wordsOf_splitAt text place]
    exact List.flatMap_congr fun part _ => ih part

/-! ## Joining -/

/-- A piece joins the last cue while it fits: what the cues are then. -/
theorem joinPiece_cases (cues : List Text) (piece : Text) :
    (joinPiece cues piece = cues ++ [piece] ∧ ∀ last ∈ cues.getLast?, maxCueChars < size last + 1 + size piece) ∨
      ∃ earlier last, cues = earlier ++ [last] ∧ joinPiece cues piece = earlier ++ [last ++ ' ' :: piece] ∧
        size last + 1 + size piece ≤ maxCueChars := by
  rw [joinPiece]
  split
  · rename_i last hlast
    obtain ⟨earlier, rfl⟩ := List.getLast?_eq_some_iff.mp hlast
    split
    · rename_i hfits
      exact .inr ⟨earlier, last, rfl, by rw [List.dropLast_concat], hfits⟩
    · rename_i hlong
      refine .inl ⟨rfl, fun other hother => ?_⟩
      rw [hlast] at hother
      cases hother
      omega
  · rename_i hnone
    exact .inl ⟨rfl, fun last hlast => by rw [hnone] at hlast; cases hlast⟩

/-- What pieces keep, joined one after the other. -/
theorem foldl_joinPiece {P : List Text → Prop} {Q : Text → Prop} {pieces : List Text}
    (step : ∀ cues piece, P cues → Q piece → P (joinPiece cues piece)) (hpieces : ∀ piece ∈ pieces, Q piece) :
    ∀ {cues : List Text}, P cues → P (pieces.foldl joinPiece cues) := by
  induction pieces with
  | nil => exact fun h => h
  | cons piece pieces ih =>
    intro cues h
    exact ih (fun other hother => hpieces other (List.mem_cons_of_mem piece hother))
      (step cues piece h (hpieces piece List.mem_cons_self))

/-! ## The cues of a text -/

theorem size_append (first second : Text) : size (first ++ second) = size first + size second := by
  simp [size]

theorem size_cons_space (text : Text) : size (' ' :: text) = 1 + size text := by
  rw [size, List.map_cons, List.sum_cons]
  rfl

theorem flatMap_wordsOf_joinPiece (cues : List Text) (piece : Text) :
    (joinPiece cues piece).flatMap wordsOf = cues.flatMap wordsOf ++ wordsOf piece := by
  rcases joinPiece_cases cues piece with ⟨heq, -⟩ | ⟨earlier, last, rfl, heq, -⟩
  · rw [heq, List.flatMap_append, List.flatMap_singleton]
  · rw [heq, List.flatMap_append, List.flatMap_append, List.flatMap_singleton, List.flatMap_singleton,
      wordsOf_append_cons _ _ (by decide), List.append_assoc]

/-- **The words of the cues are those of the text.** -/
theorem flatMap_wordsOf_cueTexts (text : Text) : (cueTexts text).flatMap wordsOf = wordsOf text := by
  have hfold : ∀ pieces cues : List Text,
      (pieces.foldl joinPiece cues).flatMap wordsOf = cues.flatMap wordsOf ++ pieces.flatMap wordsOf := by
    intro pieces
    induction pieces with
    | nil => simp
    | cons piece pieces ih =>
      intro cues
      rw [List.foldl_cons, ih, flatMap_wordsOf_joinPiece, List.flatMap_cons, List.append_assoc]
  rw [cueTexts, hfold, flatMap_wordsOf_appendPieces]
  rfl

/-- A text that is its words with single spaces. -/
def Spaced (text : Text) : Prop := wordsOf text ≠ [] ∧ joinWords (wordsOf text) = text

theorem joinWords_append {first second : List Text} (h : first ≠ []) (h' : second ≠ []) :
    joinWords (first ++ second) = joinWords first ++ ' ' :: joinWords second := by
  rw [joinWords, intercalate_append h h', List.append_assoc]
  rfl

theorem Spaced.append {first second : Text} (h : Spaced first) (h' : Spaced second) :
    Spaced (first ++ ' ' :: second) := by
  have hwords : wordsOf (first ++ ' ' :: second) = wordsOf first ++ wordsOf second :=
    wordsOf_append_cons _ _ (by decide)
  refine ⟨by simp [hwords, h.1], ?_⟩
  rw [hwords, joinWords_append h.1 h'.1, h.2, h'.2]

theorem Spaced.size_pos {text : Text} (h : Spaced text) : 0 < size text := by
  cases text with
  | nil => exact absurd rfl h.1
  | cons c text =>
    rw [size, List.map_cons, List.sum_cons]
    split <;> omega

/-- Such texts joined by single spaces are their words joined so. -/
theorem joinWords_spaced {texts : List Text} (h : ∀ text ∈ texts, Spaced text) :
    joinWords texts = joinWords (texts.flatMap wordsOf) := by
  induction texts with
  | nil => rfl
  | cons text texts ih =>
    have htext := h text List.mem_cons_self
    have hrest := ih fun other hother => h other (List.mem_cons_of_mem text hother)
    cases texts with
    | nil => rw [List.flatMap_singleton, htext.2, joinWords, List.intercalate_singleton]
    | cons next texts =>
      have hnext : (next :: texts).flatMap wordsOf ≠ [] := by
        rw [List.flatMap_cons]
        exact List.append_ne_nil_of_left_ne_nil (h next (by simp)).1 _
      rw [List.flatMap_cons, joinWords_append htext.1 hnext, ← hrest, htext.2]
      exact joinWords_append (List.cons_ne_nil text []) (List.cons_ne_nil next texts) |>.trans (by simp [joinWords])

theorem Simplified.spaced {text : Text} (h : Simplified text) : Spaced text := by
  refine ⟨fun hnone => h.ne_nil ?_, h.joinWords_wordsOf⟩
  rw [← h.joinWords_wordsOf, hnone]
  rfl

theorem spaced_of_mem_cueTexts {text cue : Text} (h : Simplified text) (hcue : cue ∈ cueTexts text) : Spaced cue := by
  have hall : ∀ cue ∈ cueTexts text, Spaced cue := by
    refine foldl_joinPiece (P := fun cues => ∀ cue ∈ cues, Spaced cue) (Q := Spaced) (fun cues piece hcues hpiece => ?_)
      (fun piece hpiece => (h.of_mem_appendPieces hpiece).spaced) (by simp)
    rcases joinPiece_cases cues piece with ⟨heq, -⟩ | ⟨earlier, last, rfl, heq, -⟩
    · rw [heq]
      simpa [or_imp, forall_and] using ⟨hcues, hpiece⟩
    · rw [heq]
      intro cue hcue
      rcases List.mem_append.mp hcue with hcue | hcue
      · exact hcues cue (List.mem_append_left _ hcue)
      · rw [List.mem_singleton.mp hcue]
        exact (hcues last (by simp)).append hpiece
  exact hall cue hcue

/-- A text that fits, or is one word. -/
def Fits (text : Text) : Prop := size text ≤ maxCueChars ∨ ' ' ∉ text

theorem fits_of_mem_appendPieces {text piece : Text} {place : Break} (h : place = .none → ' ' ∉ text)
    (hpiece : piece ∈ appendPieces text place) : Fits piece := by
  fun_induction appendPieces text place with
  | case1 text place hfits =>
    rw [List.mem_singleton.mp hpiece]
    exact hfits.imp id h
  | case2 text place hlong ih =>
    obtain ⟨part, hpart, hpiece⟩ := List.mem_flatMap.mp hpiece
    refine ih part (fun hnext => ?_) hpiece
    cases place with
    | word =>
      rw [splitAt, List.splitOn_eq_splitOnP] at hpart
      intro hspace
      have hne := eq_false_of_mem_splitOnP hpart ' ' hspace
      cases hne
    | none => exact absurd (.inr rfl) hlong
    | _ => cases hnext

theorem fits_of_mem_cueTexts {text cue : Text} (hcue : cue ∈ cueTexts text) : Fits cue := by
  have hall : ∀ cue ∈ cueTexts text, Fits cue := by
    refine foldl_joinPiece (P := fun cues => ∀ cue ∈ cues, Fits cue) (Q := Fits) (fun cues piece hcues hpiece => ?_)
      (fun piece hpiece => fits_of_mem_appendPieces (by simp) hpiece) (by simp)
    rcases joinPiece_cases cues piece with ⟨heq, -⟩ | ⟨earlier, last, rfl, heq, hfits⟩
    · rw [heq]
      simpa [or_imp, forall_and] using ⟨hcues, hpiece⟩
    · rw [heq]
      intro cue hcue
      rcases List.mem_append.mp hcue with hcue | hcue
      · exact hcues cue (List.mem_append_left _ hcue)
      · rw [List.mem_singleton.mp hcue]
        refine .inl ?_
        rw [size_append, size_cons_space]
        omega
  exact hall cue hcue

/-- Two texts that would not fit together. -/
def Apart (first second : Text) : Prop := maxCueChars < size first + 1 + size second

/-- **No two neighbours would fit together.** -/
theorem apart_cueTexts (text : Text) : (cueTexts text).IsChain Apart := by
  refine foldl_joinPiece (P := List.IsChain Apart) (Q := fun _ => True) (fun cues piece hcues _ => ?_)
    (fun _ _ => trivial) .nil
  rcases joinPiece_cases cues piece with ⟨heq, hlong⟩ | ⟨earlier, last, rfl, heq, -⟩
  · rw [heq]
    refine List.isChain_append.mpr ⟨hcues, List.isChain_singleton _, fun last hlast next hnext => ?_⟩
    cases hnext
    exact hlong last hlast
  · obtain ⟨hearlier, -, hlast⟩ := List.isChain_append.mp hcues
    rw [heq]
    refine List.isChain_append.mpr ⟨hearlier, List.isChain_singleton _, fun before hbefore next hnext => ?_⟩
    cases hnext
    have hapart := hlast before hbefore last rfl
    rw [Apart] at hapart ⊢
    rw [size_append]
    omega

/-! ## Times -/

variable {startMs duration : ℤ} {total : ℕ}

theorem length_cuesOf (before : ℕ) (texts : List Text) :
    (cuesOf startMs duration total before texts).length = texts.length := by
  induction texts generalizing before with
  | nil => rfl
  | cons piece texts ih => rw [cuesOf, List.length_cons, ih, List.length_cons]

theorem text_cuesOf (before : ℕ) (texts : List Text) :
    (cuesOf startMs duration total before texts).map TranscriptSegment.text = texts := by
  induction texts generalizing before with
  | nil => rfl
  | cons piece texts ih => rw [cuesOf, List.map_cons, ih]

/-- When a share of the text is over. -/
def shareMs (startMs duration : ℤ) (total before : ℕ) : ℤ := startMs + duration * before / total

/-- **The times of a cue**: what of the text comes before it and with it. -/
theorem getElem_cuesOf (before : ℕ) (texts : List Text) {i : ℕ}
    (h : i < (cuesOf startMs duration total before texts).length) :
    let start := shareMs startMs duration total (before + ((texts.take i).map size).sum)
    (cuesOf startMs duration total before texts)[i].startMs = start ∧
      (cuesOf startMs duration total before texts)[i].endMs =
        max (shareMs startMs duration total (before + ((texts.take (i + 1)).map size).sum)) (start + minCueMs) := by
  induction texts generalizing before i with
  | nil => cases h
  | cons piece texts ih =>
    cases i with
    | zero => simp [cuesOf, shareMs]
    | succ i =>
      have hrest := ih (before + size piece) (i := i) (by simpa [cuesOf] using h)
      simpa [cuesOf, Nat.add_assoc] using hrest

theorem shareMs_mono (htotal : 0 < total) (hduration : 0 ≤ duration) {before later : ℕ} (h : before ≤ later) :
    shareMs startMs duration total before ≤ shareMs startMs duration total later := by
  have hmul : duration * before ≤ duration * later := mul_le_mul_of_nonneg_left (by exact_mod_cast h) hduration
  have hdiv := Int.ediv_le_ediv (Int.natCast_pos.mpr htotal) hmul
  rw [shareMs, shareMs]
  omega

theorem shareMs_zero : shareMs startMs duration total 0 = startMs := by simp [shareMs]

theorem shareMs_total (htotal : 0 < total) : shareMs startMs duration total total = startMs + duration := by
  rw [shareMs, Int.mul_ediv_cancel _ (by omega)]

/-- How much of the texts comes before one of them. -/
def sizeBefore (texts : List Text) (i : ℕ) : ℕ := ((texts.take i).map size).sum

theorem sizeBefore_mono (texts : List Text) {i j : ℕ} (h : i ≤ j) : sizeBefore texts i ≤ sizeBefore texts j := by
  obtain ⟨between, hbetween⟩ := List.take_prefix_take_left (l := texts) h
  rw [sizeBefore, sizeBefore, ← hbetween, List.map_append, List.sum_append]
  exact Nat.le_add_right ..

theorem sizeBefore_length (texts : List Text) {i : ℕ} (h : texts.length ≤ i) :
    sizeBefore texts i = (texts.map size).sum := by
  rw [sizeBefore, List.take_of_length_le h]

/-- How a segment is cut into cues. -/
structure SegmentSplit (segment : TranscriptSegment) (cues : List TranscriptSegment) : Prop where
  words : [' '].intercalate (cues.map (·.text)) = simplified segment.text
  fits : ∀ cue ∈ cues, size cue.text ≤ maxCueChars ∨ IsWord cue.text
  apart : cues.IsChain fun cue next => maxCueChars < size cue.text + 1 + size next.text
  within : ∀ cue ∈ cues, segment.startMs ≤ cue.startMs ∧ cue.startMs ≤ segment.endMs
  ordered : cues.Pairwise fun cue later => cue.startMs ≤ later.startMs
  ends : ∀ i (h : i < cues.length), cues[i].endMs =
    max (match cues[i + 1]? with | some next => next.startMs | none => segment.endMs) (cues[i].startMs + minCueMs)

/-- A text of one word, or a text with a space. -/
theorem Spaced.isWord {text : Text} (h : Spaced text) (hspace : ' ' ∉ text) : IsWord text := by
  obtain ⟨hne, htext⟩ := h
  cases hwords : wordsOf text with
  | nil => exact absurd hwords hne
  | cons word words =>
    have hword : IsWord word := isWord_of_mem_wordsOf (by rw [hwords]; exact List.mem_cons_self)
    cases words with
    | nil =>
      rw [hwords, joinWords, List.intercalate_singleton] at htext
      exact htext ▸ hword
    | cons next words =>
      rw [hwords, joinWords, List.intercalate_cons_cons] at htext
      exact absurd (by rw [← htext]; simp) hspace

/-- **A segment's cues** keep its words in order and divide its time. -/
theorem segment_split (segment : TranscriptSegment) (h : segment.startMs ≤ segment.endMs) :
    SegmentSplit segment (segmentCues segment) := by
  rw [segmentCues]
  split
  · rename_i hempty
    exact ⟨by rw [hempty]; rfl, by simp, .nil, by simp, .nil, by simp⟩
  rename_i hne
  set text := simplified segment.text with htext
  set texts := cueTexts text with htexts
  set total := (texts.map size).sum with htotal
  set duration := max 0 (segment.endMs - segment.startMs) with hduration
  set cues := cuesOf segment.startMs duration total 0 texts with hcues
  have hsimplified : Simplified text := simplified_simplified hne
  have hspaced : ∀ cue ∈ texts, Spaced cue := fun cue hcue => spaced_of_mem_cueTexts hsimplified hcue
  have hmap : cues.map (·.text) = texts := text_cuesOf 0 texts
  have htextMem : ∀ cue ∈ cues, cue.text ∈ texts := fun cue hcue => hmap ▸ List.mem_map_of_mem hcue
  have hlength : cues.length = texts.length := length_cuesOf 0 texts
  have hstart : ∀ i (hi : i < cues.length),
      cues[i].startMs = shareMs segment.startMs duration total (sizeBefore texts i) := fun i hi => by
    rw [(getElem_cuesOf 0 texts hi).1, Nat.zero_add]
    rfl
  have hend : ∀ i (hi : i < cues.length), cues[i].endMs =
      max (shareMs segment.startMs duration total (sizeBefore texts (i + 1))) (cues[i].startMs + minCueMs) := fun i hi => by
    rw [(getElem_cuesOf 0 texts hi).2, Nat.zero_add, Nat.zero_add, hstart i hi]
    rfl
  have hpos : 0 ≤ duration := le_max_left ..
  have hover : segment.startMs + duration = segment.endMs := by omega
  have htotalPos : 0 < total := by
    have hwords : texts.flatMap wordsOf ≠ [] := flatMap_wordsOf_cueTexts text ▸ hsimplified.spaced.1
    obtain ⟨first, later, hfirst⟩ := List.exists_cons_of_ne_nil fun hnone : texts = [] => hwords (by rw [hnone]; rfl)
    have hsize := (hspaced first (by rw [hfirst]; exact List.mem_cons_self)).size_pos
    rw [htotal, hfirst, List.map_cons, List.sum_cons]
    omega
  refine ⟨?_, fun cue hcue => ?_, ?_, fun cue hcue => ?_, ?_, fun i hi => ?_⟩
  · rw [hmap]
    refine (joinWords_spaced hspaced).trans ?_
    rw [flatMap_wordsOf_cueTexts, hsimplified.joinWords_wordsOf]
  · exact (fits_of_mem_cueTexts (htextMem cue hcue)).imp id (hspaced _ (htextMem cue hcue)).isWord
  · have hapart : (cues.map (·.text)).IsChain Apart := hmap ▸ apart_cueTexts text
    exact (List.isChain_map _).mp hapart
  · obtain ⟨i, hi, rfl⟩ := List.mem_iff_getElem.mp hcue
    rw [hstart i hi]
    refine ⟨shareMs_zero.ge.trans (shareMs_mono htotalPos hpos (Nat.zero_le _)), ?_⟩
    have hwhole : sizeBefore texts texts.length = total := sizeBefore_length texts (Nat.le_refl _)
    rw [← hover, ← shareMs_total htotalPos]
    exact shareMs_mono htotalPos hpos (hwhole ▸ sizeBefore_mono texts (hlength ▸ hi.le))
  · refine List.pairwise_iff_getElem.mpr fun i j hi hj hij => ?_
    rw [hstart i hi, hstart j hj]
    exact shareMs_mono htotalPos hpos (sizeBefore_mono texts hij.le)
  · rw [hend i hi]
    congr 1
    by_cases hnext : i + 1 < cues.length
    · rw [List.getElem?_eq_getElem hnext]
      exact (hstart (i + 1) hnext).symm
    · rw [List.getElem?_eq_none (by omega), sizeBefore_length texts (by omega), shareMs_total htotalPos, hover]

theorem short_segment_split : SegmentSplit ⟨0, 3000, "One. Two".toList⟩ (segmentCues ⟨0, 3000, "One. Two".toList⟩) :=
  segment_split ⟨0, 3000, "One. Two".toList⟩ (by decide)

end Speecher.Subtitles
