import Mathlib.Data.List.DropRight
import Mathlib.Data.List.Basic
import Mathlib.Tactic.SplitIfs

/-!
# The silence gate

While silence is skipped, the gate holds quiet audio back and sends only speech on, led in by the newest quiet
before it and trailed by the oldest quiet after it. Sizes are in bytes of PCM. Which chunks are speech is the
caller's to say; `passWindows` judges one window at a time.

What speech is to be sent with is stated apart from the gate, on the speech and the quiet between it (`trimmed`).
The gate sends exactly that (`sent_eq_trimmed`) while it has a post-roll. Without one it forgets the quiet chunk
that ends the speech, which the pre-roll of the next speech then lacks (`keepsSpeech_iff`, `quiet_lost`).
-/

namespace Speecher

/-- A chunk of audio, and whether it is loud enough to be speech. -/
structure Chunk (α : Type*) where
  pcm : List α
  voiced : Bool

/-- The gate of one capture. -/
structure SilenceGate (α : Type*) where
  preRollBytes : ℤ := 0
  postRollBytes : ℤ := 0
  /-- The newest quiet audio, to lead into the next speech. -/
  preRoll : List α := []
  /-- Quiet audio since speech last stopped, sent on if speech resumes before it fills the post-roll. -/
  pendingPostRoll : List α := []
  speaking : Bool := false

namespace SilenceGate

variable {α : Type*}

/-- The first `n` bytes, none when `n` is negative. -/
def left (bytes : List α) (n : ℤ) : List α := bytes.take n.toNat

/-- The last `n` bytes, none when `n` is negative. -/
def right (bytes : List α) (n : ℤ) : List α := bytes.rtake n.toNat

variable (gate : SilenceGate α)

def setSizes (preRollBytes postRollBytes : ℤ) : SilenceGate α := { gate with preRollBytes, postRollBytes }

/-- Keeps `pcm` as the newest quiet audio, up to the pre-roll in all. -/
def holdQuiet (pcm : List α) : SilenceGate α :=
  if gate.preRollBytes ≤ 0 then { gate with preRoll := [] }
  else if gate.preRollBytes ≤ pcm.length then { gate with preRoll := right pcm gate.preRollBytes }
  else
    let preRoll := gate.preRoll ++ pcm
    if gate.preRollBytes < preRoll.length then
      { gate with preRoll := preRoll.drop (preRoll.length - gate.preRollBytes).toNat }
    else { gate with preRoll }

/-- Starts over for a new capture, keeping the held quiet when asked. -/
def reset (keepPreRoll : Bool) : SilenceGate α :=
  { gate with preRoll := if keepPreRoll then gate.preRoll else [], pendingPostRoll := [], speaking := false }

/-- Hands over the held quiet audio. -/
def takePreRoll : List α × SilenceGate α := (gate.preRoll, { gate with preRoll := [] })

/-- Hands over the quiet since speech last stopped, up to the post-roll. -/
def flushPostRoll : List α × SilenceGate α :=
  (left gate.pendingPostRoll gate.postRollBytes, { gate with pendingPostRoll := [] })

/-- Takes one chunk and returns the audio to send on, in order. -/
def pass (pcm : List α) (voiced : Bool) : List (List α) × SilenceGate α :=
  if gate.speaking = false then
    if voiced = false then ([], gate.holdQuiet pcm)
    else
      let speaking := { gate with speaking := true }
      if gate.preRoll = [] then ([pcm], { speaking with pendingPostRoll := [] })
      else ([speaking.takePreRoll.1, pcm], { speaking.takePreRoll.2 with pendingPostRoll := [] })
  else if voiced = true then
    if gate.pendingPostRoll = [] then ([pcm], gate)
    else ([gate.pendingPostRoll, pcm], { gate with pendingPostRoll := [] })
  else if gate.postRollBytes ≤ 0 then ([], gate.reset false)
  else
    let pending := { gate with pendingPostRoll := gate.pendingPostRoll ++ pcm }
    if gate.postRollBytes ≤ pending.pendingPostRoll.length then
      -- The post-roll is sent; only the quiet after it can lead in again.
      let held := { pending with
        preRoll := right (pending.pendingPostRoll.drop gate.postRollBytes.toNat) gate.preRollBytes }
      ([held.flushPostRoll.1], { held.flushPostRoll.2 with speaking := false })
    else ([], pending)

/-- The windows a chunk is judged in. A tail shorter than a window joins the last one. -/
def windows {windowBytes : ℕ} (h : 0 < windowBytes) (pcm : List α) : List (List α) :=
  if _hnil : pcm = [] then []
  else if pcm.length < 2 * windowBytes then [pcm]
  else pcm.take windowBytes :: windows h (pcm.drop windowBytes)
termination_by pcm.length
decreasing_by
  have := List.length_pos_iff.mpr _hnil
  simp only [List.length_drop]
  omega

/-- The audio sent on for one chunk after another. -/
def passAll : SilenceGate α → List (Chunk α) → List (List α) × SilenceGate α
  | gate, [] => ([], gate)
  | gate, chunk :: chunks =>
    let (out, passed) := gate.pass chunk.pcm chunk.voiced
    let (rest, last) := passed.passAll chunks
    (out ++ rest, last)

/-- Takes PCM of any length and judges each window of it on its own. -/
def passWindows {windowBytes : ℕ} (h : 0 < windowBytes) (isVoiced : List α → Bool) (pcm : List α) :
    List (List α) × SilenceGate α :=
  gate.passAll ((windows h pcm).map fun window => ⟨window, isVoiced window⟩)

/-- All a capture sends on, up to its end, in bytes. -/
def sent (chunks : List (Chunk α)) : List α :=
  (gate.passAll chunks).1.flatten ++ (gate.passAll chunks).2.flushPostRoll.1

end SilenceGate

/-! ## What is to be sent -/

/-- A voiced chunk and the quiet chunks up to the next one. -/
structure Speech (α : Type*) where
  voiced : List α
  quiet : List (List α)

section Trimmed

variable {α : Type*}

/-- A capture as the quiet before any speech and the speech in it. -/
def speechOf : List (Chunk α) → List (List α) × List (Speech α)
  | [] => ([], [])
  | ⟨pcm, false⟩ :: chunks => (pcm :: (speechOf chunks).1, (speechOf chunks).2)
  | ⟨pcm, true⟩ :: chunks => ([], ⟨pcm, (speechOf chunks).1⟩ :: (speechOf chunks).2)

/-- Speech, each with the end of the quiet not yet sent before it and the start of the quiet after it; `unsent` is the
quiet after it that is left for the next. Between two voiced chunks of one run there is no quiet to add. -/
def withRolls (pre post : ℕ) (unsent : Speech α → List α) : List α → List (Speech α) → List α
  | _, [] => []
  | quiet, s :: speeches =>
    quiet.rtake pre ++ s.voiced ++ s.quiet.flatten.take post ++ withRolls pre post unsent (unsent s) speeches

/-- **What a capture is to send on** under a pre-roll and a post-roll: the quiet a post-roll did not send leads in. -/
def trimmedCapture (pre post : ℕ) (chunks : List (Chunk α)) : List α :=
  withRolls pre post (fun s => s.quiet.flatten.drop post) (speechOf chunks).1.flatten (speechOf chunks).2

/-- All bytes of a capture. -/
def heard (chunks : List (Chunk α)) : List α := (chunks.map Chunk.pcm).flatten

/-- All bytes from the first speech on. -/
def heardFrom (speeches : List (Speech α)) : List α := (speeches.map fun s => s.voiced ++ s.quiet.flatten).flatten

theorem heard_eq (chunks : List (Chunk α)) :
    heard chunks = (speechOf chunks).1.flatten ++ heardFrom (speechOf chunks).2 := by
  induction chunks using speechOf.induct with
  | case1 => rfl
  | case2 pcm chunks ih =>
    rw [heard, List.map_cons, List.flatten_cons, ← heard, ih, speechOf, List.flatten_cons, List.append_assoc]
  | case3 pcm chunks ih =>
    rw [heard, List.map_cons, List.flatten_cons, ← heard, ih]
    simp [speechOf, heardFrom]

theorem withRolls_sublist {pre post : ℕ} {unsent : Speech α → List α}
    (h : ∀ s, (unsent s).Sublist (s.quiet.flatten.drop post)) (quiet : List α) (speeches : List (Speech α)) :
    (withRolls pre post unsent quiet speeches).Sublist (quiet ++ heardFrom speeches) := by
  induction speeches generalizing quiet with
  | nil => exact List.nil_sublist _
  | cons s speeches ih =>
    have hquiet : (s.quiet.flatten.take post ++ withRolls pre post unsent (unsent s) speeches).Sublist
        (s.quiet.flatten ++ heardFrom speeches) := by
      have hrest := ((ih (unsent s)).trans ((h s).append_right _)).append_left (s.quiet.flatten.take post)
      rwa [← List.append_assoc (s.quiet.flatten.take post), List.take_append_drop] at hrest
    rw [withRolls, List.append_assoc, List.append_assoc]
    refine (List.drop_sublist _ _).append ?_
    rw [heardFrom, List.map_cons, List.flatten_cons, List.append_assoc]
    exact hquiet.append_left _

end Trimmed

/-! ## Taking from the end -/

section RTake

variable {α : Type*}

theorem rtake_append_of_le {n : ℕ} (l : List α) {m : List α} (h : n ≤ m.length) : (l ++ m).rtake n = m.rtake n := by
  rw [List.rtake, List.rtake, List.length_append, Nat.add_sub_assoc h, List.drop_append]
  simp

theorem rtake_of_length_le {n : ℕ} {l : List α} (h : l.length ≤ n) : l.rtake n = l := by
  rw [List.rtake, Nat.sub_eq_zero_of_le h, List.drop_zero]

theorem length_rtake (n : ℕ) (l : List α) : (l.rtake n).length = min n l.length := by
  rw [List.rtake, List.length_drop]
  omega

/-- What is held of the quiet is all that the last bytes of more quiet need. -/
theorem rtake_rtake_append (n : ℕ) (l m : List α) : (l.rtake n ++ m).rtake n = (l ++ m).rtake n := by
  rw [List.rtake_eq_reverse_take_reverse, List.rtake_eq_reverse_take_reverse (l ++ m),
    List.rtake_eq_reverse_take_reverse]
  simp only [List.reverse_append, List.reverse_reverse, List.take_append, List.take_take]
  congr 2
  rw [Nat.min_eq_left (Nat.sub_le _ _)]

end RTake

namespace SilenceGate

variable {α : Type*} {gate : SilenceGate α} {lead pcm : List α}

/-! ## What each chunk does -/

/-- The gate holds back the end of the quiet since it last sent any. -/
structure Holds (gate : SilenceGate α) (lead : List α) : Prop where
  speaking : gate.speaking = false
  pending : gate.pendingPostRoll = []
  preRoll : gate.preRoll = lead.rtake gate.preRollBytes.toNat

/-- The gate is sending speech, with the quiet since its last voiced chunk. -/
structure Speaks (gate : SilenceGate α) (quiet : List α) : Prop where
  speaking : gate.speaking = true
  pending : gate.pendingPostRoll = quiet
  preRoll : gate.preRoll = []
  fills : quiet = [] ∨ quiet.length < gate.postRollBytes.toNat

/-- The sizes stay as they are. -/
def SameSizes (gate gate' : SilenceGate α) : Prop :=
  gate'.preRollBytes = gate.preRollBytes ∧ gate'.postRollBytes = gate.postRollBytes

theorem Holds.holdQuiet (h : gate.Holds lead) (pcm : List α) :
    (gate.holdQuiet pcm).Holds (lead ++ pcm) ∧ SameSizes gate (gate.holdQuiet pcm) := by
  unfold SilenceGate.holdQuiet
  dsimp only
  split_ifs with hnone hlong hover
  · refine ⟨⟨h.speaking, h.pending, ?_⟩, rfl, rfl⟩
    simp [Int.toNat_of_nonpos hnone]
  · refine ⟨⟨h.speaking, h.pending, ?_⟩, rfl, rfl⟩
    exact (rtake_append_of_le lead (by omega)).symm
  · refine ⟨⟨h.speaking, h.pending, ?_⟩, rfl, rfl⟩
    have hn : (((gate.preRoll ++ pcm).length : ℤ) - gate.preRollBytes).toNat =
        (gate.preRoll ++ pcm).length - gate.preRollBytes.toNat := by omega
    rw [hn, ← List.rtake, h.preRoll, rtake_rtake_append]
  · refine ⟨⟨h.speaking, h.pending, ?_⟩, rfl, rfl⟩
    show gate.preRoll ++ pcm = (lead ++ pcm).rtake gate.preRollBytes.toNat
    rw [← rtake_rtake_append, ← h.preRoll, rtake_of_length_le (by omega)]

theorem Holds.pass_quiet (h : gate.Holds lead) (pcm : List α) :
    gate.pass pcm false = ([], gate.holdQuiet pcm) := by
  rw [pass, if_pos h.speaking, if_pos rfl]

/-- **Speech after quiet** is led in by the end of it. -/
theorem Holds.pass_voiced (h : gate.Holds lead) (pcm : List α) :
    (gate.pass pcm true).1.flatten = lead.rtake gate.preRollBytes.toNat ++ pcm ∧
      (gate.pass pcm true).2.Speaks [] ∧ SameSizes gate (gate.pass pcm true).2 := by
  rw [pass, if_pos h.speaking, if_neg (by simp), ← h.preRoll]
  dsimp only
  split_ifs with hnil
  · rw [hnil]
    exact ⟨by simp, ⟨rfl, rfl, rfl, .inl rfl⟩, rfl, rfl⟩
  · exact ⟨by simp [takePreRoll], ⟨rfl, rfl, rfl, .inl rfl⟩, rfl, rfl⟩

variable {quiet : List α}

/-- Speech that resumes before the quiet fills the post-roll is sent with all of it. -/
theorem Speaks.pass_voiced (h : gate.Speaks quiet) (pcm : List α) :
    (gate.pass pcm true).1.flatten = quiet ++ pcm ∧ (gate.pass pcm true).2.Speaks [] ∧
      SameSizes gate (gate.pass pcm true).2 := by
  rw [pass, if_neg (by simp [h.speaking]), if_pos rfl, h.pending]
  split_ifs with hnil
  · exact ⟨by simp [hnil], ⟨h.speaking, h.pending.trans hnil, h.preRoll, .inl rfl⟩, rfl, rfl⟩
  · exact ⟨by simp, ⟨h.speaking, rfl, h.preRoll, .inl rfl⟩, rfl, rfl⟩

/-- Without a post-roll, the quiet chunk that ends the speech is forgotten. -/
theorem Speaks.pass_forgotten (h : gate.Speaks quiet) (hpost : gate.postRollBytes ≤ 0) (pcm : List α) :
    (gate.pass pcm false).1 = [] ∧ (gate.pass pcm false).2.Holds [] ∧ SameSizes gate (gate.pass pcm false).2 := by
  rw [pass, if_neg (by simp [h.speaking]), if_neg (by simp), if_pos hpost]
  exact ⟨rfl, ⟨rfl, rfl, by simp [reset]⟩, rfl, rfl⟩

/-- Quiet that does not fill the post-roll waits. -/
theorem Speaks.pass_waits (h : gate.Speaks quiet) (hpost : 0 < gate.postRollBytes)
    (hlength : (quiet ++ pcm).length < gate.postRollBytes.toNat) :
    (gate.pass pcm false).1 = [] ∧ (gate.pass pcm false).2.Speaks (quiet ++ pcm) ∧
      SameSizes gate (gate.pass pcm false).2 := by
  rw [pass, if_neg (by simp [h.speaking]), if_neg (by simp), if_neg (by omega)]
  dsimp only
  rw [h.pending, if_neg (by omega)]
  exact ⟨rfl, ⟨h.speaking, rfl, h.preRoll, .inr hlength⟩, rfl, rfl⟩

/-- Quiet that fills the post-roll ends the speech, and what is left of it leads in the next. -/
theorem Speaks.pass_filled (h : gate.Speaks quiet) (hpost : 0 < gate.postRollBytes)
    (hlength : gate.postRollBytes.toNat ≤ (quiet ++ pcm).length) :
    (gate.pass pcm false).1.flatten = (quiet ++ pcm).take gate.postRollBytes.toNat ∧
      (gate.pass pcm false).2.Holds ((quiet ++ pcm).drop gate.postRollBytes.toNat) ∧
      SameSizes gate (gate.pass pcm false).2 := by
  rw [pass, if_neg (by simp [h.speaking]), if_neg (by simp), if_neg (by omega)]
  dsimp only
  rw [h.pending, if_pos (by omega)]
  exact ⟨by simp [flushPostRoll, left], ⟨rfl, rfl, rfl⟩, rfl, rfl⟩

/-! ## What a capture sends -/

/-- The quiet after a speech that the gate keeps for the next: without a post-roll its first chunk is forgotten. -/
def keptAfter (post : ℕ) (s : Speech α) : List α :=
  if post = 0 then s.quiet.tail.flatten else s.quiet.flatten.drop post

theorem sent_cons (gate : SilenceGate α) (chunk : Chunk α) (chunks : List (Chunk α)) :
    gate.sent (chunk :: chunks) =
      (gate.pass chunk.pcm chunk.voiced).1.flatten ++ (gate.pass chunk.pcm chunk.voiced).2.sent chunks := by
  simp [sent, passAll]

/-- **A capture's audio**, from quiet and from speech on. The induction is on the chunks; the quiet so far is what
the gate holds of it. -/
theorem sent_eq (chunks : List (Chunk α)) (gate : SilenceGate α) :
    (∀ lead, gate.Holds lead →
      gate.sent chunks = withRolls gate.preRollBytes.toNat gate.postRollBytes.toNat
        (keptAfter gate.postRollBytes.toNat) (lead ++ (speechOf chunks).1.flatten) (speechOf chunks).2) ∧
    ∀ quiet, gate.Speaks quiet →
      gate.sent chunks = (quiet ++ (speechOf chunks).1.flatten).take gate.postRollBytes.toNat ++
        withRolls gate.preRollBytes.toNat gate.postRollBytes.toNat (keptAfter gate.postRollBytes.toNat)
          (if gate.postRollBytes.toNat = 0 then (speechOf chunks).1.tail.flatten
            else (quiet ++ (speechOf chunks).1.flatten).drop gate.postRollBytes.toNat) (speechOf chunks).2 := by
  induction chunks using speechOf.induct generalizing gate with
  | case1 =>
    refine ⟨fun lead h => ?_, fun quiet h => ?_⟩
    · simp [sent, passAll, flushPostRoll, left, h.pending, speechOf, withRolls]
    · simp [sent, passAll, flushPostRoll, left, h.pending, speechOf, withRolls]
  | case2 pcm chunks ih =>
    refine ⟨fun lead h => ?_, fun quiet h => ?_⟩
    · obtain ⟨hholds, hpre, hpost⟩ := h.holdQuiet pcm
      rw [sent_cons, h.pass_quiet, List.flatten_nil, List.nil_append, (ih _).1 _ hholds, hpre, hpost, speechOf,
        List.flatten_cons, List.append_assoc]
    · rw [sent_cons, speechOf, List.flatten_cons, List.tail_cons, ← List.append_assoc]
      by_cases hnone : gate.postRollBytes ≤ 0
      · obtain ⟨hout, hholds, hpre, hpost⟩ := h.pass_forgotten hnone pcm
        rw [hout, List.flatten_nil, (ih _).1 _ hholds, hpre, hpost, Int.toNat_of_nonpos hnone]
        simp
      · rw [if_neg (by omega)]
        by_cases hlength : (quiet ++ pcm).length < gate.postRollBytes.toNat
        · obtain ⟨hout, hspeaks, hpre, hpost⟩ := h.pass_waits (by omega) hlength
          rw [hout, List.flatten_nil, (ih _).2 _ hspeaks, hpre, hpost, if_neg (by omega), List.nil_append]
        · rw [not_lt] at hlength
          obtain ⟨hout, hholds, hpre, hpost⟩ := h.pass_filled (by omega) hlength
          rw [hout, (ih _).1 _ hholds, hpre, hpost, List.take_append_of_le_length hlength,
            List.drop_append_of_le_length hlength]
  | case3 pcm chunks ih =>
    refine ⟨fun lead h => ?_, fun quiet h => ?_⟩
    · obtain ⟨hout, hspeaks, hpre, hpost⟩ := h.pass_voiced pcm
      rw [sent_cons, hout, (ih _).2 _ hspeaks, hpre, hpost, speechOf, List.flatten_nil, List.append_nil, withRolls,
        List.nil_append, List.append_assoc, List.append_assoc, List.append_assoc, keptAfter]
    · obtain ⟨hout, hspeaks, hpre, hpost⟩ := h.pass_voiced pcm
      have htake : quiet.take gate.postRollBytes.toNat = quiet := by
        rcases h.fills with rfl | hlt
        · exact List.take_nil
        · exact List.take_of_length_le hlt.le
      have hdrop : quiet.drop gate.postRollBytes.toNat = [] := by
        rcases h.fills with rfl | hlt
        · exact List.drop_nil
        · exact List.drop_eq_nil_of_le hlt.le
      rw [sent_cons, hout, (ih _).2 _ hspeaks, hpre, hpost, speechOf, List.flatten_nil, List.append_nil, htake, hdrop,
        List.tail_nil, List.flatten_nil, ite_self, withRolls, List.rtake_nil, List.nil_append, List.nil_append,
        List.append_assoc, List.append_assoc, keptAfter]

/-! ## What a capture keeps -/

/-- A new capture's gate. -/
def capture (preRollBytes postRollBytes : ℤ) : SilenceGate α := ({} : SilenceGate α).setSizes preRollBytes postRollBytes

/-- **All speech is kept**: every voiced chunk is sent whole, with its rolls, and nothing twice or out of order. -/
structure KeepsSpeech (preRollBytes postRollBytes : ℤ) (chunks : List (Chunk α)) : Prop where
  trimmed : (capture preRollBytes postRollBytes).sent chunks =
    trimmedCapture preRollBytes.toNat postRollBytes.toNat chunks
  whole : ∀ s ∈ (speechOf chunks).2, s.voiced <:+: (capture preRollBytes postRollBytes).sent chunks
  inOrder : ((capture preRollBytes postRollBytes).sent chunks).Sublist (heard chunks)

theorem sent_capture (preRollBytes postRollBytes : ℤ) (chunks : List (Chunk α)) :
    (capture preRollBytes postRollBytes).sent chunks =
      withRolls preRollBytes.toNat postRollBytes.toNat (keptAfter postRollBytes.toNat)
        (speechOf chunks).1.flatten (speechOf chunks).2 :=
  (sent_eq chunks (capture preRollBytes postRollBytes)).1 [] ⟨rfl, rfl, (List.rtake_nil _).symm⟩

theorem keptAfter_sublist (post : ℕ) (s : Speech α) : (keptAfter post s).Sublist (s.quiet.flatten.drop post) := by
  unfold keptAfter
  split_ifs with hpost
  · rw [hpost, List.drop_zero]
    cases s.quiet with
    | nil => exact .refl _
    | cons first rest => exact List.sublist_append_right _ _
  · exact .refl _

/-- Speech on its own is in what is sent, whatever the quiet. -/
theorem voiced_infix_withRolls {pre post : ℕ} {unsent : Speech α → List α} {s : Speech α} {speeches : List (Speech α)}
    (hs : s ∈ speeches) (quiet : List α) : s.voiced <:+: withRolls pre post unsent quiet speeches := by
  induction speeches generalizing quiet with
  | nil => cases hs
  | cons first speeches ih =>
    rw [withRolls]
    rcases List.mem_cons.mp hs with rfl | hs
    · exact ⟨quiet.rtake pre, s.quiet.flatten.take post ++ withRolls pre post unsent (unsent s) speeches, by simp⟩
    · exact (ih hs _).trans (List.suffix_append _ _).isInfix

section Apart

variable {pre post : ℕ} {unsent unsent' : Speech α → List α}

theorem length_withRolls_le (h : ∀ s, ((unsent s).rtake pre).length ≤ ((unsent' s).rtake pre).length)
    {quiet quiet' : List α} (hquiet : (quiet.rtake pre).length ≤ (quiet'.rtake pre).length) (speeches : List (Speech α)) :
    (withRolls pre post unsent quiet speeches).length ≤ (withRolls pre post unsent' quiet' speeches).length := by
  induction speeches generalizing quiet quiet' with
  | nil => exact Nat.le_refl _
  | cons s speeches ih =>
    have hrest := ih (h s)
    simp only [withRolls, List.length_append]
    omega

/-- Two captures that keep as much or less of the quiet are one if and only if each speech is led in alike. -/
theorem withRolls_inj (h : ∀ s, ((unsent s).rtake pre).length ≤ ((unsent' s).rtake pre).length)
    {quiet quiet' : List α} (hquiet : (quiet.rtake pre).length ≤ (quiet'.rtake pre).length) (speeches : List (Speech α)) :
    withRolls pre post unsent quiet speeches = withRolls pre post unsent' quiet' speeches ↔
      (speeches = [] ∨ quiet.rtake pre = quiet'.rtake pre) ∧
        ∀ s ∈ speeches.dropLast, (unsent s).rtake pre = (unsent' s).rtake pre := by
  induction speeches generalizing quiet quiet' with
  | nil => simp [withRolls]
  | cons s speeches ih =>
    have hdropLast : (∀ x ∈ (s :: speeches).dropLast, (unsent x).rtake pre = (unsent' x).rtake pre) ↔
        (speeches = [] ∨ (unsent s).rtake pre = (unsent' s).rtake pre) ∧
          ∀ x ∈ speeches.dropLast, (unsent x).rtake pre = (unsent' x).rtake pre := by
      cases speeches with
      | nil => simp
      | cons next speeches => simp [List.dropLast_cons_of_ne_nil]
    rw [hdropLast, ← ih (h s)]
    simp only [withRolls, List.append_assoc, reduceCtorEq, false_or]
    constructor
    · intro heq
      have hlength := congrArg List.length heq
      have hrest : (withRolls pre post unsent (unsent s) speeches).length ≤
          (withRolls pre post unsent' (unsent' s) speeches).length := length_withRolls_le h (h s) speeches
      simp only [List.length_append] at hlength
      obtain ⟨hlead, hafter⟩ := List.append_inj heq (by omega)
      exact ⟨hlead, List.append_cancel_left (List.append_cancel_left hafter)⟩
    · rintro ⟨hlead, hrest⟩
      rw [hlead, hrest]

end Apart

/-- Forgetting the first of the quiet leaves the pre-roll as it is: there is nothing to forget, or enough after it. -/
def FillsPreRoll (pre : ℕ) (s : Speech α) : Prop :=
  s.quiet.headD [] = [] ∨ pre ≤ s.quiet.tail.flatten.length

theorem fillsPreRoll_iff (pre : ℕ) (s : Speech α) :
    FillsPreRoll pre s ↔ (keptAfter 0 s).rtake pre = (s.quiet.flatten.drop 0).rtake pre := by
  unfold FillsPreRoll
  rw [keptAfter, if_pos rfl, List.drop_zero]
  cases hquiet : s.quiet with
  | nil => simp
  | cons first rest =>
    simp only [List.headD_cons, List.tail_cons, List.flatten_cons]
    constructor
    · rintro (rfl | hlong)
      · rw [List.nil_append]
      · exact (rtake_append_of_le first hlong).symm
    · intro heq
      have hlength := congrArg List.length heq
      rw [length_rtake, length_rtake, List.length_append] at hlength
      by_contra hnot
      rw [not_or, not_le] at hnot
      have := List.length_pos_iff.mpr hnot.1
      omega

/-- **A capture keeps all speech if and only if** it has a post-roll, or forgets no quiet that a pre-roll needs. -/
theorem keepsSpeech_iff (preRollBytes postRollBytes : ℤ) (chunks : List (Chunk α)) :
    KeepsSpeech preRollBytes postRollBytes chunks ↔
      0 < postRollBytes ∨ ∀ s ∈ (speechOf chunks).2.dropLast, FillsPreRoll preRollBytes.toNat s := by
  have hle : ∀ s : Speech α, ((keptAfter postRollBytes.toNat s).rtake preRollBytes.toNat).length ≤
      ((s.quiet.flatten.drop postRollBytes.toNat).rtake preRollBytes.toNat).length := by
    intro s
    rw [length_rtake, length_rtake]
    have := (keptAfter_sublist postRollBytes.toNat s).length_le
    omega
  have htrimmed : (capture preRollBytes postRollBytes).sent chunks =
      trimmedCapture preRollBytes.toNat postRollBytes.toNat chunks ↔
        0 < postRollBytes ∨ ∀ s ∈ (speechOf chunks).2.dropLast, FillsPreRoll preRollBytes.toNat s := by
    rw [sent_capture, trimmedCapture, withRolls_inj hle (Nat.le_refl _)]
    simp only [or_true, true_and]
    by_cases hpost : 0 < postRollBytes
    · simp only [hpost, true_or, iff_true]
      intro s _
      rw [keptAfter, if_neg (by omega)]
    · have hzero : postRollBytes.toNat = 0 := by omega
      simp only [hzero, hpost, false_or, fillsPreRoll_iff]
  refine ⟨fun h => htrimmed.mp h.trimmed, fun h => ⟨htrimmed.mpr h, fun s hs => ?_, ?_⟩⟩
  · rw [sent_capture]
    exact voiced_infix_withRolls hs _
  · rw [sent_capture, heard_eq]
    exact withRolls_sublist (keptAfter_sublist _) _ _

/-- The quiet between two words, lost to the second. -/
theorem quiet_lost : ¬KeepsSpeech 2 0 [⟨[1], true⟩, ⟨[0], false⟩, ⟨[2], true⟩] := by
  intro h
  exact absurd h.trimmed (by decide)

/-! ## Windows -/

end SilenceGate

end Speecher
