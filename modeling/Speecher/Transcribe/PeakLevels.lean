import Mathlib.Algebra.Order.Ring.Rat
import Mathlib.Data.List.GetD
import Mathlib.Order.Bounds.Basic
import Speecher.Audio.AudioPcmConverter
import Speecher.Foundations.Stretches

/-!
# The peak levels of a file

`PeakLevels` takes a file's audio as it decodes and keeps the loudest sample of each stretch of it, `kMostPeakStretches`
of them at most: once there are as many, neighbours merge and later stretches are twice as long. Whatever the blocks the
audio comes in, what it holds is the peaks of the stretches of all the audio so far (`Tracks`, `peaks_exact`), and the
levels given to the front end are within its peaks (`bucket_lt`).
-/

namespace Speecher

/-- Waveform resolution handed to the front end. -/
def kPeakCount : ℕ := 240

def kMostPeakStretches : ℕ := 16 * kPeakCount

/-- How loud a sample is, up to 1. -/
def sampleLevel (sample : Int16) : ℚ≥0 := sample.toInt.natAbs / 32768

/-- `data[i]` of a block. -/
def pcmData (pcm : List UInt8) (i : ℕ) : Int16 := Int16.ofNat (littleEndian ((pcm.drop (2 * i)).take 2))

/-- The samples of a block. -/
def pcmSamples (pcm : List UInt8) : List Int16 := (List.range (pcm.length / 2)).map (pcmData pcm)

structure PeakLevels where
  stretches : List ℚ≥0 := []
  stretchSamples : ℕ := 1
  samples : ℕ := 0

namespace PeakLevels

/-- A pair of neighbours merged in place. -/
def mergePair (stretches : List ℚ≥0) (i : ℕ) : List ℚ≥0 :=
  stretches.set i (max (stretches.getD (2 * i) 0) (stretches.getD (2 * i + 1) 0))

def mergeStretches (P : PeakLevels) : PeakLevels :=
  let half := P.stretches.length / 2
  { P with
    stretches := ((List.range half).foldl mergePair P.stretches).take half
    stretchSamples := P.stretchSamples * 2 }

/-- A stretch is begun. -/
def beginStretch (P : PeakLevels) : PeakLevels :=
  let P := if P.stretches.length = kMostPeakStretches then P.mergeStretches else P
  { P with stretches := P.stretches ++ [0] }

/-- A level taken into the last stretch. -/
def raiseLast (P : PeakLevels) (level : ℚ≥0) : PeakLevels :=
  { P with
    stretches := P.stretches.modify (P.stretches.length - 1) (max · level)
    samples := P.samples + 1 }

/-- A sample taken. -/
def sample (P : PeakLevels) (sample : Int16) : PeakLevels :=
  (if P.samples % P.stretchSamples = 0 then P.beginStretch else P).raiseLast (sampleLevel sample)

/-- A block taken. -/
def add (P : PeakLevels) (pcm : List UInt8) : PeakLevels :=
  (List.range (pcm.length / 2)).foldl (fun P i => P.sample (pcmData pcm i)) P

/-- The peak of the front end that a stretch is part of. -/
def bucket (P : PeakLevels) (i : ℕ) : ℕ := i * P.stretchSamples * kPeakCount / P.samples

/-- `kPeakCount` levels across the audio. -/
def levels (P : PeakLevels) : List ℚ≥0 :=
  (List.range P.stretches.length).foldl (fun peaks i => peaks.modify (P.bucket i) (max · (P.stretches.getD i 0)))
    (List.replicate kPeakCount 0)

def bytes (P : PeakLevels) : ℕ := P.samples * 2

theorem add_eq (P : PeakLevels) (pcm : List UInt8) : P.add pcm = (pcmSamples pcm).foldl sample P := by
  rw [add, pcmSamples, List.foldl_map]

@[simp] theorem raiseLast_stretchSamples (P : PeakLevels) (level : ℚ≥0) :
    (P.raiseLast level).stretchSamples = P.stretchSamples := rfl

/-- A level taken into a stretch just begun. -/
theorem raiseLast_begun (stretches : List ℚ≥0) (n samples : ℕ) (level : ℚ≥0) :
    (raiseLast ⟨stretches ++ [0], n, samples⟩ level).stretches = stretches ++ [level] := by
  have hlast : (stretches ++ [0]).length - 1 = stretches.length := by simp
  rw [raiseLast]
  dsimp only
  rw [hlast, List.modify_eq_take_cons_drop (by simp), List.take_left]
  simp

/-! ## Merging -/

/-- Pairs merged in place: what a pair reads is not written yet. -/
theorem foldl_mergePair (stretches : List ℚ≥0) {k : ℕ} (hk : k ≤ stretches.length) :
    (List.range k).foldl mergePair stretches =
      ((List.range k).map fun i => max (stretches.getD (2 * i) 0) (stretches.getD (2 * i + 1) 0)) ++
        stretches.drop k := by
  induction k with
  | zero => rfl
  | succ k ih =>
    rw [List.range_succ, List.foldl_append, ih (Nat.le_of_succ_le hk), List.map_append, List.foldl_cons, List.foldl_nil,
      mergePair]
    have hread : ∀ j, k ≤ j → (((List.range k).map fun i =>
        max (stretches.getD (2 * i) 0) (stretches.getD (2 * i + 1) 0)) ++ stretches.drop k).getD j 0 =
          stretches.getD j 0 := by
      intro j hj
      rw [List.getD_eq_getElem?_getD, List.getElem?_append_right (by simpa using hj), List.length_map,
        List.length_range, List.getElem?_drop, Nat.add_sub_cancel' hj, ← List.getD_eq_getElem?_getD]
    rw [hread _ (by omega), hread _ (by omega), List.set_append_right _ _ (by simp), List.length_map, List.length_range,
      Nat.sub_self, List.drop_eq_getElem_cons hk, List.set_cons_zero, List.append_assoc]
    rfl

/-- **Neighbours merged lose no peak.** -/
theorem mergeStretches_stretches (P : PeakLevels) :
    P.mergeStretches.stretches = (List.range (P.stretches.length / 2)).map fun i =>
      max (P.stretches.getD (2 * i) 0) (P.stretches.getD (2 * i + 1) 0) := by
  rw [mergeStretches]
  dsimp only
  rw [foldl_mergePair _ (Nat.div_le_self _ 2), List.take_append_of_le_length (by simp),
    List.take_of_length_le (by simp)]

/-! ## What it holds -/

/-- It holds the peaks of the stretches of the levels so far, in stretches no longer than they need be. -/
structure Tracks (P : PeakLevels) (levels : List ℚ≥0) : Prop where
  samples : P.samples = levels.length
  doubled : ∃ k, P.stretchSamples = 2 ^ k
  stretches : P.stretches = stretched P.stretchSamples levels
  most : P.stretches.length ≤ kMostPeakStretches
  needed : P.stretchSamples = 1 ∨ kMostPeakStretches * P.stretchSamples < 2 * levels.length

namespace Tracks

variable {P : PeakLevels} {levels : List ℚ≥0}

theorem stretchSamples_pos (h : Tracks P levels) : 0 < P.stretchSamples := by
  obtain ⟨k, hk⟩ := h.doubled
  exact hk ▸ Nat.two_pow_pos k

theorem getD_stretches (h : Tracks P levels) {i : ℕ} (hi : i < P.stretches.length) :
    P.stretches.getD i 0 = peak (stretch P.stretchSamples levels i) := by
  rw [List.getD_eq_getElem _ _ hi]
  simp only [h.stretches, getElem_stretched]

/-- Full stretches merged. -/
theorem merge (h : Tracks P levels) (hfull : P.stretches.length = kMostPeakStretches)
    (hlength : levels.length = 2 * (kMostPeakStretches / 2) * P.stretchSamples) :
    P.mergeStretches.stretches = stretched P.mergeStretches.stretchSamples levels := by
  have hdouble : P.mergeStretches.stretchSamples = 2 * P.stretchSamples := Nat.mul_comm ..
  rw [mergeStretches_stretches, hdouble, join_stretched h.stretchSamples_pos hlength, hfull]
  refine List.map_congr_left fun i hi => ?_
  have hhalf := List.mem_range.mp hi
  rw [h.getD_stretches (by omega), h.getD_stretches (by omega)]

/-- A stretch begun after whole stretches: one more value makes its peak. -/
theorem beginStretch (h : Tracks P levels) (hwhole : levels.length % P.stretchSamples = 0) (level : ℚ≥0) :
    Tracks (P.beginStretch.raiseLast level) (levels ++ [level]) := by
  have hpos := h.stretchSamples_pos
  have hsamples : P.samples + 1 = (levels ++ [level]).length := by
    rw [List.length_append, h.samples, List.length_singleton]
  obtain ⟨k, hk⟩ := Nat.dvd_of_mod_eq_zero hwhole
  rw [Nat.mul_comm] at hk
  have hcount : P.stretches.length = k := by rw [h.stretches, length_stretched, hk, stretchCount_mul hpos]
  rw [PeakLevels.beginStretch]
  split
  · -- full: twice as long from here on
    rename_i hfull
    have hall : levels.length = kMostPeakStretches * P.stretchSamples := by rw [hk, ← hcount, hfull]
    have hdouble : P.mergeStretches.stretchSamples = P.stretchSamples * 2 := rfl
    have hhalf : P.mergeStretches.stretches.length = kMostPeakStretches / 2 := by
      rw [mergeStretches_stretches, List.length_map, List.length_range, hfull]
    have heven : levels.length % P.mergeStretches.stretchSamples = 0 := by
      have hpairs : kMostPeakStretches = kMostPeakStretches / 2 * 2 := by decide
      rw [hall, hdouble, hpairs, Nat.mul_assoc, Nat.mul_comm 2]
      exact Nat.mul_mod_left ..
    obtain ⟨e, he⟩ := h.doubled
    refine ⟨hsamples, ⟨e + 1, ?_⟩, ?_, ?_, .inr ?_⟩
    · rw [raiseLast_stretchSamples, hdouble, he, Nat.pow_succ]
    · rw [raiseLast_begun, raiseLast_stretchSamples, h.merge hfull hall]
      exact (stretched_concat_new (hdouble ▸ Nat.mul_pos hpos (by decide)) heven level).symm
    · rw [raiseLast_begun, List.length_append, hhalf, List.length_singleton]
      decide
    · rw [raiseLast_stretchSamples, hdouble, ← hsamples, h.samples, hall, ← Nat.mul_assoc]
      omega
  · rename_i hroom
    have hmost := h.most
    refine ⟨hsamples, h.doubled, ?_, ?_, h.needed.imp id fun hlt => ?_⟩
    · rw [raiseLast_begun, h.stretches]
      exact (stretched_concat_new hpos hwhole level).symm
    · rw [raiseLast_begun, List.length_append, List.length_singleton]
      omega
    · rw [← hsamples, h.samples]
      exact Nat.lt_trans hlt (by omega)

/-- A sample taken. -/
theorem sample (h : Tracks P levels) (sample : Int16) : Tracks (P.sample sample) (levels ++ [sampleLevel sample]) := by
  rw [PeakLevels.sample]
  split
  · rename_i hwhole
    exact h.beginStretch (h.samples ▸ hwhole) _
  · rename_i hopen
    rw [h.samples] at hopen
    refine ⟨?_, h.doubled, ?_, ?_, h.needed.imp id fun hlt => ?_⟩
    · rw [List.length_append, ← h.samples]
      rfl
    · exact (stretched_concat_open h.stretchSamples_pos hopen _).trans (h.stretches ▸ rfl) |>.symm
    · rw [raiseLast, List.length_modify]
      exact h.most
    · rw [List.length_append]
      exact Nat.lt_trans hlt (by simp)

/-- Samples taken. -/
theorem samples_taken (h : Tracks P levels) (samples : List Int16) :
    Tracks (samples.foldl PeakLevels.sample P) (levels ++ samples.map sampleLevel) := by
  induction samples generalizing P levels with
  | nil => simpa using h
  | cons sample samples ih =>
    have hlater := ih (h.sample sample)
    rwa [List.append_assoc] at hlater

/-- Blocks taken. -/
theorem blocks (h : Tracks P levels) (blocks : List (List UInt8)) :
    Tracks (blocks.foldl add P) (levels ++ (blocks.flatMap pcmSamples).map sampleLevel) := by
  induction blocks generalizing P levels with
  | nil => simpa using h
  | cons pcm blocks ih =>
    have hlater := ih (add_eq P pcm ▸ h.samples_taken (pcmSamples pcm))
    rwa [List.append_assoc, ← List.map_append, ← List.flatMap_cons] at hlater

end Tracks

theorem tracks_nil : Tracks {} [] := ⟨rfl, ⟨0, rfl⟩, rfl, Nat.zero_le _, .inl rfl⟩

/-- What the stretches are of the levels so far: one for each stretch, full or not, never more than the cap, and each the
greatest level of the samples in its stretch, so that no level is lost; the stretches are as short as the cap allows. -/
structure Exact (P : PeakLevels) (levels : List ℚ≥0) : Prop where
  samples : P.samples = levels.length
  count : P.stretches.length = (levels.length + (P.stretchSamples - 1)) / P.stretchSamples
  most : P.stretches.length ≤ kMostPeakStretches
  greatest : ∀ i (h : i < P.stretches.length),
    IsGreatest { level | level ∈ (levels.drop (i * P.stretchSamples)).take P.stretchSamples } P.stretches[i]
  kept : ∀ level ∈ levels, ∃ loudest ∈ P.stretches, level ≤ loudest
  doubled : ∃ k, P.stretchSamples = 2 ^ k
  needed : P.stretchSamples = 1 ∨ kMostPeakStretches * P.stretchSamples < 2 * levels.length

/-- **The peaks are exact** after any blocks. -/
theorem peaks_exact (blocks : List (List UInt8)) :
    Exact (blocks.foldl add {}) ((blocks.flatMap pcmSamples).map sampleLevel) := by
  set P := blocks.foldl add {}
  set levels := (blocks.flatMap pcmSamples).map sampleLevel
  have htracks : Tracks P levels := tracks_nil.blocks blocks
  refine ⟨htracks.samples, ?_, htracks.most, fun i h => ?_, fun level hlevel => ?_, htracks.doubled, htracks.needed⟩
  · rw [htracks.stretches, length_stretched]
    rfl
  rotate_left
  · rw [htracks.stretches]
    exact exists_le_stretched htracks.stretchSamples_pos hlevel
  have hpeak : P.stretches[i] = peak (stretch P.stretchSamples levels i) := by
    rw [← htracks.getD_stretches h, List.getD_eq_getElem _ _ h]
  have hbegun : i * P.stretchSamples < levels.length := by
    rw [htracks.stretches, length_stretched] at h
    exact (lt_stretchCount htracks.stretchSamples_pos).mp h
  have hne : stretch P.stretchSamples levels i ≠ [] := by
    have hpos := htracks.stretchSamples_pos
    rw [← List.length_pos_iff, stretch, List.length_take, List.length_drop]
    omega
  exact hpeak ▸ ⟨peak_mem hne, fun level hlevel => le_peak hlevel⟩

/-! ## For the front end -/

/-- **Every stretch is part of a peak of the front end.** -/
theorem bucket_lt (blocks : List (List UInt8)) {i : ℕ} (h : i < (blocks.foldl add {}).stretches.length) :
    (blocks.foldl add {}).bucket i < kPeakCount := by
  have htracks := tracks_nil.blocks blocks
  rw [htracks.stretches, length_stretched, lt_stretchCount htracks.stretchSamples_pos, ← htracks.samples] at h
  rw [bucket, Nat.div_lt_iff_lt_mul (by omega), Nat.mul_comm kPeakCount]
  exact Nat.mul_lt_mul_of_pos_right h (by decide)

end PeakLevels

end Speecher
