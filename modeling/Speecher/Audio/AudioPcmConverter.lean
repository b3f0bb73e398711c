import Mathlib.Data.NNRat.Floor
import Mathlib.Tactic.Linarith
import Mathlib.Tactic.Positivity
import Speecher.Foundations.Chunked

/-!
# Converting audio to 16 kHz mono

The audio converter cuts what arrives into frames, mixes each down to one sample, and encodes the samples at 16 kHz:
as they are at that rate, by interpolation between two of them at any other, low-passed first at a higher one. The
part of a frame, the samples still needed and the position of the next one read carry over to the next chunk.

Samples are in the floating point of the source. The position of the next one read is the exact rational the source's
floating point follows. `convert_chunks` is the result: however a stream is cut, its output is the same.
-/

namespace Speecher

/-- The sample formats audio arrives in. -/
inductive SampleFormat
  | unknown | uInt8 | int16 | int32 | float
  deriving DecidableEq

def outputSampleRate : ℕ := 16000

structure AudioFormat where
  sampleRate : ℕ
  channelCount : ℕ
  sampleFormat : SampleFormat

namespace AudioFormat

variable (format : AudioFormat)

def bytesPerSample : ℕ :=
  match format.sampleFormat with
  | .unknown => 0
  | .uInt8 => 1
  | .int16 => 2
  | .int32 | .float => 4

def bytesPerFrame : ℕ := format.bytesPerSample * format.channelCount

/-- The format of the output, whose bytes are taken as they are. -/
def isOutput : Bool :=
  format.sampleRate = outputSampleRate && format.channelCount = 1 && format.sampleFormat = .int16

end AudioFormat

structure AudioPcmConversion where
  pcm16Mono16k : List UInt8 := []
  rms : Float32 := 0.0
  error : String := ""

/-! ## Samples -/

/-- A windowed-sinc low-pass, flat to about 6 kHz, of unity gain. -/
def lowPassTaps (sampleRate : ℕ) : List Float32 :=
  let pi := 3.141592653589793
  let half := (24.0 * Float.ofNat sampleRate / Float.ofNat outputSampleRate).round.toUInt64.toNat
  let count := 2 * half + 1
  let cutoff := 7000.0 / Float.ofNat sampleRate
  let taps := (List.range count).map fun (i : ℕ) =>
    let offset := Float.ofInt ((i : Int) - half)
    let sinc := if i = half then 2.0 * cutoff else (2.0 * pi * cutoff * offset).sin / (pi * offset)
    let phase := 2.0 * pi * Float.ofNat i / Float.ofNat (count - 1)
    let window := 0.42 - 0.5 * phase.cos + 0.08 * (2.0 * phase).cos
    (sinc * window).toFloat32
  let sum := taps.foldl (fun sum tap => sum + tap.toFloat) 0.0
  taps.map fun tap => (tap.toFloat / sum).toFloat32

def usableFormat (format : AudioFormat) : Bool :=
  0 < format.sampleRate && 0 < format.channelCount && 0 < format.bytesPerFrame && format.sampleFormat ≠ .unknown

/-- The nearest integer, and the even one of two. -/
def lrint (x : Float32) : Int16 :=
  let below := x.floor
  let nearest :=
    if x - below < 0.5 then below
    else if 0.5 < x - below then below + 1.0
    else if (below / 2.0).floor * 2.0 == below then below
    else below + 1.0
  nearest.toInt16

def int16FromFloat (sample : Float32) : Int16 :=
  if sample ≤ -1.0 then Int16.minValue
  else if 1.0 ≤ sample then Int16.maxValue
  else lrint (sample * Float32.ofInt Int16.maxValue.toInt)

def clamp (sample low high : Float32) : Float32 :=
  if sample < low then low else if high < sample then high else sample

/-- The two bytes a sample is encoded as. -/
def int16Bytes (sample : Float32) : List UInt8 :=
  let value := (int16FromFloat (clamp sample (-1.0) 1.0)).toUInt16
  [value.toUInt8, (value >>> 8).toUInt8]

/-- The number the bytes spell, the least significant first. -/
def littleEndian (bytes : List UInt8) : ℕ := bytes.foldr (fun byte value => byte.toNat + 256 * value) 0

def sampleAt (bytes : List UInt8) : SampleFormat → Float32
  | .uInt8 => (Float32.ofNat (littleEndian (bytes.take 1)) - 128.0) / 128.0
  | .int16 => Float32.ofInt (Int16.ofNat (littleEndian (bytes.take 2))).toInt / 32768.0
  | .int32 => (Float.ofInt (Int32.ofNat (littleEndian (bytes.take 4))).toInt / 2147483648.0).toFloat32
  | .float => clamp (Float32.ofBits (UInt32.ofNat (littleEndian (bytes.take 4)))) (-1.0) 1.0
  | .unknown => 0.0

/-- The sample of a frame: the mean over its channels. -/
def monoSample (format : AudioFormat) (frame : List UInt8) : Float32 :=
  let sum := (List.range format.channelCount).foldl
    (fun sum channel =>
      sum + (sampleAt (frame.drop (channel * format.bytesPerSample)) format.sampleFormat).toFloat)
    0.0
  (sum / Float.ofNat format.channelCount).toFloat32

/-- The samples of whole frames. -/
def decodeMonoSamples (bytes : List UInt8) (format : AudioFormat) : Except String (List Float32) :=
  if usableFormat format then
    .ok ((List.range (bytes.length / format.bytesPerFrame)).map fun frame =>
      monoSample format ((bytes.drop (frame * format.bytesPerFrame)).take format.bytesPerFrame))
  else .error "The microphone reported an unsupported audio format."

def rmsForPcm16 (pcm : List UInt8) : Float32 :=
  let samples := pcm.length / 2
  if samples = 0 then 0.0
  else
    let sum := (List.range samples).foldl
      (fun sum i =>
        let normalized := Float.ofInt (Int16.ofNat (littleEndian ((pcm.drop (2 * i)).take 2))).toInt / 32768.0
        sum + normalized * normalized)
      0.0
    (sum / Float.ofNat samples).sqrt.toFloat32

/-! ## The converter -/

structure AudioPcmConverter where
  sourceFormat : AudioFormat
  /-- The part of a frame that has arrived. -/
  pendingInput : List UInt8 := []
  resampleBuffer : List Float32 := []
  /-- Where the next output sample lies, counted in input samples from the buffer's first readable one. -/
  nextInputPosition : ℚ≥0 := 0
  /-- Empty unless the source rate is above 16 kHz. -/
  lowPassTaps : List Float32 := []

namespace AudioPcmConverter

def reset (sourceFormat : AudioFormat) : AudioPcmConverter where
  sourceFormat := sourceFormat
  lowPassTaps := if outputSampleRate < sourceFormat.sampleRate then Speecher.lowPassTaps sourceFormat.sampleRate else []

/-- The sample at an index of the buffer, low-passed over the window that starts there. -/
def filtered (taps buffer : List Float32) (index : ℕ) : Float :=
  if taps.length - 1 = 0 then (buffer.getD index 0.0).toFloat
  else (taps.zip (buffer.drop index)).foldl (fun sum (tap, sample) => sum + tap.toFloat * sample.toFloat) 0.0

/-- The sample at a position between two. -/
def interpolated (sampleAt : ℕ → Float) (position : ℚ≥0) : Float32 :=
  let index := ⌊position⌋₊
  let offset := position - index
  let fraction := Float.ofNat offset.num / Float.ofNat offset.den
  (sampleAt index * (1.0 - fraction) + sampleAt (index + 1) * fraction).toFloat32

/-- The output samples from a position on, and the position of the first one not readable yet. The step of a usable
format is positive. -/
def interpolate (inputStep : ℚ≥0) (sampleAt : ℕ → Float) (readable : ℕ) (position : ℚ≥0) : List UInt8 × ℚ≥0 :=
  if _h : 0 < inputStep ∧ position + 1 < readable then
    let later := interpolate inputStep sampleAt readable (position + inputStep)
    (int16Bytes (interpolated sampleAt position) ++ later.1, later.2)
  else ([], position)
termination_by ⌈(readable - position) / inputStep⌉₊
decreasing_by
  rw [tsub_add_eq_tsub_tsub, tsub_div, div_self _h.1.ne', Nat.ceil_sub_one]
  have hpos : 0 < (readable - position) / inputStep :=
    div_pos (tsub_pos_of_lt (lt_trans (lt_add_one position) _h.2)) _h.1
  have := Nat.ceil_pos.mpr hpos
  omega

variable (converter : AudioPcmConverter)

/-- The buffer opens with this many samples before the first readable one. -/
def lead : ℕ := converter.lowPassTaps.length - 1

def inputStep : ℚ≥0 := converter.sourceFormat.sampleRate / outputSampleRate

/-- The buffer samples go to. Before the first chunk, the stream is taken to have held its first sample. -/
def opened (samples : List Float32) : List Float32 :=
  if 0 < converter.lead && converter.resampleBuffer.isEmpty then List.replicate converter.lead (samples.headD 0.0)
  else converter.resampleBuffer

def encodeOutputSamples (samples : List Float32) : List UInt8 × AudioPcmConverter :=
  if converter.sourceFormat.sampleRate = outputSampleRate then (samples.flatMap int16Bytes, converter)
  else
    let buffer := converter.opened samples ++ samples
    let readable := buffer.length - converter.lead
    if readable < 2 then ([], { converter with resampleBuffer := buffer })
    else
      let output :=
        interpolate converter.inputStep (filtered converter.lowPassTaps buffer) readable converter.nextInputPosition
      let removable := min ⌊output.2⌋₊ (readable - 1)
      (output.1, { converter with
        resampleBuffer := buffer.drop removable
        nextInputPosition := output.2 - removable })

/-- A chunk with the part of a frame before it: its whole frames, and the part of a frame after them. -/
def cut (chunk : List UInt8) : List UInt8 × List UInt8 :=
  let input := converter.pendingInput ++ chunk
  if 0 < converter.sourceFormat.bytesPerFrame then
    let completeBytes := input.length - input.length % converter.sourceFormat.bytesPerFrame
    (input.take completeBytes, input.drop completeBytes)
  else (input, [])

def convert (chunk : List UInt8) : AudioPcmConversion × AudioPcmConverter :=
  let input := (converter.cut chunk).1
  let converter := { converter with pendingInput := (converter.cut chunk).2 }
  if converter.sourceFormat.isOutput then
    ({ pcm16Mono16k := input, rms := rmsForPcm16 input }, converter)
  else
    match decodeMonoSamples input converter.sourceFormat with
    | .error error => ({ rms := rmsForPcm16 [], error := error }, converter)
    | .ok [] => ({ rms := rmsForPcm16 [] }, converter)
    | .ok (sample :: samples) =>
      let encoded := converter.encodeOutputSamples (sample :: samples)
      ({ pcm16Mono16k := encoded.1, rms := rmsForPcm16 encoded.1 }, encoded.2)

/-! ## Interpolation -/

section Interpolation

variable {inputStep : ℚ≥0} {sampleAt sampleAt' : ℕ → Float} {readable readable' : ℕ}

theorem interpolate_next {position : ℚ≥0} (h : 0 < inputStep ∧ position + 1 < readable) :
    interpolate inputStep sampleAt readable position =
      (int16Bytes (interpolated sampleAt position) ++
          (interpolate inputStep sampleAt readable (position + inputStep)).1,
        (interpolate inputStep sampleAt readable (position + inputStep)).2) := by
  rw [interpolate, dif_pos h]

theorem interpolate_end {position : ℚ≥0} (h : ¬(0 < inputStep ∧ position + 1 < readable)) :
    interpolate inputStep sampleAt readable position = ([], position) := by
  rw [interpolate, dif_neg h]

theorem le_interpolate (position : ℚ≥0) :
    position ≤ (interpolate inputStep sampleAt readable position).2 := by
  fun_induction interpolate inputStep sampleAt readable position with
  | case1 position h later ih => exact le_trans le_self_add ih
  | case2 position h => exact le_rfl

/-- A position whose next sample is readable reads readable samples alone. -/
theorem interpolated_congr {position : ℚ≥0} (hposition : position + 1 < readable)
    (h : ∀ index < readable, sampleAt index = sampleAt' index) :
    interpolated sampleAt position = interpolated sampleAt' position := by
  have hfloor : ⌊position⌋₊ + 1 < readable := by
    have : ((⌊position⌋₊ + 1 : ℕ) : ℚ≥0) < readable := by
      push_cast
      exact lt_of_le_of_lt (add_le_add_left (Nat.floor_le zero_le) 1) hposition
    exact_mod_cast this
  simp only [interpolated, h _ hfloor, h ⌊position⌋₊ (by omega)]

/-- **More samples change nothing before them**: the output goes on from where the samples ended. -/
theorem interpolate_more (inputStep : ℚ≥0) (hmore : readable ≤ readable') (h : ∀ index < readable, sampleAt index = sampleAt' index)
    (position : ℚ≥0) :
    interpolate inputStep sampleAt' readable' position =
      ((interpolate inputStep sampleAt readable position).1 ++
          (interpolate inputStep sampleAt' readable' (interpolate inputStep sampleAt readable position).2).1,
        (interpolate inputStep sampleAt' readable' (interpolate inputStep sampleAt readable position).2).2) := by
  fun_induction interpolate inputStep sampleAt readable position with
  | case1 position hnext later ih =>
    have hnext' : 0 < inputStep ∧ position + 1 < readable' :=
      ⟨hnext.1, lt_of_lt_of_le hnext.2 (by exact_mod_cast hmore)⟩
    rw [interpolate_next hnext', ih, interpolated_congr hnext.2 h, List.append_assoc]
  | case2 position hend => rfl

/-- The position in what is left of the samples once `removed` of them are gone. -/
theorem interpolated_drop {removed : ℕ} {position : ℚ≥0} (h : (removed : ℚ≥0) ≤ position) :
    interpolated (fun index => sampleAt (removed + index)) (position - removed) = interpolated sampleAt position := by
  have hfloor : removed ≤ ⌊position⌋₊ := Nat.le_floor h
  have hoffset : position - removed - ((⌊position⌋₊ - removed : ℕ) : ℚ≥0) = position - ⌊position⌋₊ := by
    rw [tsub_tsub, ← Nat.cast_add, Nat.add_sub_cancel' hfloor]
  simp only [interpolated, Nat.floor_sub_natCast, hoffset, ← Nat.add_assoc, Nat.add_sub_cancel' hfloor]

/-- **Samples before the position may go.** -/
theorem interpolate_drop (inputStep : ℚ≥0) (sampleAt : ℕ → Float) (readable : ℕ) {removed : ℕ} (position : ℚ≥0)
    (h : (removed : ℚ≥0) ≤ position) :
    interpolate inputStep (fun index => sampleAt (removed + index)) (readable - removed) (position - removed) =
      ((interpolate inputStep sampleAt readable position).1,
        (interpolate inputStep sampleAt readable position).2 - removed) := by
  have hnext_iff (position : ℚ≥0) (h : (removed : ℚ≥0) ≤ position) :
      position - removed + 1 < ((readable - removed : ℕ) : ℚ≥0) ↔ position + 1 < readable := by
    rw [Nat.cast_tsub, tsub_add_eq_add_tsub h, tsub_lt_tsub_iff_right (le_trans h le_self_add)]
  fun_induction interpolate inputStep sampleAt readable position with
  | case1 position hnext later ih =>
    have hlater := ih (le_trans h le_self_add)
    rw [interpolate_next ⟨hnext.1, (hnext_iff position h).mpr hnext.2⟩, tsub_add_eq_add_tsub h, hlater,
      interpolated_drop h]
  | case2 position hend =>
    rw [interpolate_end]
    rwa [hnext_iff position h]

end Interpolation

/-! ## The low-pass -/

theorem zip_append_of_length_le {α β : Type*} : ∀ {taps : List α} {samples : List β} (more : List β),
    taps.length ≤ samples.length → taps.zip (samples ++ more) = taps.zip samples
  | [], _, _, _ => rfl
  | _ :: _, [], _, h => by simp at h
  | _ :: taps, _ :: samples, more, h => by
    simp [zip_append_of_length_le more (Nat.le_of_succ_le_succ h)]

theorem filtered_append {taps buffer : List Float32} {index : ℕ} (h : index + (taps.length - 1) < buffer.length)
    (more : List Float32) : filtered taps (buffer ++ more) index = filtered taps buffer index := by
  unfold filtered
  split_ifs with hlead
  · rw [List.getD_eq_getElem?_getD, List.getD_eq_getElem?_getD, List.getElem?_append_left (by omega)]
  · rw [List.drop_append_of_le_length (by omega), zip_append_of_length_le _ (by rw [List.length_drop]; omega)]

theorem filtered_drop (taps buffer : List Float32) (removed : ℕ) :
    filtered taps (buffer.drop removed) = fun index => filtered taps buffer (removed + index) := by
  funext index
  simp [filtered, List.getD_eq_getElem?_getD, List.drop_drop]

/-! ## Chunks -/

section Resampling

variable (converter : AudioPcmConverter)

/-- What is read of a buffer. -/
def output (buffer : List Float32) : List UInt8 × ℚ≥0 :=
  interpolate converter.inputStep (filtered converter.lowPassTaps buffer) (buffer.length - converter.lead)
    converter.nextInputPosition

/-- How many of the buffer's samples are not read again. -/
def removable (buffer : List Float32) : ℕ :=
  min ⌊(converter.output buffer).2⌋₊ (buffer.length - converter.lead - 1)

def resampled (buffer : List Float32) : List UInt8 × AudioPcmConverter :=
  ((converter.output buffer).1, { converter with
    resampleBuffer := buffer.drop (converter.removable buffer)
    nextInputPosition := (converter.output buffer).2 - converter.removable buffer })

/-- A buffer too short to read from is kept as it is. -/
theorem encodeOutputSamples_eq (h : converter.sourceFormat.sampleRate ≠ outputSampleRate) (samples : List Float32) :
    converter.encodeOutputSamples samples = converter.resampled (converter.opened samples ++ samples) := by
  unfold encodeOutputSamples
  rw [if_neg h]
  dsimp only
  by_cases hshort : (converter.opened samples ++ samples).length - converter.lead < 2
  · rw [if_pos hshort]
    have hend : converter.output (converter.opened samples ++ samples) = ([], converter.nextInputPosition) := by
      refine interpolate_end fun hnext => ?_
      have hreadable : ((converter.opened samples ++ samples).length - converter.lead : ℕ) ≤ (1 : ℚ≥0) := by
        exact_mod_cast Nat.le_of_lt_succ hshort
      exact absurd (lt_of_lt_of_le hnext.2 hreadable) (not_lt_of_ge le_add_self)
    have hremovable : converter.removable (converter.opened samples ++ samples) = 0 := by
      rw [removable]
      omega
    simp only [resampled, hend, hremovable, List.drop_zero, Nat.cast_zero, tsub_zero]
  · rw [if_neg hshort]
    rfl

variable {converter}

theorem removable_le (converter : AudioPcmConverter) (buffer : List Float32) :
    (converter.removable buffer : ℚ≥0) ≤ (converter.output buffer).2 :=
  le_trans (Nat.cast_le.mpr (min_le_left _ _)) (Nat.floor_le zero_le)

/-- What is read of a longer buffer: what was read of the shorter one, and then of what is left of the longer. -/
theorem output_append (converter : AudioPcmConverter) (buffer samples : List Float32) :
    (converter.output (buffer ++ samples)).1 =
        (converter.output buffer).1 ++
          ((converter.resampled buffer).2.output ((buffer ++ samples).drop (converter.removable buffer))).1 ∧
      ((converter.resampled buffer).2.output ((buffer ++ samples).drop (converter.removable buffer))).2 =
        (converter.output (buffer ++ samples)).2 - converter.removable buffer ∧
      (converter.output buffer).2 ≤ (converter.output (buffer ++ samples)).2 := by
  have hreadable : buffer.length - converter.lead ≤ (buffer ++ samples).length - converter.lead := by
    rw [List.length_append]
    omega
  have hsame : ∀ index < buffer.length - converter.lead,
      filtered converter.lowPassTaps buffer index = filtered converter.lowPassTaps (buffer ++ samples) index := by
    intro index hindex
    refine (filtered_append ?_ samples).symm
    rw [lead] at hindex
    omega
  have hmore := interpolate_more converter.inputStep hreadable hsame converter.nextInputPosition
  have hrest := interpolate_drop converter.inputStep (filtered converter.lowPassTaps (buffer ++ samples))
    ((buffer ++ samples).length - converter.lead) _ (removable_le converter buffer)
  have hafter : (converter.resampled buffer).2.output ((buffer ++ samples).drop (converter.removable buffer)) =
      interpolate converter.inputStep
        (fun index => filtered converter.lowPassTaps (buffer ++ samples) (converter.removable buffer + index))
        ((buffer ++ samples).length - converter.lead - converter.removable buffer)
        ((converter.output buffer).2 - converter.removable buffer) := by
    rw [output, ← filtered_drop, List.length_drop, Nat.sub_right_comm]
    rfl
  rw [hafter, hrest, output, hmore]
  exact ⟨rfl, rfl, le_interpolate _⟩

/-- **More samples in the buffer** give what they give once the samples before them are read and removed. -/
theorem resampled_append (converter : AudioPcmConverter) (buffer samples : List Float32) :
    converter.resampled (buffer ++ samples) =
      ((converter.resampled buffer).1 ++
          ((converter.resampled buffer).2.resampled ((converter.resampled buffer).2.resampleBuffer ++ samples)).1,
        ((converter.resampled buffer).2.resampled
          ((converter.resampled buffer).2.resampleBuffer ++ samples)).2) := by
  have hremoved : converter.removable buffer ≤ buffer.length := le_trans (min_le_right _ _) (by omega)
  have hbuffer : (converter.resampled buffer).2.resampleBuffer ++ samples =
      (buffer ++ samples).drop (converter.removable buffer) :=
    (List.drop_append_of_le_length hremoved).symm
  obtain ⟨hbytes, hposition, hle⟩ := output_append converter buffer samples
  have hmore : converter.removable buffer ≤ converter.removable (buffer ++ samples) := by
    refine min_le_min (Nat.floor_mono hle) ?_
    rw [List.length_append]
    omega
  have hremovable : (converter.resampled buffer).2.removable ((buffer ++ samples).drop (converter.removable buffer)) =
      converter.removable (buffer ++ samples) - converter.removable buffer := by
    change min _ (((buffer ++ samples).drop (converter.removable buffer)).length - converter.lead - 1) =
      min _ ((buffer ++ samples).length - converter.lead - 1) - converter.removable buffer
    rw [hposition, Nat.floor_sub_natCast, List.length_drop, ← Nat.sub_min_sub_right]
    congr 1
    omega
  have hafter : ((converter.resampled buffer).2.resampled ((buffer ++ samples).drop (converter.removable buffer))).2 =
      (converter.resampled (buffer ++ samples)).2 := by
    change AudioPcmConverter.mk _ _ (List.drop _ (List.drop _ _)) (_ - _) _ = _
    rw [hremovable, hposition, List.drop_drop, Nat.add_sub_cancel' hmore, tsub_tsub, ← Nat.cast_add,
      Nat.add_sub_cancel' hmore]
    rfl
  rw [hbuffer, hafter]
  exact Prod.ext hbytes rfl

/-- A buffer that samples went to keeps one of them. -/
theorem resampleBuffer_ne_nil (converter : AudioPcmConverter) {buffer : List Float32} (h : buffer ≠ []) :
    (converter.resampled buffer).2.resampleBuffer ≠ [] := by
  have hlength := List.length_pos_iff.mpr h
  have hremoved : converter.removable buffer ≤ buffer.length - converter.lead - 1 := min_le_right _ _
  change buffer.drop _ ≠ []
  rw [Ne, List.drop_eq_nil_iff]
  omega

theorem opened_of_ne_nil (converter : AudioPcmConverter) (h : converter.resampleBuffer ≠ [])
    (samples : List Float32) : converter.opened samples = converter.resampleBuffer := by
  simp [opened, h]

/-- **Encoding does not depend on chunking**, once there are samples. -/
theorem encodeOutputSamples_append (converter : AudioPcmConverter) {samples : List Float32} (h : samples ≠ [])
    (more : List Float32) :
    converter.encodeOutputSamples (samples ++ more) =
      ((converter.encodeOutputSamples samples).1 ++ ((converter.encodeOutputSamples samples).2.encodeOutputSamples more).1,
        ((converter.encodeOutputSamples samples).2.encodeOutputSamples more).2) := by
  by_cases hrate : converter.sourceFormat.sampleRate = outputSampleRate
  · simp [encodeOutputSamples, hrate]
  · have hopened : converter.opened (samples ++ more) = converter.opened samples := by
      cases samples with
      | nil => exact absurd rfl h
      | cons sample samples => rfl
    have hbuffer := converter.resampleBuffer_ne_nil (List.append_ne_nil_of_right_ne_nil (converter.opened samples) h)
    rw [encodeOutputSamples_eq converter hrate, hopened, ← List.append_assoc, resampled_append,
      encodeOutputSamples_eq converter hrate, encodeOutputSamples_eq _ (by exact hrate)]
    rw [opened_of_ne_nil _ hbuffer]

end Resampling

section Frames

variable {format : AudioFormat}

/-- A list cut into pieces of a length, where whole pieces come first. -/
theorem map_pieces_append {α β : Type*} {length : ℕ} (hlength : 0 < length) {whole : List α}
    (h : length ∣ whole.length) (more : List α) (f : List α → β) :
    ((List.range ((whole ++ more).length / length)).map fun i => f (((whole ++ more).drop (i * length)).take length)) =
      ((List.range (whole.length / length)).map fun i => f ((whole.drop (i * length)).take length)) ++
        (List.range (more.length / length)).map fun i => f ((more.drop (i * length)).take length) := by
  obtain ⟨count, hcount⟩ := h
  have hpieces : (whole ++ more).length / length = count + more.length / length := by
    rw [List.length_append, hcount, Nat.mul_add_div hlength]
  rw [hpieces, hcount, Nat.mul_div_cancel_left _ hlength, List.range_add, List.map_append, List.map_map]
  congr 1
  · refine List.map_congr_left fun i hi => ?_
    have hend : i * length + length ≤ whole.length := by
      rw [hcount, ← Nat.succ_mul, Nat.mul_comm length]
      exact Nat.mul_le_mul_right _ (List.mem_range.mp hi)
    rw [List.drop_append_of_le_length (by omega), List.take_append_of_le_length (by rw [List.length_drop]; omega)]
  · refine List.map_congr_left fun i _ => ?_
    have hstart : (count + i) * length = whole.length + i * length := by rw [hcount, Nat.add_mul, Nat.mul_comm count]
    rw [Function.comp_apply, hstart, ← List.drop_drop, List.drop_left]

/-- The samples of whole frames and of more are theirs one after the other. -/
theorem decodeMonoSamples_append {frames : List UInt8}
    (h : 0 < format.bytesPerFrame → format.bytesPerFrame ∣ frames.length)
    (more : List UInt8) :
    decodeMonoSamples (frames ++ more) format =
      (do return (← decodeMonoSamples frames format) ++ (← decodeMonoSamples more format)) := by
  unfold decodeMonoSamples
  split_ifs with husable
  · have hpositive : 0 < format.bytesPerFrame := by simp_all [usableFormat]
    rw [map_pieces_append hpositive (h hpositive)]
    rfl
  · rfl

/-- A format is one whose frames all decode, or none do. -/
theorem decodeMonoSamples_or (format : AudioFormat) :
    (∃ error, ∀ bytes, decodeMonoSamples bytes format = .error error) ∨
      ∀ bytes, ∃ samples, decodeMonoSamples bytes format = .ok samples := by
  unfold decodeMonoSamples
  split_ifs
  · exact .inr fun _ => ⟨_, rfl⟩
  · exact .inl ⟨_, fun _ => rfl⟩

/-- Input cut at a whole number of pieces, and again once more has come, is cut as it is at once. -/
theorem take_complete_append {α : Type*} (length : ℕ) (input more : List α) :
    let complete := input.length - input.length % length
    let rest := input.drop complete ++ more
    let completeRest := rest.length - rest.length % length
    (input ++ more).take ((input ++ more).length - (input ++ more).length % length) =
        input.take complete ++ rest.take completeRest ∧
      (input ++ more).drop ((input ++ more).length - (input ++ more).length % length) = rest.drop completeRest := by
  intro complete rest completeRest
  have hcomplete : complete ≤ input.length := Nat.sub_le _ _
  have hrest : rest = (input ++ more).drop complete := (List.drop_append_of_le_length hcomplete).symm
  have hlengths : (input ++ more).length = complete + rest.length := by
    simp only [rest, List.length_append, List.length_drop]
    omega
  have hmod : (input ++ more).length % length = rest.length % length := by
    rw [hlengths, Nat.add_mod, Nat.sub_mod_eq_zero_of_mod_eq (Nat.mod_mod _ _).symm, Nat.zero_add, Nat.mod_mod]
  have hsum : (input ++ more).length - (input ++ more).length % length = complete + completeRest := by
    have := Nat.mod_le rest.length length
    rw [hmod, hlengths]
    omega
  rw [hsum, List.take_add, ← List.drop_drop, ← hrest, List.take_append_of_le_length hcomplete]
  exact ⟨rfl, rfl⟩

end Frames

section Convert

variable (converter : AudioPcmConverter)

/-- What whole frames are encoded as. -/
def encoded (input : List UInt8) : List UInt8 × AudioPcmConverter :=
  if converter.sourceFormat.isOutput then (input, converter)
  else
    match decodeMonoSamples input converter.sourceFormat with
    | .error _ | .ok [] => ([], converter)
    | .ok (sample :: samples) => converter.encodeOutputSamples (sample :: samples)

/-- Encoding leaves the format as it is, and neither reads nor changes the part of a frame that waits. -/
theorem encodeOutputSamples_pendingInput (pendingInput : List UInt8) (samples : List Float32) :
    { converter with pendingInput }.encodeOutputSamples samples =
      ((converter.encodeOutputSamples samples).1, { (converter.encodeOutputSamples samples).2 with pendingInput }) := by
  by_cases hrate : converter.sourceFormat.sampleRate = outputSampleRate
  · simp [encodeOutputSamples, hrate]
  · rw [encodeOutputSamples_eq _ (by exact hrate), encodeOutputSamples_eq _ hrate]
    rfl

theorem convert_eq (chunk : List UInt8) :
    (converter.convert chunk).1.pcm16Mono16k = (converter.encoded (converter.cut chunk).1).1 ∧
      (converter.convert chunk).2 =
        { (converter.encoded (converter.cut chunk).1).2 with pendingInput := (converter.cut chunk).2 } := by
  unfold convert encoded
  dsimp only
  split_ifs with hpasses
  · exact ⟨rfl, rfl⟩
  · split <;> simp_all [encodeOutputSamples_pendingInput]

theorem encoded_pendingInput (pendingInput input : List UInt8) :
    { converter with pendingInput }.encoded input =
      ((converter.encoded input).1, { (converter.encoded input).2 with pendingInput }) := by
  unfold encoded
  dsimp only
  split_ifs with hpasses
  · rfl
  · split <;> simp_all [encodeOutputSamples_pendingInput]

theorem encodeOutputSamples_sourceFormat (samples : List Float32) :
    (converter.encodeOutputSamples samples).2.sourceFormat = converter.sourceFormat := by
  by_cases hrate : converter.sourceFormat.sampleRate = outputSampleRate
  · simp [encodeOutputSamples, hrate]
  · rw [encodeOutputSamples_eq _ hrate]
    rfl

theorem encoded_sourceFormat (input : List UInt8) :
    (converter.encoded input).2.sourceFormat = converter.sourceFormat := by
  unfold encoded
  split_ifs
  · rfl
  · split
    · rfl
    · rfl
    · exact encodeOutputSamples_sourceFormat _ _

variable {converter} in
theorem encoded_error {input : List UInt8} {error : String} (hpasses : ¬converter.sourceFormat.isOutput)
    (h : decodeMonoSamples input converter.sourceFormat = .error error) :
    converter.encoded input = ([], converter) := by
  rw [encoded, if_neg hpasses, h]

variable {converter} in
theorem encoded_ok {input : List UInt8} {samples : List Float32} (hpasses : ¬converter.sourceFormat.isOutput)
    (h : decodeMonoSamples input converter.sourceFormat = .ok samples) :
    converter.encoded input = if samples = [] then ([], converter) else converter.encodeOutputSamples samples := by
  rw [encoded, if_neg hpasses, h]
  cases samples <;> rfl

/-- **Whole frames are encoded one after the other.** -/
theorem encoded_append {frames : List UInt8}
    (h : 0 < converter.sourceFormat.bytesPerFrame → converter.sourceFormat.bytesPerFrame ∣ frames.length)
    (more : List UInt8) :
    converter.encoded (frames ++ more) =
      ((converter.encoded frames).1 ++ ((converter.encoded frames).2.encoded more).1,
        ((converter.encoded frames).2.encoded more).2) := by
  by_cases hpasses : converter.sourceFormat.isOutput
  · simp only [encoded, if_pos hpasses]
  have hpasses' : ¬(converter.encoded frames).2.sourceFormat.isOutput := by rwa [encoded_sourceFormat]
  rcases decodeMonoSamples_or converter.sourceFormat with ⟨error, herror⟩ | hok
  · simp only [encoded_error hpasses (herror _), List.append_nil]
  obtain ⟨samples, hsamples⟩ := hok frames
  obtain ⟨samples', hsamples'⟩ := hok more
  have hboth : decodeMonoSamples (frames ++ more) converter.sourceFormat = .ok (samples ++ samples') := by
    rw [decodeMonoSamples_append h, hsamples, hsamples']
    rfl
  rw [encoded_ok hpasses hboth, encoded_ok hpasses' (by rwa [encoded_sourceFormat]), encoded_ok hpasses hsamples]
  by_cases hempty : samples = []
  · by_cases hempty' : samples' = [] <;> simp [hempty, hempty']
  · by_cases hempty' : samples' = []
    · simp [hempty, hempty']
    · simp only [hempty, hempty', List.append_eq_nil_iff, and_self, if_false]
      exact encodeOutputSamples_append converter hempty samples'

/-- The whole frames of two chunks, and what is left after them. -/
theorem cut_append (chunk more : List UInt8) :
    converter.cut (chunk ++ more) =
        ((converter.cut chunk).1 ++ ((converter.convert chunk).2.cut more).1, ((converter.convert chunk).2.cut more).2) ∧
      (0 < converter.sourceFormat.bytesPerFrame →
        converter.sourceFormat.bytesPerFrame ∣ (converter.cut chunk).1.length) := by
  have hsource : (converter.convert chunk).2.sourceFormat = converter.sourceFormat := by
    rw [(convert_eq converter chunk).2]
    exact encoded_sourceFormat converter _
  have hpending : (converter.convert chunk).2.pendingInput = (converter.cut chunk).2 := by
    rw [(convert_eq converter chunk).2]
  simp only [cut, hsource, hpending]
  by_cases hframe : 0 < converter.sourceFormat.bytesPerFrame
  · obtain ⟨hwhole, hpart⟩ :=
      take_complete_append converter.sourceFormat.bytesPerFrame (converter.pendingInput ++ chunk) more
    simp only [if_pos hframe, ← List.append_assoc]
    refine ⟨Prod.ext hwhole hpart, fun _ => ?_⟩
    rw [List.length_take, Nat.min_eq_left (Nat.sub_le _ _)]
    exact Nat.dvd_sub_mod _
  · simp only [if_neg hframe, List.nil_append, List.append_assoc]
    exact ⟨trivial, fun h => absurd h hframe⟩

/-- **A boundary between two chunks changes nothing.** -/
theorem unchunked_convert :
    Unchunked fun (converter : AudioPcmConverter) chunk =>
      ((converter.convert chunk).1.pcm16Mono16k, (converter.convert chunk).2) := by
  intro converter chunk more
  obtain ⟨hcut, hframes⟩ := converter.cut_append chunk more
  obtain ⟨hboth, hbothAfter⟩ := convert_eq converter (chunk ++ more)
  obtain ⟨hmore, hmoreAfter⟩ := convert_eq (converter.convert chunk).2 more
  obtain ⟨hchunk, hchunkAfter⟩ := convert_eq converter chunk
  have hencoded := converter.encoded_append hframes ((converter.convert chunk).2.cut more).1
  have hrest : (converter.convert chunk).2.encoded ((converter.convert chunk).2.cut more).1 =
      (((converter.encoded (converter.cut chunk).1).2.encoded ((converter.convert chunk).2.cut more).1).1,
        { ((converter.encoded (converter.cut chunk).1).2.encoded ((converter.convert chunk).2.cut more).1).2 with
          pendingInput := (converter.cut chunk).2 }) := by
    conv_lhs => arg 1; rw [hchunkAfter]
    exact encoded_pendingInput _ _ _
  dsimp only
  rw [hboth, hbothAfter, hmore, hmoreAfter, hchunk, hcut, hencoded, hrest]

end Convert

/-- **Conversion does not depend on chunking**: from a reset, chunks give the output of all their bytes at once. -/
theorem convert_chunks (format : AudioFormat) (chunks : List (List UInt8)) :
    chunked (fun (converter : AudioPcmConverter) chunk =>
      ((converter.convert chunk).1.pcm16Mono16k, (converter.convert chunk).2)) (reset format) chunks =
      ((reset format).convert chunks.flatten).1.pcm16Mono16k := by
  refine unchunked_convert.flatten ?_ chunks
  rw [(convert_eq _ _).1]
  have hcut : ((reset format).cut []).1 = [] := by simp [cut, reset]
  rw [hcut]
  by_cases hpasses : (reset format).sourceFormat.isOutput
  · rw [encoded, if_pos hpasses]
  · rcases decodeMonoSamples_or (reset format).sourceFormat with ⟨error, herror⟩ | hok
    · rw [encoded_error hpasses (herror _)]
    · obtain ⟨samples, hsamples⟩ := hok []
      rw [encoded_ok hpasses hsamples]
      have hempty : samples = [] := by
        unfold decodeMonoSamples at hsamples
        split_ifs at hsamples
        simpa using hsamples.symm
      rw [if_pos hempty]

end AudioPcmConverter

end Speecher
