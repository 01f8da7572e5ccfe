import Wsprrs.Buffer.Placement
import Wsprrs.Buffer.Representation
import Wsprrs.BufferTask.Channel
import Wsprrs.Foundation.Riff

/-! The WAV file of a sealed window: what a RIFF reader gets out of it, and for which windows
the sizes in its header are exact. -/
namespace Wsprrs.Wav
open Riff

def numChannels : UInt16 := 1
def bitsPerSample : UInt16 := 16

/-- The sizes are computed in 32 bits, wrapping as in a release build. -/
def byteRate (window : AudioWindow) : UInt32 :=
  window.sampleRateHz*numChannels.toUInt32*(bitsPerSample/8).toUInt32

def blockAlign : UInt16 := numChannels*(bitsPerSample/8)

def dataSize (window : AudioWindow) : UInt32 :=
  UInt32.ofNat window.capacitySamples*numChannels.toUInt32*(bitsPerSample/8).toUInt32

def riffSize (window : AudioWindow) : UInt32 := 4 + 8 + 16 + 8 + dataSize window

def u16ToLeBytes (x : UInt16) : List UInt8 := leBytes 2 x.toNat
def u32ToLeBytes (x : UInt32) : List UInt8 := leBytes 4 x.toNat

/-- The bytes that `write_wav_file` puts into the file. -/
def writeWavFile (window : AudioWindow) : List UInt8 :=
  RIFF ++ u32ToLeBytes (riffSize window) ++ WAVE ++
    FMT ++ u32ToLeBytes 16 ++ u16ToLeBytes 1 ++ u16ToLeBytes numChannels ++
    u32ToLeBytes window.sampleRateHz ++ u32ToLeBytes (byteRate window) ++ u16ToLeBytes blockAlign ++
    u16ToLeBytes bitsPerSample ++
    DATA ++ u32ToLeBytes (dataSize window) ++ window.samples.flatMap i16ToLeBytes

section
variable (window : AudioWindow)

theorem byteRate_toNat : (byteRate window).toNat = 2*window.sampleRateHz.toNat % 2^32 := by
  simp [byteRate, numChannels, bitsPerSample, Nat.mul_comm]

theorem dataSize_toNat : (dataSize window).toNat = 2*window.capacitySamples % 2^32 := by
  simp [dataSize, numChannels, bitsPerSample]
  omega

theorem riffSize_toNat : (riffSize window).toNat = (36 + 2*window.capacitySamples) % 2^32 := by
  have hdata := dataSize_toNat window
  rw [riffSize, UInt32.toNat_add, hdata]
  simp

/-- The header of a window, as a reader should see it. -/
def formatOfWindow : WaveFormat := ⟨1, 1, window.sampleRateHz.toNat, 2*window.sampleRateHz.toNat, 2, 16⟩

variable {window}

/-- Within the limits of the format the code writes one RIFF chunk of format and samples. -/
theorem writeWavFile_eq (hrate : 2*window.sampleRateHz.toNat < 2^32)
    (hsize : 36 + 2*window.capacitySamples < 2^32)
    (hlen : window.samples.length = window.capacitySamples) :
    writeWavFile window = (waveChunk (formatOfWindow window) window.samples).encode := by
  have hbyteRate : (byteRate window).toNat = 2*window.sampleRateHz.toNat := by
    rw [byteRate_toNat, Nat.mod_eq_of_lt hrate]
  have hdata : (dataSize window).toNat = 2*window.samples.length := by
    rw [dataSize_toNat, Nat.mod_eq_of_lt (by omega), hlen]
  have hriff : (riffSize window).toNat = 36 + 2*window.samples.length := by
    rw [riffSize_toNat, Nat.mod_eq_of_lt hsize, hlen]
  have hsamples : window.samples.flatMap i16ToLeBytes = encodeSamples window.samples := rfl
  rw [waveChunk_encode]
  simp [writeWavFile, u32ToLeBytes, u16ToLeBytes, WaveFormat.encode, formatOfWindow, hbyteRate, hdata,
    hriff, hsamples, numChannels, bitsPerSample, blockAlign]

theorem writeWavFile_length (window : AudioWindow) :
    (writeWavFile window).length = 44 + 2*window.samples.length := by
  have hsamples : window.samples.flatMap i16ToLeBytes = encodeSamples window.samples := rfl
  simp only [writeWavFile, hsamples, u32ToLeBytes, u16ToLeBytes, List.length_append, leBytes_length,
    encodeSamples_length, RIFF, WAVE, FMT, DATA, List.length_cons, List.length_nil]

theorem readWave_of_represents (h : window.Represents) (hrate : 2*window.sampleRateHz.toNat < 2^32)
    (hsize : 36 + 2*window.capacitySamples < 2^32) :
    readWave (writeWavFile window) = some
      { riffSize := 36 + 2*window.samples.length
        format := formatOfWindow window
        dataSize := 2*window.samples.length
        samples := window.samples } := by
  have hfits : (formatOfWindow window).Fits := by
    constructor <;> simp only [formatOfWindow] <;> omega
  have hok : (formatOfWindow window).Consistent := by
    simp [WaveFormat.Consistent, formatOfWindow, Nat.mul_comm]
  rw [writeWavFile_eq hrate hsize h.length]
  exact readWave_waveChunk hfits hok (Nat.mul_mod_right 2 _) (by rw [h.length]; exact hsize)

end

/-- Whatever a window was given: within the limits of the format its file reads as mono 16-bit
PCM at its own rate, with sizes that agree with the file and exactly its samples. -/
theorem readWave_writeWavFile (windowStart : ℤ) (freq : F64) (rate secs : UInt32)
    (calls : List IngestCall) :
    let window := ((AudioWindow.new windowStart freq rate secs).ingestAll calls).1
    2*window.sampleRateHz.toNat < 2^32 → 36 + 2*window.capacitySamples < 2^32 →
    ∃ wave, readWave (writeWavFile window) = some wave ∧
      wave.format.formatTag = 1 ∧ wave.format.channels = 1 ∧ wave.format.bitsPerSample = 16 ∧
      wave.format.sampleRate = window.sampleRateHz.toNat ∧ wave.format.Consistent ∧
      (writeWavFile window).length = wave.riffSize + 8 ∧
      (writeWavFile window).length = 44 + wave.dataSize ∧ wave.samples = window.samples := by
  intro window hrate hsize
  have hrep : window.Represents := (AudioWindow.represents_new windowStart freq rate secs).ingestAll calls
  have hlen := writeWavFile_length window
  refine ⟨_, readWave_of_represents hrep hrate hsize, rfl, rfl, rfl, rfl, ?_, ?_, ?_, rfl⟩
  · simp [WaveFormat.Consistent, formatOfWindow, Nat.mul_comm]
  · simp only [hlen]
    omega
  · simp only [hlen]

/-- One second of a capture at two samples a second, the first of them negative. -/
theorem readWave_writeWavFile_negative :
    let window := ((AudioWindow.new 0 ⟨0⟩ 2 111).ingestAll
      [⟨[0xFF,0xFE,0,7], 0, 2, 0, 9, 2, 5000000000⟩]).1
    window.samples[10]? = some (-2 : Int16) ∧
      ∃ wave, readWave (writeWavFile window) = some wave ∧ wave.samples = window.samples := by
  intro window
  obtain ⟨wave, hread, -, -, -, -, -, -, -, hsamples⟩ := readWave_writeWavFile 0 ⟨0⟩ 2 111
    [⟨[0xFF,0xFE,0,7], 0, 2, 0, 9, 2, 5000000000⟩] (by decide +kernel) (by decide +kernel)
  exact ⟨by decide +kernel, wave, hread, hsamples⟩

/-- The sizes in the header are the exact products. -/
structure SizesExact (window : AudioWindow) (rate secs : UInt32) : Prop where
  byteRate : (byteRate window).toNat = 2*rate.toNat
  dataSize : (dataSize window).toNat = 2*(rate.toNat*secs.toNat)
  riffSize : (riffSize window).toNat = 36 + 2*(rate.toNat*secs.toNat)

/-- The window that is opened for a channel gets exact sizes if and only if its file is within
the limit of the format. -/
theorem sizesExact_iff (cfg : Config) (now : ℤ) (info : Status.ChannelInfo) (window : AudioWindow)
    (hopen : BufferTask.openWindow cfg.captureSeconds now info = some window) :
    SizesExact window info.sampleRateHz cfg.captureSeconds ↔
      36 + 2*(info.sampleRateHz.toNat*cfg.captureSeconds.toNat) < 2^32 := by
  rw [BufferTask.openWindow_eq_new hopen]
  have hcap : (AudioWindow.new (evenMinuteBoundary now) info.centerFreqHz info.sampleRateHz
      cfg.captureSeconds).capacitySamples = info.sampleRateHz.toNat*cfg.captureSeconds.toNat := rfl
  constructor
  · intro h
    have hriff := h.riffSize
    rw [riffSize_toNat, hcap] at hriff
    rw [← hriff]
    exact Nat.mod_lt _ (by decide)
  · intro hlt
    have hsecs := cfg.captureSeconds_toNat
    have hle : info.sampleRateHz.toNat ≤ info.sampleRateHz.toNat*cfg.captureSeconds.toNat :=
      Nat.le_mul_of_pos_right _ (by omega)
    constructor
    · rw [byteRate_toNat]
      exact Nat.mod_eq_of_lt (show 2*info.sampleRateHz.toNat < 2^32 by omega)
    · rw [dataSize_toNat, hcap, Nat.mod_eq_of_lt (by omega)]
    · rw [riffSize_toNat, hcap, Nat.mod_eq_of_lt hlt]

/-- A channel at 12 kHz and the default capture of 116 seconds. -/
def usualInfo : Status.ChannelInfo where
  centerFreqHz := ⟨0x416AE29E00000000⟩
  sampleRateHz := 12000
  channels := 1
  encoding := 2

theorem sizesExact_iff_usual :
    SizesExact (AudioWindow.new 0 usualInfo.centerFreqHz 12000 116) 12000 116 :=
  (sizesExact_iff ⟨none, 116, by decide⟩ 0 usualInfo _ rfl).mpr (by decide)

/-- The same channel with a capture of 178957 seconds, which loading admits: four gigabytes of
samples, and a header that announces 704 bytes of data. -/
theorem sizesExact_fails :
    let cfg : Config := ⟨none, 178957, by decide⟩
    let window := AudioWindow.new 0 usualInfo.centerFreqHz 12000 cfg.captureSeconds
    usualInfo.isAudioReady = true ∧
      BufferTask.openWindow cfg.captureSeconds 0 usualInfo = some window ∧
      (dataSize window).toNat = 704 ∧ (riffSize window).toNat = 740 ∧
      ¬ SizesExact window 12000 cfg.captureSeconds := by
  intro cfg window
  have hcap : window.capacitySamples = 12000*178957 := rfl
  have hriff : (riffSize window).toNat = 740 := by
    rw [riffSize_toNat, hcap]
    decide
  have hdata : (dataSize window).toNat = 704 := by
    rw [dataSize_toNat, hcap]
    decide
  refine ⟨by decide, rfl, hdata, hriff, ?_⟩
  intro h
  have hexact := h.riffSize
  rw [hriff] at hexact
  exact absurd hexact (by decide)

end Wsprrs.Wav
