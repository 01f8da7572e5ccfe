import Wsprrs.Foundation.BigEndian

/-! RIFF files and their WAVE form: chunks of a four-byte name, a little-endian size and a body
that is padded to an even length; and a reader of mono or multi-channel 16-bit PCM. -/
namespace Wsprrs.Riff
open BigEndian

/-- The lowest `width` bytes of `n`, least significant first. -/
def leBytes (width n : ℕ) : List UInt8 := (bytes width n).reverse

def leValue (bs : List UInt8) : ℕ := value bs.reverse

@[simp] theorem leBytes_length (width n : ℕ) : (leBytes width n).length = width := by
  simp [leBytes]

theorem leValue_leBytes {width n : ℕ} (h : n < 256^width) : leValue (leBytes width n) = n := by
  rw [leValue, leBytes, List.reverse_reverse, value_bytes_of_lt h]

structure Chunk where
  id : List UInt8
  body : List UInt8
  deriving DecidableEq, Repr

namespace Chunk

/-- The byte that evens out an odd body. -/
def padding (c : Chunk) : List UInt8 := List.replicate (c.body.length % 2) 0

def encode (c : Chunk) : List UInt8 := c.id ++ (leBytes 4 c.body.length ++ (c.body ++ c.padding))

theorem encode_even {c : Chunk} (h : c.body.length % 2 = 0) :
    c.encode = c.id ++ (leBytes 4 c.body.length ++ c.body) := by
  rw [encode, padding, h, List.replicate_zero, List.append_nil]

/-- A name of four bytes and a body whose length can be written down. -/
structure WellFormed (c : Chunk) : Prop where
  id : c.id.length = 4
  body : c.body.length < 2^32

end Chunk

/-- Read one chunk from the front of a byte string. -/
def takeChunk (bs : List UInt8) : Option (Chunk × List UInt8) :=
  if bs.length < 8 then none
  else
    let size := leValue ((bs.drop 4).take 4)
    let rest := bs.drop 8
    if rest.length < size + size % 2 then none
    else some (⟨bs.take 4, rest.take size⟩, rest.drop (size + size % 2))

theorem takeChunk_length {bs rest : List UInt8} {c : Chunk} (h : takeChunk bs = some (c, rest)) :
    rest.length < bs.length := by
  simp only [takeChunk] at h
  split_ifs at h
  cases h
  simp only [List.length_drop]
  omega

/-- All chunks of a byte string, if it is nothing but chunks. -/
def chunks (bs : List UInt8) : Option (List Chunk) :=
  if bs = [] then some []
  else
    match _h : takeChunk bs with
    | none => none
    | some (c, rest) => (chunks rest).map (fun cs => c::cs)
termination_by bs.length
decreasing_by exact takeChunk_length ‹_›

theorem takeChunk_encode {c : Chunk} (h : c.WellFormed) (rest : List UInt8) :
    takeChunk (c.encode ++ rest) = some (c, rest) := by
  obtain ⟨id, body⟩ := c
  obtain ⟨hid, hbody⟩ := h
  simp only at hid hbody
  have hsize : leValue (leBytes 4 body.length) = body.length := leValue_leBytes hbody
  have hhead : (Chunk.mk id body).encode ++ rest =
      (id ++ leBytes 4 body.length) ++ (body ++ (Chunk.padding ⟨id, body⟩ ++ rest)) := by
    simp [Chunk.encode]
  have hpad : (Chunk.padding ⟨id, body⟩).length = body.length % 2 := by simp [Chunk.padding]
  have h4 : ((id ++ leBytes 4 body.length) ++ (body ++ (Chunk.padding ⟨id, body⟩ ++ rest))).take 4 = id := by
    rw [List.append_assoc, ← hid, List.take_left]
  have h8 : ((id ++ leBytes 4 body.length) ++ (body ++ (Chunk.padding ⟨id, body⟩ ++ rest))).drop 8 =
      body ++ (Chunk.padding ⟨id, body⟩ ++ rest) := List.drop_left' (by simp [hid])
  have hfield : (((id ++ leBytes 4 body.length) ++
      (body ++ (Chunk.padding ⟨id, body⟩ ++ rest))).drop 4).take 4 = leBytes 4 body.length := by
    rw [List.append_assoc, List.drop_left' hid, List.take_left' (leBytes_length 4 _)]
  rw [hhead, takeChunk]
  simp only [h4, h8, hfield, hsize]
  rw [if_neg (by simp [hid]; omega), if_neg (by simp [hpad]), List.take_left]
  congr 2
  rw [← List.append_assoc]
  exact List.drop_left' (by rw [List.length_append, hpad])

/-- Reading undoes writing. -/
theorem chunks_flatMap {cs : List Chunk} (h : ∀ c ∈ cs, c.WellFormed) :
    chunks (cs.flatMap Chunk.encode) = some cs := by
  induction cs with
  | nil => simp [chunks]
  | cons c cs ih =>
    have hc := h c (by simp)
    have hne : c.encode ++ cs.flatMap Chunk.encode ≠ [] := by
      intro hnil
      have hlen := congrArg List.length hnil
      simp [Chunk.encode] at hlen
    rw [List.flatMap_cons, chunks, if_neg hne]
    split
    · next hnone =>
      rw [takeChunk_encode hc] at hnone
      contradiction
    · next d rest hsome =>
      rw [takeChunk_encode hc] at hsome
      obtain ⟨rfl, rfl⟩ := Prod.mk.inj (Option.some.inj hsome)
      rw [ih (fun d hd => h d (by simp [hd])), Option.map_some]

def RIFF : List UInt8 := [0x52,0x49,0x46,0x46]
def WAVE : List UInt8 := [0x57,0x41,0x56,0x45]
def FMT : List UInt8 := [0x66,0x6D,0x74,0x20]
def DATA : List UInt8 := [0x64,0x61,0x74,0x61]

structure WaveFormat where
  formatTag : ℕ
  channels : ℕ
  sampleRate : ℕ
  byteRate : ℕ
  blockAlign : ℕ
  bitsPerSample : ℕ
  deriving DecidableEq, Repr

/-- What a reader gets out of a file: the two sizes as written, and the samples. -/
structure Wave where
  riffSize : ℕ
  format : WaveFormat
  dataSize : ℕ
  samples : List Int16
  deriving DecidableEq, Repr

/-- The little-endian number in the bytes from `offset` on. -/
def field (bs : List UInt8) (offset width : ℕ) : ℕ := leValue ((bs.drop offset).take width)

theorem field_append (xs ys : List UInt8) {offset width n : ℕ} (hx : xs.length = offset)
    (hn : n < 256^width) : field (xs ++ (leBytes width n ++ ys)) offset width = n := by
  rw [field, List.drop_left' hx, List.take_left' (leBytes_length width n), leValue_leBytes hn]

def formatOf (body : List UInt8) : WaveFormat where
  formatTag := field body 0 2
  channels := field body 2 2
  sampleRate := field body 4 4
  byteRate := field body 8 4
  blockAlign := field body 12 2
  bitsPerSample := field body 14 2

/-- 16-bit PCM whose rate and alignment agree. -/
def WaveFormat.Consistent (f : WaveFormat) : Prop :=
  f.formatTag = 1 ∧ f.bitsPerSample = 16 ∧ f.blockAlign = f.channels*(f.bitsPerSample/8) ∧
    f.byteRate = f.sampleRate*f.blockAlign

instance (f : WaveFormat) : Decidable f.Consistent := inferInstanceAs (Decidable (_ ∧ _))

/-- Two's complement. -/
def pcm16 (b0 b1 : UInt8) : Int16 := Int16.ofInt ((leValue [b0,b1] : ℤ).bmod (2^16))

def samplesOf : List UInt8 → List Int16
  | b0::b1::rest => pcm16 b0 b1 :: samplesOf rest
  | _ => []

/-- The format comes first, then the data; other chunks are skipped. -/
def waveOf (riffSize : ℕ) (cs : List Chunk) : Option Wave :=
  match cs.dropWhile (fun c => c.id ≠ FMT) with
  | [] => none
  | fmt::after =>
    match after.find? (fun c => c.id = DATA) with
    | none => none
    | some data =>
      let format := formatOf fmt.body
      if 16 ≤ fmt.body.length ∧ format.Consistent ∧ data.body.length % format.blockAlign = 0 then
        some ⟨riffSize, format, data.body.length, samplesOf data.body⟩
      else none

/-- A file is one RIFF chunk of the WAVE form, and nothing after it. -/
def readWave (bs : List UInt8) : Option Wave :=
  match takeChunk bs with
  | some (riff, []) =>
    if riff.id = RIFF ∧ riff.body.take 4 = WAVE then
      (chunks (riff.body.drop 4)).bind (waveOf riff.body.length)
    else none
  | _ => none

namespace WaveFormat

def encode (f : WaveFormat) : List UInt8 :=
  leBytes 2 f.formatTag ++ (leBytes 2 f.channels ++ (leBytes 4 f.sampleRate ++
    (leBytes 4 f.byteRate ++ (leBytes 2 f.blockAlign ++ leBytes 2 f.bitsPerSample))))

/-- Every number fits into its field. -/
structure Fits (f : WaveFormat) : Prop where
  formatTag : f.formatTag < 256^2
  channels : f.channels < 256^2
  sampleRate : f.sampleRate < 256^4
  byteRate : f.byteRate < 256^4
  blockAlign : f.blockAlign < 256^2
  bitsPerSample : f.bitsPerSample < 256^2

@[simp] theorem encode_length (f : WaveFormat) : f.encode.length = 16 := by simp [encode]

theorem formatOf_encode {f : WaveFormat} (h : f.Fits) : formatOf f.encode = f := by
  obtain ⟨tag, channels, rate, byteRate, align, bits⟩ := f
  obtain ⟨htag, hchannels, hrate, hbyteRate, halign, hbits⟩ := h
  have h0 := field_append [] (leBytes 2 channels ++ (leBytes 4 rate ++ (leBytes 4 byteRate ++
    (leBytes 2 align ++ leBytes 2 bits)))) (show _ = 0 from rfl) htag
  have h2 := field_append (leBytes 2 tag) (leBytes 4 rate ++ (leBytes 4 byteRate ++
    (leBytes 2 align ++ leBytes 2 bits))) (leBytes_length 2 tag) hchannels
  have h4 := field_append (leBytes 2 tag ++ leBytes 2 channels) (leBytes 4 byteRate ++
    (leBytes 2 align ++ leBytes 2 bits)) (show _ = 4 by simp) hrate
  have h8 := field_append (leBytes 2 tag ++ leBytes 2 channels ++ leBytes 4 rate)
    (leBytes 2 align ++ leBytes 2 bits) (show _ = 8 by simp) hbyteRate
  have h12 := field_append (leBytes 2 tag ++ leBytes 2 channels ++ leBytes 4 rate ++
    leBytes 4 byteRate) (leBytes 2 bits) (show _ = 12 by simp) halign
  have h14 := field_append (leBytes 2 tag ++ leBytes 2 channels ++ leBytes 4 rate ++
    leBytes 4 byteRate ++ leBytes 2 align) [] (show _ = 14 by simp) hbits
  simp only [List.append_assoc, List.nil_append, List.append_nil] at h0 h2 h4 h8 h12 h14
  simp only [formatOf, encode, h0, h2, h4, h8, h12, h14]

end WaveFormat

/-- The samples, least significant byte first. -/
def encodeSamples (xs : List Int16) : List UInt8 := xs.flatMap (fun x => leBytes 2 x.toUInt16.toNat)

theorem encodeSamples_length (xs : List Int16) : (encodeSamples xs).length = 2*xs.length := by
  induction xs with
  | nil => rfl
  | cons x xs ih =>
    rw [encodeSamples, List.flatMap_cons, List.length_append, leBytes_length, ← encodeSamples, ih,
      List.length_cons]
    ring

theorem pcm16_leBytes {x : Int16} {b0 b1 : UInt8} (h : leBytes 2 x.toUInt16.toNat = [b0,b1]) :
    pcm16 b0 b1 = x := by
  have hlt : x.toUInt16.toNat < 256^2 := by simpa using x.toUInt16.toNat_lt
  have hval : leValue [b0,b1] = x.toUInt16.toNat := by rw [← h, leValue_leBytes hlt]
  have hint : (x.toUInt16.toNat : ℤ).bmod (2^16) = x.toInt :=
    (BitVec.toInt_eq_toNat_bmod x.toBitVec).symm
  unfold pcm16
  rw [hval, hint, Int16.ofInt_toInt]

theorem samplesOf_encodeSamples (xs : List Int16) : samplesOf (encodeSamples xs) = xs := by
  induction xs with
  | nil => rfl
  | cons x xs ih =>
    obtain ⟨b0, b1, hb⟩ := List.length_eq_two.mp (leBytes_length 2 x.toUInt16.toNat)
    rw [encodeSamples, List.flatMap_cons, hb, ← encodeSamples]
    simp only [List.cons_append, List.nil_append, samplesOf, ih, pcm16_leBytes hb]

/-- A file with a format and samples in it, and nothing else. -/
def waveChunk (f : WaveFormat) (xs : List Int16) : Chunk :=
  ⟨RIFF, WAVE ++ [Chunk.mk FMT f.encode, ⟨DATA, encodeSamples xs⟩].flatMap Chunk.encode⟩

theorem waveChunk_body (f : WaveFormat) (xs : List Int16) :
    (waveChunk f xs).body = WAVE ++ (FMT ++ (leBytes 4 16 ++ (f.encode ++
      (DATA ++ (leBytes 4 (2*xs.length) ++ encodeSamples xs))))) := by
  have hfmt : (Chunk.mk FMT f.encode).encode = FMT ++ (leBytes 4 16 ++ f.encode) := by
    rw [Chunk.encode_even (by simp), f.encode_length]
  have hdata : (Chunk.mk DATA (encodeSamples xs)).encode =
      DATA ++ (leBytes 4 (2*xs.length) ++ encodeSamples xs) := by
    rw [Chunk.encode_even (by simp [encodeSamples_length]), encodeSamples_length]
  simp only [waveChunk, List.flatMap_cons, List.flatMap_nil, List.append_nil, hfmt, hdata,
    List.append_assoc]

theorem waveChunk_body_length (f : WaveFormat) (xs : List Int16) :
    (waveChunk f xs).body.length = 36 + 2*xs.length := by
  simp only [waveChunk_body, List.length_append, leBytes_length, WaveFormat.encode_length,
    encodeSamples_length, WAVE, FMT, DATA, List.length_cons, List.length_nil]
  omega

/-- The whole file, byte by byte. -/
theorem waveChunk_encode (f : WaveFormat) (xs : List Int16) :
    (waveChunk f xs).encode = RIFF ++ (leBytes 4 (36 + 2*xs.length) ++ (WAVE ++ (FMT ++
      (leBytes 4 16 ++ (f.encode ++ (DATA ++ (leBytes 4 (2*xs.length) ++ encodeSamples xs))))))) := by
  have hlen := waveChunk_body_length f xs
  rw [Chunk.encode_even (by omega), hlen, waveChunk_body]
  rfl

/-- The reader gets out what was put in. -/
theorem readWave_waveChunk {f : WaveFormat} {xs : List Int16} (hfits : f.Fits) (hok : f.Consistent)
    (halign : 2*xs.length % f.blockAlign = 0) (hsize : 36 + 2*xs.length < 2^32) :
    readWave (waveChunk f xs).encode = some ⟨36 + 2*xs.length, f, 2*xs.length, xs⟩ := by
  have hlen := waveChunk_body_length f xs
  have hriff : (waveChunk f xs).WellFormed := ⟨rfl, by rw [hlen]; exact hsize⟩
  have hfmt : (Chunk.mk FMT f.encode).WellFormed := ⟨rfl, by simp⟩
  have hdata : (Chunk.mk DATA (encodeSamples xs)).WellFormed :=
    ⟨rfl, by simp only [encodeSamples_length]; omega⟩
  have htake := takeChunk_encode hriff []
  rw [List.append_nil] at htake
  have hchunks : chunks ((waveChunk f xs).body.drop 4) =
      some [Chunk.mk FMT f.encode, ⟨DATA, encodeSamples xs⟩] := by
    refine chunks_flatMap ?_
    simp [hfmt, hdata]
  simp only [readWave, htake]
  rw [if_pos ⟨rfl, rfl⟩, hchunks, Option.bind_some, hlen]
  have hskip : List.dropWhile (fun c => decide (c.id ≠ FMT))
      [Chunk.mk FMT f.encode, ⟨DATA, encodeSamples xs⟩] =
      [Chunk.mk FMT f.encode, ⟨DATA, encodeSamples xs⟩] := by simp
  have hfind : List.find? (fun c => decide (c.id = DATA)) [Chunk.mk DATA (encodeSamples xs)] =
      some ⟨DATA, encodeSamples xs⟩ := by simp
  simp only [waveOf, hskip, hfind, WaveFormat.formatOf_encode hfits, encodeSamples_length,
    samplesOf_encodeSamples]
  exact if_pos ⟨by simp, hok, halign⟩

end Wsprrs.Riff
