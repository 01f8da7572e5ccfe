import Wsprrs.Foundation.BigEndian

/-! Chains of tag, length and value with one-byte tags. A length is one byte below 128,
or a byte `128+w` followed by `w ≤ 4` big-endian bytes; tag zero ends the chain. -/
namespace Wsprrs.TagLengthValue
open BigEndian

/-- Read a length from the front of a byte string. -/
def takeLength : List UInt8 → Option (ℕ × List UInt8)
  | [] => none
  | first::rest =>
    if first < 0x80 then some (first.toNat, rest)
    else
      let n := (first &&& 0x7F).toNat
      if n = 0 ∨ 4 < n ∨ rest.length < n then none
      else some (value (rest.take n), rest.drop n)

/-- Read one complete field from the front of a byte string. -/
def takeField : List UInt8 → Option ((UInt8 × List UInt8) × List UInt8)
  | [] => none
  | tag::rest =>
    if tag = 0 then none
    else
      match takeLength rest with
      | none => none
      | some (len, body) =>
        if body.length < len then none else some ((tag, body.take len), body.drop len)

lemma takeLength_length {bs rest : List UInt8} {len : ℕ} (h : takeLength bs = some (len, rest)) :
    rest.length < bs.length := by
  cases bs with
  | nil => simp [takeLength] at h
  | cons first tail =>
    simp only [takeLength] at h
    split_ifs at h with hshort hbad
    · cases h
      simp
    · cases h
      simp only [List.length_drop, List.length_cons]
      omega

theorem takeField_length {bs rest : List UInt8} {f : UInt8 × List UInt8}
    (h : takeField bs = some (f, rest)) : rest.length < bs.length := by
  cases bs with
  | nil => simp [takeField] at h
  | cons tag tail =>
    simp only [takeField] at h
    split_ifs at h with htag
    cases hl : takeLength tail with
    | none => simp [hl] at h
    | some r =>
      obtain ⟨len, body⟩ := r
      have hlt := takeLength_length hl
      simp only [hl] at h
      split_ifs at h with hshort
      cases h
      simp only [List.length_drop, List.length_cons]
      omega

/-- The complete fields before the first end mark, malformed length or overrunning value. -/
def fields (bs : List UInt8) : List (UInt8 × List UInt8) :=
  match _h : takeField bs with
  | none => []
  | some (f, rest) => f :: fields rest
termination_by bs.length
decreasing_by exact takeField_length ‹_›

theorem fields_of_none {bs : List UInt8} (h : takeField bs = none) : fields bs = [] := by
  rw [fields]
  split
  · rfl
  · simp_all

theorem fields_of_some {bs rest : List UInt8} {f : UInt8 × List UInt8}
    (h : takeField bs = some (f, rest)) : fields bs = f :: fields rest := by
  rw [fields]
  split
  · simp_all
  · next hs =>
    rw [h] at hs
    cases hs
    rfl

/-- Bytes after a complete length do not change it. -/
lemma takeLength_append {bs rest : List UInt8} {len : ℕ} (h : takeLength bs = some (len, rest))
    (more : List UInt8) : takeLength (bs ++ more) = some (len, rest ++ more) := by
  cases bs with
  | nil => simp [takeLength] at h
  | cons first tail =>
    simp only [takeLength, List.cons_append] at h ⊢
    split_ifs at h with hshort hbad
    · cases h
      rw [if_pos hshort]
    · cases h
      have hlen : (first &&& 0x7F).toNat ≤ tail.length := by omega
      rw [if_neg hshort, if_neg (by simp only [List.length_append]; omega),
        List.take_append_of_le_length hlen, List.drop_append_of_le_length hlen]

lemma takeField_append {bs rest : List UInt8} {f : UInt8 × List UInt8}
    (h : takeField bs = some (f, rest)) (more : List UInt8) :
    takeField (bs ++ more) = some (f, rest ++ more) := by
  cases bs with
  | nil => simp [takeField] at h
  | cons tag tail =>
    simp only [takeField, List.cons_append] at h ⊢
    split_ifs at h with htag
    cases hl : takeLength tail with
    | none => simp [hl] at h
    | some r =>
      obtain ⟨len, body⟩ := r
      simp only [hl] at h
      split_ifs at h with hover
      cases h
      have hlen : len ≤ body.length := not_lt.mp hover
      rw [if_neg htag, takeLength_append hl]
      simp only
      rw [if_neg (by simp only [List.length_append]; omega), List.take_append_of_le_length hlen,
        List.drop_append_of_le_length hlen]

/-- Cutting a chain anywhere leaves a prefix of its complete fields. -/
theorem fields_mono {bs bs' : List UInt8} (h : bs <+: bs') : fields bs <+: fields bs' := by
  obtain ⟨more, rfl⟩ := h
  induction bs using fields.induct with
  | case1 bs hnone => simp [fields_of_none hnone]
  | case2 bs f rest hsome ih =>
    rw [fields_of_some hsome, fields_of_some (takeField_append hsome more)]
    exact List.cons_prefix_cons.mpr ⟨rfl, ih⟩

/-- The two ways of writing a length. -/
inductive LengthForm
  | short
  | long (width : ℕ)
  deriving DecidableEq, Repr

namespace LengthForm

/-- The lengths that a form can express. -/
def Admits : LengthForm → ℕ → Prop
  | short, n => n < 128
  | long width, n => (1 ≤ width ∧ width ≤ 4) ∧ n < 256^width

instance (form : LengthForm) (n : ℕ) : Decidable (form.Admits n) := by
  cases form <;> unfold Admits <;> infer_instance

def encode : LengthForm → ℕ → List UInt8
  | short, n => [UInt8.ofNat n]
  | long width, n => UInt8.ofNat (0x80 + width) :: bytes width n

end LengthForm

/-- The first byte of a long form carries its width in the low seven bits. -/
lemma long_first_byte {width : ℕ} (h : width ≤ 4) :
    ¬ UInt8.ofNat (0x80 + width) < 0x80 ∧ (UInt8.ofNat (0x80 + width) &&& 0x7F).toNat = width := by
  interval_cases width <;> decide

theorem takeLength_encode (form : LengthForm) (n : ℕ) (h : form.Admits n) (rest : List UInt8) :
    takeLength (form.encode n ++ rest) = some (n, rest) := by
  cases form with
  | short =>
    have hn : n < 128 := h
    have hlt : UInt8.ofNat n < 0x80 := by
      rw [UInt8.lt_iff_toNat_lt, UInt8.toNat_ofNat']
      simp
      omega
    simp only [LengthForm.encode, List.singleton_append, takeLength, if_pos hlt,
      UInt8.toNat_ofNat']
    rw [Nat.mod_eq_of_lt (by omega)]
  | long width =>
    obtain ⟨⟨h1, h4⟩, hn⟩ := h
    obtain ⟨hge, hlow⟩ := long_first_byte h4
    have hok : ¬ (width = 0 ∨ 4 < width ∨ (bytes width n ++ rest).length < width) := by
      simp only [List.length_append, bytes_length]
      omega
    have htake : (bytes width n ++ rest).take width = bytes width n := by simp
    have hdrop : (bytes width n ++ rest).drop width = rest := by simp
    simp only [LengthForm.encode, List.cons_append, takeLength, if_neg hge, hlow, if_neg hok,
      htake, hdrop, value_bytes_of_lt hn]

/-- One encoded field. -/
def encodeField (form : LengthForm) (tag : UInt8) (val : List UInt8) : List UInt8 :=
  tag :: (form.encode val.length ++ val)

theorem takeField_encodeField (form : LengthForm) (tag : UInt8) (val rest : List UInt8)
    (htag : tag ≠ 0) (h : form.Admits val.length) :
    takeField (encodeField form tag val ++ rest) = some ((tag, val), rest) := by
  have hl := takeLength_encode form val.length h (val ++ rest)
  have hok : ¬ (val ++ rest).length < val.length := by simp
  simp only [encodeField, List.cons_append, List.append_assoc, takeField, if_neg htag, hl,
    if_neg hok]
  simp

/-- What may follow the last field of a chain. -/
def EndsChain (tail : List UInt8) : Prop := tail = [] ∨ ∃ rest, tail = 0::rest

lemma fields_of_endsChain {tail : List UInt8} (h : EndsChain tail) : fields tail = [] := by
  apply fields_of_none
  obtain rfl | ⟨rest, rfl⟩ := h
  · rfl
  · simp [takeField]

/-- Reading undoes writing, field by field, whatever follows the end mark. -/
theorem fields_flatMap {ι : Type*} (form : ι → LengthForm) (tag : ι → UInt8)
    (val : ι → List UInt8) (fs : List ι) (tail : List UInt8)
    (htag : ∀ f ∈ fs, tag f ≠ 0) (hform : ∀ f ∈ fs, (form f).Admits (val f).length)
    (htail : EndsChain tail) :
    fields (fs.flatMap (fun f => encodeField (form f) (tag f) (val f)) ++ tail) =
      fs.map (fun f => (tag f, val f)) := by
  induction fs with
  | nil => simpa using fields_of_endsChain htail
  | cons f fs ih =>
    have hhead := takeField_encodeField (form f) (tag f) (val f)
      (fs.flatMap (fun f => encodeField (form f) (tag f) (val f)) ++ tail)
      (htag f (by simp)) (hform f (by simp))
    rw [List.flatMap_cons, List.append_assoc, fields_of_some hhead, List.map_cons,
      ih (fun g hg => htag g (by simp [hg])) (fun g hg => hform g (by simp [hg]))]

/-- The value of the last field carrying a given tag. -/
def lastValue (tag : UInt8) (fs : List (UInt8 × List UInt8)) : Option (List UInt8) :=
  (fs.filterMap (fun f => if f.1 = tag then some f.2 else none)).getLast?

@[simp] theorem lastValue_nil (tag : UInt8) : lastValue tag [] = none := rfl

theorem lastValue_concat (tag : UInt8) (fs : List (UInt8 × List UInt8))
    (f : UInt8 × List UInt8) :
    lastValue tag (fs ++ [f]) = if f.1 = tag then some f.2 else lastValue tag fs := by
  by_cases h : f.1 = tag <;> simp [lastValue, h]

theorem lastValue_append (tag : UInt8) (fs gs : List (UInt8 × List UInt8)) :
    lastValue tag (fs ++ gs) = (lastValue tag gs).or (lastValue tag fs) := by
  simp [lastValue, List.getLast?_append]

/-- No field of a list without the tag has a last value. -/
theorem lastValue_eq_none {tag : UInt8} {fs : List (UInt8 × List UInt8)}
    (h : tag ∉ fs.map Prod.fst) : lastValue tag fs = none := by
  rw [lastValue, List.getLast?_eq_none_iff, List.filterMap_eq_nil_iff]
  intro f hf
  rw [if_neg]
  rintro rfl
  exact h (List.mem_map_of_mem hf)

/-- Where a tag occurs at most once, its value in a prefix is its value. -/
theorem lastValue_mono {tag : UInt8} {fs gs : List (UInt8 × List UInt8)} {v : List UInt8}
    (hpre : fs <+: gs) (honce : (gs.map Prod.fst).count tag ≤ 1)
    (hv : lastValue tag fs = some v) : lastValue tag gs = some v := by
  obtain ⟨rest, rfl⟩ := hpre
  have hmem : tag ∈ fs.map Prod.fst := by
    by_contra hnot
    rw [lastValue_eq_none hnot] at hv
    contradiction
  have hrest : tag ∉ rest.map Prod.fst := by
    intro hin
    have h1 := List.count_pos_iff.mpr hmem
    have h2 := List.count_pos_iff.mpr hin
    rw [List.map_append, List.count_append] at honce
    omega
  have hnone := lastValue_eq_none hrest
  rw [lastValue] at hv hnone ⊢
  rw [List.filterMap_append, List.getLast?_append, hnone, hv]
  rfl

/-- Decoding the last value of a tag is the last of the decoded values. -/
theorem map_lastValue {ι α : Type*} (tag : ι → UInt8) (val : ι → List UInt8) (t : UInt8)
    (decode : List UInt8 → α) (read : ι → Option α) (fs : List ι)
    (h : ∀ f ∈ fs, read f = if tag f = t then some (decode (val f)) else none) :
    (lastValue t (fs.map (fun f => (tag f, val f)))).map decode = (fs.filterMap read).getLast? := by
  have hread : fs.filterMap read =
      (fs.filterMap (fun f => if tag f = t then some (val f) else none)).map decode := by
    rw [List.map_filterMap]
    apply List.filterMap_congr
    intro f hf
    rw [h f hf]
    split_ifs <;> rfl
  rw [hread, List.getLast?_map, lastValue, List.filterMap_map]
  rfl

end Wsprrs.TagLengthValue
