import Mathlib.Data.Nat.Digits.Lemmas
import Wsprrs.Foundation.Text

/-! `from_str_radix`: one pass over the digits, which ends early at a character that is no digit and
where the value leaves its type. Signed types take a minus sign as well. -/
namespace Wsprrs.Radix

inductive IntErrorKind
  | empty | invalidDigit | posOverflow | negOverflow
  deriving Repr, DecidableEq

/-- The text of a `ParseIntError`. -/
def IntErrorKind.display : IntErrorKind → Text
  | .empty => "cannot parse integer from empty string".toList
  | .invalidDigit => "invalid digit found in string".toList
  | .posOverflow => "number too large to fit in target type".toList
  | .negOverflow => "number too small to fit in target type".toList

def digitValue (radix : ℕ) (c : Char) : ℕ :=
  if '0' ≤ c ∧ c ≤ '9' then c.toNat - '0'.toNat
  else if 'a' ≤ c ∧ c ≤ 'z' then c.toNat - 'a'.toNat + 10
  else if 'A' ≤ c ∧ c ≤ 'Z' then c.toNat - 'A'.toNat + 10
  else radix

/-- `char::to_digit` -/
def toDigit (radix : ℕ) (c : Char) : Option ℕ :=
  if digitValue radix c < radix then some (digitValue radix c) else none

def accumulate (radix max v : ℕ) : Text → Except IntErrorKind ℕ
  | [] => .ok v
  | c::s =>
    match toDigit radix c with
    | none => .error .invalidDigit
    | some d =>
      if v*radix + d ≤ max then accumulate radix max (v*radix + d) s else .error .posOverflow

/-- A minus sign is no digit of an unsigned type. -/
def fromStrRadix (radix max : ℕ) : Text → Except IntErrorKind ℕ
  | [] => .error .empty
  | ['+'] | ['-'] => .error .invalidDigit
  | '+'::s => accumulate radix max 0 s
  | s => accumulate radix max 0 s

/-- The digits after the minus sign of a signed number. -/
def accumulateNeg (radix max : ℕ) (s : Text) : Except IntErrorKind ℤ :=
  match accumulate radix (max + 1) 0 s with
  | .ok n => .ok (-n)
  | .error .posOverflow => .error .negOverflow
  | .error e => .error e

/-- From `-max - 1` to `max`. -/
def fromStrRadixSigned (radix max : ℕ) : Text → Except IntErrorKind ℤ
  | '-'::c::s => accumulateNeg radix max (c::s)
  | s => (fromStrRadix radix max s).map Int.ofNat

def parseU8 (s : Text) : Except IntErrorKind UInt8 :=
  (fromStrRadix 10 (2^8 - 1) s).map UInt8.ofNat

def parseI32 (s : Text) : Except IntErrorKind Int32 :=
  (fromStrRadixSigned 10 (2^31 - 1) s).map Int32.ofInt

def parseU16 (s : Text) : Except IntErrorKind UInt16 :=
  (fromStrRadix 10 (2^16 - 1) s).map UInt16.ofNat

/-- `u32::from_str_radix`; `parse` is the one with radix 10. -/
def parseU32 (radix : ℕ) (s : Text) : Except IntErrorKind UInt32 :=
  (fromStrRadix radix (2^32 - 1) s).map UInt32.ofNat

/-- Digits, the most significant one first, with the value that they have. -/
def Digits (radix : ℕ) (s : Text) (n : ℕ) : Prop :=
  ∃ ds, List.Forall₂ (fun c d => toDigit radix c = some d) s ds ∧ n = Nat.ofDigits radix ds.reverse

/-- The text is a number: any number of digits, with or without a plus sign. -/
def Spells (radix : ℕ) (s : Text) (n : ℕ) : Prop :=
  ∃ body, body ≠ [] ∧ Digits radix body n ∧ (s = body ∨ s = '+'::body)

section
variable {radix max v n : ℕ} {s : Text}

theorem toDigit_lt {c : Char} {d : ℕ} (h : toDigit radix c = some d) : d < radix := by
  simp only [toDigit] at h
  split at h
  · obtain rfl := Option.some.inj h
    assumption
  · contradiction

theorem toDigit_sign (radix : ℕ) : toDigit radix '+' = none ∧ toDigit radix '-' = none := by
  have hplus : ¬('0' ≤ '+' ∧ '+' ≤ '9') ∧ ¬('a' ≤ '+' ∧ '+' ≤ 'z') ∧ ¬('A' ≤ '+' ∧ '+' ≤ 'Z') := by decide
  have hminus : ¬('0' ≤ '-' ∧ '-' ≤ '9') ∧ ¬('a' ≤ '-' ∧ '-' ≤ 'z') ∧ ¬('A' ≤ '-' ∧ '-' ≤ 'Z') := by decide
  simp only [toDigit, digitValue, hplus, hminus, if_false, lt_irrefl, and_self]

/-- What the pass computes, from the value so far. -/
theorem accumulate_eq_ok (hv : v ≤ max) : accumulate radix max v s = .ok n ↔
    ∃ ds, List.Forall₂ (fun c d => toDigit radix c = some d) s ds ∧
      n = v*radix^ds.length + Nat.ofDigits radix ds.reverse ∧ n ≤ max := by
  induction s generalizing v with
  | nil =>
    simp only [accumulate, Except.ok.injEq, List.forall₂_nil_left_iff]
    constructor
    · rintro rfl
      exact ⟨[], rfl, by simp, hv⟩
    · rintro ⟨ds, rfl, rfl, -⟩
      simp
  | cons c s ih =>
    simp only [accumulate, List.forall₂_cons_left_iff]
    cases hd : toDigit radix c with
    | none => simp
    | some d =>
      have hvalue (ds : List ℕ) : (v*radix + d)*radix^ds.length + Nat.ofDigits radix ds.reverse =
          v*radix^(d::ds).length + Nat.ofDigits radix (d::ds).reverse := by
        rw [Nat.ofDigits_reverse_cons, List.length_cons, pow_succ]
        ring
      simp only
      split
      · next hmax =>
        rw [ih hmax]
        constructor
        · rintro ⟨ds, hds, rfl, hle⟩
          exact ⟨d::ds, ⟨d, ds, rfl, hds, rfl⟩, hvalue ds, hle⟩
        · rintro ⟨_, ⟨_, ds, hd', hds, rfl⟩, rfl, hle⟩
          obtain rfl := Option.some.inj hd'
          exact ⟨ds, hds, (hvalue ds).symm, hle⟩
      · next hmax =>
        refine iff_of_false (by simp) ?_
        rintro ⟨_, ⟨_, ds, hd', hds, rfl⟩, rfl, hle⟩
        obtain rfl := Option.some.inj hd'
        rw [← hvalue] at hle
        -- More digits do not make the value smaller.
        have hpos : 0 < radix^ds.length := Nat.pow_pos (by have := toDigit_lt hd; omega)
        have := Nat.le_mul_of_pos_right (v*radix + d) hpos
        omega

theorem accumulate_zero_eq_ok : accumulate radix max 0 s = .ok n ↔ Digits radix s n ∧ n ≤ max := by
  rw [accumulate_eq_ok (Nat.zero_le max)]
  simp only [Digits, Nat.zero_mul, Nat.zero_add, ← and_assoc, exists_and_right]

theorem not_digits_sign {c : Char} (hc : c = '+' ∨ c = '-') : ¬Digits radix (c::s) n := by
  rintro ⟨ds, hds, -⟩
  obtain ⟨d, ds, hd, -, rfl⟩ := List.forall₂_cons_left_iff.mp hds
  obtain rfl | rfl := hc
  · rw [(toDigit_sign radix).1] at hd
    contradiction
  · rw [(toDigit_sign radix).2] at hd
    contradiction

/-- The accepted texts are the numbers in the range of the type. -/
theorem fromStrRadix_eq_ok : fromStrRadix radix max s = .ok n ↔ Spells radix s n ∧ n ≤ max := by
  unfold fromStrRadix
  split
  · simp [Spells]
  · refine iff_of_false (by simp) ?_
    rintro ⟨⟨body, hne, hdigits, rfl | hbody⟩, -⟩
    · exact not_digits_sign (.inl rfl) hdigits
    · exact hne (List.cons.inj hbody).2.symm
  · refine iff_of_false (by simp) ?_
    rintro ⟨⟨body, hne, hdigits, rfl | hbody⟩, -⟩
    · exact not_digits_sign (.inr rfl) hdigits
    · cases hbody
  · next s hne =>
    rw [accumulate_zero_eq_ok]
    refine and_congr_left (fun _ => ⟨fun h => ⟨s, ?_, h, .inr rfl⟩, ?_⟩)
    · rintro rfl
      exact hne rfl
    · rintro ⟨body, -, hdigits, rfl | hbody⟩
      · exact absurd hdigits (not_digits_sign (.inl rfl))
      · rwa [(List.cons.inj hbody).2]
  · next hnil _ _ hplus =>
    rw [accumulate_zero_eq_ok]
    refine and_congr_left (fun _ => ⟨fun h => ⟨_, hnil, h, .inl rfl⟩, ?_⟩)
    rintro ⟨body, -, hdigits, rfl | hbody⟩
    · exact hdigits
    · exact absurd hbody (hplus body)

theorem Digits.isSome_of_mem (h : Digits radix s n) {c : Char} (hc : c ∈ s) :
    (toDigit radix c).isSome = true := by
  obtain ⟨ds, hds, -⟩ := h
  induction hds with
  | nil => contradiction
  | cons hd _ ih =>
    obtain rfl | hc := List.mem_cons.mp hc
    · rw [hd]
      rfl
    · exact ih hc

/-- Nothing but digits and the sign is in a number. -/
theorem Spells.mem (h : Spells radix s n) {c : Char} (hc : c ∈ s) :
    c = '+' ∨ (toDigit radix c).isSome = true := by
  obtain ⟨body, -, hdigits, rfl | rfl⟩ := h
  · exact .inr (hdigits.isSome_of_mem hc)
  · exact (List.mem_cons.mp hc).imp_right hdigits.isSome_of_mem

theorem map_eq_ok {ε α β : Type*} {f : α → β} {r : Except ε α} {b : β} :
    r.map f = .ok b ↔ ∃ a, r = .ok a ∧ f a = b := by
  cases r with
  | error e => simp [Except.map]
  | ok a => simp [Except.map]

/-- A signed type reads the numbers in its range as well. -/
theorem fromStrRadixSigned_spells (h : Spells radix s n) (hmax : n ≤ max) :
    fromStrRadixSigned radix max s = .ok (n : ℤ) := by
  unfold fromStrRadixSigned
  split
  · obtain ⟨body, -, hdigits, rfl | hbody⟩ := h
    · exact absurd hdigits (not_digits_sign (.inr rfl))
    · cases hbody
  · rw [fromStrRadix_eq_ok.mpr ⟨h, hmax⟩]
    rfl

theorem fromStrRadixSigned_minus (hne : s ≠ []) (h : Digits radix s n) (hmax : n ≤ max + 1) :
    fromStrRadixSigned radix max ('-'::s) = .ok (-n : ℤ) := by
  obtain ⟨c, s, rfl⟩ := List.exists_cons_of_ne_nil hne
  simp only [fromStrRadixSigned, accumulateNeg, accumulate_zero_eq_ok.mpr ⟨h, hmax⟩]

/-- One more digit at the end. -/
theorem Digits.concat (h : Digits radix s n) {c : Char} {d : ℕ} (hd : toDigit radix c = some d) :
    Digits radix (s ++ [c]) (n*radix + d) := by
  obtain ⟨ds, hds, rfl⟩ := h
  refine ⟨ds ++ [d], List.rel_append hds (.cons hd .nil), ?_⟩
  rw [List.reverse_append, List.reverse_singleton, List.singleton_append, Nat.ofDigits_cons,
    mul_comm, add_comm]

theorem toDigit_digitChar {d : ℕ} (h : d < 10) : toDigit 10 d.digitChar = some d := by
  have hall : ∀ d : Fin 10, toDigit 10 d.val.digitChar = some d.val := by decide
  exact hall ⟨d, h⟩

/-- A number as it is written is a number. -/
theorem digits_toDigits (n : ℕ) : Digits 10 (Nat.toDigits 10 n) n := by
  induction n using Nat.strong_induction_on with
  | _ n ih =>
    rw [Nat.toDigits_eq_if (by decide)]
    split
    · next hlt => exact ⟨[n], .cons (toDigit_digitChar hlt) .nil, by simp⟩
    · have hlast := (ih (n/10) (by omega)).concat (toDigit_digitChar (Nat.mod_lt n (by decide)))
      rwa [Nat.div_add_mod'] at hlast

theorem spells_toDigits (n : ℕ) : Spells 10 (Nat.toDigits 10 n) n :=
  ⟨_, Nat.toDigits_ne_nil, digits_toDigits n, .inl rfl⟩

/-- A fixed-width type reads the numbers in its range. -/
theorem map_fromStrRadix_eq_ok {β : Type*} {ofNat : ℕ → β} {toNat : β → ℕ}
    (hof : ∀ v, ofNat (toNat v) = v) (hto : ∀ n ≤ max, toNat (ofNat n) = n)
    (hmax : ∀ v, toNat v ≤ max) {v : β} :
    (fromStrRadix radix max s).map ofNat = .ok v ↔ Spells radix s (toNat v) := by
  simp only [map_eq_ok, fromStrRadix_eq_ok]
  constructor
  · rintro ⟨n, ⟨h, hle⟩, rfl⟩
    rwa [hto n hle]
  · intro h
    exact ⟨toNat v, ⟨h, hmax v⟩, hof v⟩

theorem parseU8_eq_ok {v : UInt8} : parseU8 s = .ok v ↔ Spells 10 s v.toNat := by
  refine map_fromStrRadix_eq_ok (fun _ => UInt8.ofNat_toNat) ?_ ?_
  · intro n hn
    exact UInt8.toNat_ofNat_of_lt' (by unfold UInt8.size; omega)
  · intro v
    have hlt := v.toNat_lt
    omega

theorem parseU16_eq_ok {v : UInt16} : parseU16 s = .ok v ↔ Spells 10 s v.toNat := by
  refine map_fromStrRadix_eq_ok (fun _ => UInt16.ofNat_toNat) ?_ ?_
  · intro n hn
    exact UInt16.toNat_ofNat_of_lt' (by unfold UInt16.size; omega)
  · intro v
    have hlt := v.toNat_lt
    omega

theorem parseU32_eq_ok {v : UInt32} : parseU32 radix s = .ok v ↔ Spells radix s v.toNat := by
  refine map_fromStrRadix_eq_ok (fun _ => UInt32.ofNat_toNat) ?_ ?_
  · intro n hn
    exact UInt32.toNat_ofNat_of_lt' (by unfold UInt32.size; omega)
  · intro v
    have hlt := v.toNat_lt
    omega

end
end Wsprrs.Radix
