import Mathlib.Logic.Relation
import Mathlib.Tactic

/-! Code that may fault: indexing, slicing and 64-bit sums with their checks made visible, and
loops whose rounds go on or stop. A loop with a variant ends, and no fuel reasoning remains. -/
namespace Wsprrs

inductive Fault
  | index
  | slice
  | overflow
  deriving DecidableEq, Repr

abbrev Checked (α : Type*) := Except Fault α

namespace Checked
variable {α β σ ρ : Type*}

def index (buf : List β) (i : ℕ) : Checked β :=
  match buf[i]? with
  | some b => .ok b
  | none => .error .index

/-- `&buf[a..b]` -/
def slice (buf : List β) (a b : ℕ) : Checked (List β) :=
  if a ≤ b ∧ b ≤ buf.length then .ok ((buf.drop a).take (b - a)) else .error .slice

/-- `buf[i] = b` -/
def set (buf : List β) (i : ℕ) (b : β) : Checked (List β) :=
  if i < buf.length then .ok (buf.set i b) else .error .index

/-- A `usize` sum. -/
def add (a b : ℕ) : Checked ℕ := if a + b < 2^64 then .ok (a + b) else .error .overflow

/-- An `i64` sum. -/
def addInt (a b : ℤ) : Checked ℤ :=
  if -2^63 ≤ a + b ∧ a + b < 2^63 then .ok (a + b) else .error .overflow

theorem index_of_getElem? {buf : List β} {i : ℕ} {b : β} (h : buf[i]? = some b) :
    index buf i = .ok b := by
  rw [index, h]

theorem index_of_lt {buf : List β} {i : ℕ} (h : i < buf.length) (d : β) :
    index buf i = .ok (buf.getD i d) := by
  rw [index, List.getD_eq_getElem?_getD, List.getElem?_eq_getElem h]
  rfl

theorem slice_ok {buf : List β} {a b : ℕ} (hab : a ≤ b) (hb : b ≤ buf.length) :
    slice buf a b = .ok ((buf.drop a).take (b - a)) := if_pos ⟨hab, hb⟩

theorem slice_to_end {buf : List β} {a : ℕ} (h : a ≤ buf.length) :
    slice buf a buf.length = .ok (buf.drop a) := by
  rw [slice_ok h le_rfl, ← List.length_drop, List.take_length]

theorem set_ok {buf : List β} {i : ℕ} (h : i < buf.length) (b : β) :
    set buf i b = .ok (buf.set i b) := if_pos h

theorem add_ok {a b : ℕ} (h : a + b < 2^64) : add a b = .ok (a + b) := if_pos h

theorem addInt_ok {a b : ℤ} (h : -2^63 ≤ a + b ∧ a + b < 2^63) : addInt a b = .ok (a + b) := if_pos h

@[simp] theorem ok_bind {α β : Type} (a : α) (f : α → Checked β) :
    ((Except.ok a : Checked α) >>= f) = f a := rfl

/-- Rounds of a loop, each of which faults, goes on with a new state or stops with a result.
Nothing is returned if the fuel runs out. -/
def loop (round : σ → Checked (σ ⊕ ρ)) : ℕ → σ → Checked (Option ρ)
  | 0, _ => .ok none
  | fuel+1, s =>
    match round s with
    | .error e => .error e
    | .ok (.inl s') => loop round fuel s'
    | .ok (.inr r) => .ok (some r)

/-- One round leads from one state to the next. -/
def Continues (round : σ → Checked (σ ⊕ ρ)) (s s' : σ) : Prop := round s = .ok (.inl s')

/-- The states at the head of the loop, in a run from `s`. -/
def Visits (round : σ → Checked (σ ⊕ ρ)) (s s' : σ) : Prop :=
  Relation.ReflTransGen (Continues round) s s'

variable {round : σ → Checked (σ ⊕ ρ)}

/-- An invariant of the rounds holds in every state visited. -/
theorem Visits.invariant {I : σ → Prop} (hround : ∀ s s', I s → Continues round s s' → I s')
    {s s' : σ} (hs : I s) (h : Visits round s s') : I s' := by
  induction h with
  | refl => exact hs
  | tail _ hstep ih => exact hround _ _ ih hstep

/-- The loop rule: rounds that keep an invariant, lower a variant and do not change what is to
be computed end with it. -/
theorem loop_eq {I : σ → Prop} {rank : σ → ℕ} {f : σ → ρ}
    (hround : ∀ s, I s → round s = .ok (.inr (f s)) ∨
      ∃ s', round s = .ok (.inl s') ∧ I s' ∧ rank s' < rank s ∧ f s' = f s)
    {fuel : ℕ} {s : σ} (hs : I s) (hfuel : rank s < fuel) : loop round fuel s = .ok (some (f s)) := by
  induction fuel generalizing s with
  | zero => contradiction
  | succ fuel ih =>
    obtain hstop | ⟨s', hgo, hs', hlt, hf⟩ := hround s hs
    · simp only [loop, hstop]
    · simp only [loop, hgo]
      rw [ih hs' (by omega), hf]

end Checked
end Wsprrs
