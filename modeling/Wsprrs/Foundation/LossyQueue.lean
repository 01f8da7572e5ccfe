import Mathlib.Data.Nat.Size
import Wsprrs.Foundation.EventMachine

/-! A bounded first-in, first-out queue whose producer never waits: what does not fit is
dropped and counted. -/
namespace Wsprrs

structure LossyQueue (α : Type*) where
  items : List α
  dropped : ℕ

namespace LossyQueue
variable {α : Type*}

inductive Event (α : Type*)
  | offer (x : α)
  | take

inductive Action (α : Type*)
  | accepted (x : α)
  | dropped (count : ℕ)
  | taken (x : α)

def empty : LossyQueue α := ⟨[], 0⟩

def offer (capacity : ℕ) (q : LossyQueue α) (x : α) : LossyQueue α × List (Action α) :=
  if q.items.length < capacity then ({ q with items := q.items ++ [x] }, [.accepted x])
  else ({ q with dropped := q.dropped + 1 }, [.dropped (q.dropped + 1)])

def take (q : LossyQueue α) : LossyQueue α × List (Action α) :=
  match q.items with
  | [] => (q, [])
  | x::rest => ({ q with items := rest }, [.taken x])

def step (capacity : ℕ) (q : LossyQueue α) : Event α → LossyQueue α × List (Action α)
  | .offer x => offer capacity q x
  | .take => take q

def machine (capacity : ℕ) : EventMachine (LossyQueue α) (Event α) (Action α) := ⟨step capacity⟩

@[simp] theorem machine_step (capacity : ℕ) :
    (machine (α := α) capacity).step = step capacity := rfl

def offered (es : List (Event α)) : List α :=
  es.filterMap (fun e =>
    match e with
    | .offer x => some x
    | .take => none)

def accepted (out : List (Action α)) : List α :=
  out.filterMap (fun a =>
    match a with
    | .accepted x => some x
    | _ => none)

def taken (out : List (Action α)) : List α :=
  out.filterMap (fun a =>
    match a with
    | .taken x => some x
    | _ => none)

/-- The numbers under which drops were reported. -/
def drops (out : List (Action α)) : List ℕ :=
  out.filterMap (fun a =>
    match a with
    | .dropped n => some n
    | _ => none)

@[simp] theorem offered_append (es es' : List (Event α)) :
    offered (es ++ es') = offered es ++ offered es' := List.filterMap_append
@[simp] theorem accepted_append (out out' : List (Action α)) :
    accepted (out ++ out') = accepted out ++ accepted out' := List.filterMap_append
@[simp] theorem taken_append (out out' : List (Action α)) :
    taken (out ++ out') = taken out ++ taken out' := List.filterMap_append
@[simp] theorem drops_append (out out' : List (Action α)) :
    drops (out ++ out') = drops out ++ drops out' := List.filterMap_append

/-- An offer takes nothing. -/
theorem taken_offer (capacity : ℕ) (q : LossyQueue α) (x : α) : taken (offer capacity q x).2 = [] := by
  unfold offer
  split_ifs <;> rfl

/-- What was offered, in order, is what was accepted and what was dropped; what was accepted was
taken or is still in the queue; drops are numbered without a gap. -/
structure Account (capacity : ℕ) (es : List (Event α)) (q : LossyQueue α) (out : List (Action α)) :
    Prop where
  queued : accepted out = taken out ++ q.items
  sublist : (accepted out).Sublist (offered es)
  counted : (offered es).length = (accepted out).length + q.dropped
  bounded : q.items.length ≤ capacity
  numbered : drops out = List.range' 1 q.dropped

theorem account_empty (capacity : ℕ) : Account (α := α) capacity [] empty [] := by
  constructor <;> simp [accepted, taken, offered, drops, empty]

namespace Account
variable {capacity : ℕ} {es : List (Event α)} {q : LossyQueue α} {out : List (Action α)}

theorem accept (h : Account capacity es q out) {x : α} (hroom : q.items.length < capacity) :
    Account capacity (es ++ [.offer x]) { q with items := q.items ++ [x] } (out ++ [.accepted x]) := by
  have hx : accepted [Action.accepted x] = [x] := rfl
  have hnone : taken [Action.accepted x] = [] := rfl
  have hoffer : offered [Event.offer x] = [x] := rfl
  have hquiet : drops [Action.accepted x] = [] := rfl
  refine ⟨?_, ?_, ?_, ?_, ?_⟩
  · rw [accepted_append, taken_append, hx, hnone, h.queued]
    simp only [List.append_nil, List.append_assoc]
  · rw [accepted_append, offered_append, hx, hoffer]
    exact h.sublist.append (List.Sublist.refl _)
  · have hcount := h.counted
    simp only [accepted_append, offered_append, hx, hoffer, List.length_append, List.length_singleton]
    omega
  · simp only [List.length_append, List.length_singleton]
    omega
  · rw [drops_append, hquiet, List.append_nil]
    exact h.numbered

theorem drop (h : Account capacity es q out) (x : α) :
    Account capacity (es ++ [.offer x]) { q with dropped := q.dropped + 1 }
      (out ++ [.dropped (q.dropped + 1)]) := by
  have hnone : accepted [Action.dropped (α := α) (q.dropped + 1)] = [] := rfl
  have htaken : taken [Action.dropped (α := α) (q.dropped + 1)] = [] := rfl
  have hoffer : offered [Event.offer x] = [x] := rfl
  have hnumber : drops [Action.dropped (α := α) (q.dropped + 1)] = [q.dropped + 1] := rfl
  refine ⟨?_, ?_, ?_, h.bounded, ?_⟩
  · rw [accepted_append, taken_append, hnone, htaken, List.append_nil, List.append_nil]
    exact h.queued
  · rw [accepted_append, offered_append, hnone, List.append_nil]
    exact h.sublist.trans (List.sublist_append_left _ _)
  · have hcount := h.counted
    simp only [accepted_append, offered_append, hnone, hoffer, List.length_append,
      List.length_singleton, List.append_nil]
    omega
  · rw [drops_append, hnumber, h.numbered, List.range'_concat]
    simp [Nat.add_comm]

theorem take (h : Account capacity es q out) {x : α} {rest : List α} (hitems : q.items = x::rest) :
    Account capacity (es ++ [.take]) { q with items := rest } (out ++ [.taken x]) := by
  have hnone : accepted [Action.taken x] = [] := rfl
  have hx : taken [Action.taken x] = [x] := rfl
  have hoffer : offered [Event.take (α := α)] = [] := rfl
  have hquiet : drops [Action.taken x] = [] := rfl
  refine ⟨?_, ?_, ?_, ?_, ?_⟩
  · rw [accepted_append, taken_append, hnone, hx, h.queued, hitems]
    simp only [List.append_nil, List.append_assoc, List.singleton_append]
  · rw [accepted_append, offered_append, hnone, hoffer, List.append_nil, List.append_nil]
    exact h.sublist
  · rw [accepted_append, offered_append, hnone, hoffer, List.append_nil, List.append_nil]
    exact h.counted
  · have hbound := h.bounded
    rw [hitems, List.length_cons] at hbound
    exact (Nat.lt_of_succ_le hbound).le
  · rw [drops_append, hquiet, List.append_nil]
    exact h.numbered

theorem idle (h : Account capacity es q out) : Account capacity (es ++ [.take]) q out := by
  have hoffer : offered [Event.take (α := α)] = [] := rfl
  refine ⟨h.queued, ?_, ?_, h.bounded, h.numbered⟩
  · rw [offered_append, hoffer, List.append_nil]
    exact h.sublist
  · rw [offered_append, hoffer, List.append_nil]
    exact h.counted

theorem step (h : Account capacity es q out) (e : Event α) :
    Account capacity (es ++ [e]) (LossyQueue.step capacity q e).1
      (out ++ (LossyQueue.step capacity q e).2) := by
  cases e with
  | offer x =>
    simp only [LossyQueue.step, offer]
    split_ifs with hroom
    · exact h.accept hroom
    · exact h.drop x
  | take =>
    simp only [LossyQueue.step, LossyQueue.take]
    cases hitems : q.items with
    | nil => simpa using h.idle
    | cons x rest => exact h.take hitems

end Account

theorem account_run (capacity : ℕ) (es : List (Event α)) :
    Account capacity es ((machine capacity).after empty es) ((machine capacity).outputs empty es) := by
  have hall : (machine capacity).Throughout empty es (fun _ _ _ => True) := fun _ _ _ _ => trivial
  exact hall.invariant (account_empty capacity) (fun _ _ _ e h _ => h.step e)

/-- Fewer items are waiting than the queue can hold. -/
def Room (capacity : ℕ) (q : LossyQueue α) : Event α → Prop
  | .offer _ => q.items.length < capacity
  | .take => True

/-- The step that loses something is an offer without room. -/
theorem dropped_step (capacity : ℕ) (q : LossyQueue α) (e : Event α) :
    (step capacity q e).1.dropped = 0 ↔ q.dropped = 0 ∧ Room capacity q e := by
  cases e with
  | offer x =>
    simp only [step, offer, Room]
    split_ifs with hroom <;> simp [hroom]
  | take =>
    simp only [step, take, Room]
    cases q.items <;> simp

end LossyQueue

/-- A number is reported when it is a power of two. -/
def isPowerOfTwo (n : ℕ) : Bool := 2^Nat.log2 n = n

/-- The next number is a power of two if it needs one more binary digit. -/
theorem isPowerOfTwo_succ (n : ℕ) : isPowerOfTwo (n+1) = true ↔ n + 1 = 2^Nat.size n := by
  rw [isPowerOfTwo, decide_eq_true_iff]
  constructor
  · intro hpow
    have hle : Nat.size n ≤ Nat.log2 (n+1) := Nat.size_le.mpr (by omega)
    obtain heq | hlt := hle.eq_or_lt
    · rw [heq, hpow]
    · have hself := Nat.lt_size_self n
      have hmono := Nat.pow_lt_pow_right (show 1 < 2 by decide) hlt
      omega
  · intro hpow
    rw [hpow, Nat.log2_two_pow]

/-- Counting to `n`, there are as many reports as `n` has binary digits. -/
theorem filter_isPowerOfTwo (n : ℕ) :
    (List.range' 1 n).filter isPowerOfTwo = (List.range (Nat.size n)).map (2^·) := by
  induction n with
  | zero => rfl
  | succ n ih =>
    rw [List.range'_concat, List.filter_append, ih, Nat.one_mul, Nat.add_comm 1 n]
    cases hpow : isPowerOfTwo (n+1) with
    | true =>
      have heq := (isPowerOfTwo_succ n).mp hpow
      have hsize : Nat.size (n+1) = Nat.size n + 1 := by rw [heq, Nat.size_pow]
      rw [hsize, List.range_succ, List.map_append, List.filter_cons_of_pos hpow, List.filter_nil, heq]
      rfl
    | false =>
      have hne : n + 1 ≠ 2^Nat.size n := fun heq => by
        rw [(isPowerOfTwo_succ n).mpr heq] at hpow
        contradiction
      have hself := Nat.lt_size_self n
      have hsize : Nat.size (n+1) = Nat.size n :=
        le_antisymm (Nat.size_le.mpr (by omega)) (Nat.size_le_size (Nat.le_succ n))
      rw [hsize, List.filter_cons_of_neg (by rw [hpow]; decide), List.filter_nil, List.append_nil]

end Wsprrs
