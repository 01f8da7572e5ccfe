import Wsprrs.Foundation.EventMachine

/-! Runs that never end: what holds at every moment of one, and what happens in it sooner or
later. -/
namespace Wsprrs.EventMachine
variable {σ ε α : Type*} (M : EventMachine σ ε α) (s : σ) (ρ : ℕ → ε)

/-- The state before the event with number `n`. -/
def stateAt : ℕ → σ
  | 0 => s
  | n+1 => (M.step (stateAt n) (ρ n)).1

variable {M s ρ}

/-- What every step keeps holds from any moment on. -/
theorem stateAt_mono {I : σ → Prop} (hstep : ∀ s e, I s → I (M.step s e).1) {n m : ℕ} (hle : n ≤ m)
    (h : I (M.stateAt s ρ n)) : I (M.stateAt s ρ m) := by
  induction m, hle using Nat.le_induction with
  | base => exact h
  | succ m _ ih => exact hstep _ (ρ m) ih

end Wsprrs.EventMachine

namespace Wsprrs

/-- A law holds until the goal is reached, and meanwhile a measure does not grow and is lowered
again and again: so the goal is reached. -/
theorem eventually_of_measure {I G : ℕ → Prop} (measure : ℕ → ℕ)
    (hstay : ∀ n, I n → G (n+1) ∨ (I (n+1) ∧ measure (n+1) ≤ measure n))
    (hmove : ∀ n, I n → ∃ m, n ≤ m ∧ (I m → G (m+1) ∨ measure (m+1) < measure m)) {n : ℕ} (h : I n) :
    ∃ m, n < m ∧ G m := by
  -- From one moment to a later one: nothing is lost on the way, unless the goal is met there.
  have hway : ∀ n m, n ≤ m → I n → (∃ k, n < k ∧ G k) ∨ (I m ∧ measure m ≤ measure n) := by
    intro n m hle hn
    induction m, hle using Nat.le_induction with
    | base => exact .inr ⟨hn, le_rfl⟩
    | succ m hle ih =>
      obtain hgoal | ⟨hm, hmeasure⟩ := ih
      · exact .inl hgoal
      · obtain hgoal | ⟨hnext, hless⟩ := hstay m hm
        · exact .inl ⟨m+1, by omega, hgoal⟩
        · exact .inr ⟨hnext, hless.trans hmeasure⟩
  induction hbound : measure n using Nat.strong_induction_on generalizing n with
  | _ bound ih =>
    obtain ⟨m, hle, hlower⟩ := hmove n h
    obtain hgoal | ⟨hm, hmeasure⟩ := hway n m hle h
    · exact hgoal
    · obtain hgoal | ⟨hnext, -⟩ := hstay m hm
      · exact ⟨m+1, by omega, hgoal⟩
      · obtain hgoal | hless := hlower hm
        · exact ⟨m+1, by omega, hgoal⟩
        · obtain ⟨k, hk, hgoal⟩ := ih (measure (m+1)) (by omega) hnext rfl
          exact ⟨k, by omega, hgoal⟩

end Wsprrs
