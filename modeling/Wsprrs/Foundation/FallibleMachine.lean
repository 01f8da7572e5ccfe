import Wsprrs.Foundation.EventMachine

/-! Machines whose steps can fail. A run ends with its first failure, and up to there it is a
run of the machine that leaves failing steps out. -/
namespace Wsprrs

structure FallibleMachine (σ ε α : Type*) where
  step : σ → ε → Option (σ × List α)

namespace FallibleMachine
variable {σ ε α : Type*} (M : FallibleMachine σ ε α)

/-- The state after a list of events and everything emitted on the way, or nothing if one of
the steps fails. -/
def run (s : σ) : List ε → Option (σ × List α)
  | [] => some (s, [])
  | e::es =>
    match M.step s e with
    | none => none
    | some r => (run r.1 es).map (fun rs => (rs.1, r.2 ++ rs.2))

/-- The machine that leaves failing steps out. -/
def total : EventMachine σ ε α := ⟨fun s e => (M.step s e).getD (s, [])⟩

theorem total_step {s : σ} {e : ε} {r : σ × List α} (h : M.step s e = some r) :
    M.total.step s e = r := by
  simp only [total, h, Option.getD_some]

variable {M}

/-- A run goes through exactly when none of its steps fails, and is then a run of the total
machine. -/
theorem run_eq_some_iff {s : σ} {es : List ε} {r : σ × List α} :
    M.run s es = some r ↔
      M.total.EveryStep (fun s e => (M.step s e).isSome) s es ∧ M.total.run s es = r := by
  induction es generalizing s r with
  | nil => simp [run, EventMachine.run, EventMachine.EveryStep]
  | cons e es ih =>
    cases hstep : M.step s e with
    | none => simp [run, EventMachine.EveryStep, hstep]
    | some q =>
      have htotal := M.total_step hstep
      simp only [run, hstep, Option.map_eq_some_iff, EventMachine.run, EventMachine.EveryStep,
        htotal, Option.isSome_some, true_and]
      constructor
      · rintro ⟨rs, hrs, rfl⟩
        obtain ⟨hes, rfl⟩ := ih.mp hrs
        exact ⟨hes, rfl⟩
      · rintro ⟨hes, rfl⟩
        exact ⟨M.total.run q.1 es, ih.mpr ⟨hes, rfl⟩, rfl⟩

/-- What a run that goes through leaves behind and emits. -/
theorem run_total {s : σ} {es : List ε} {r : σ × List α} (h : M.run s es = some r) :
    r.1 = M.total.after s es ∧ r.2 = M.total.outputs s es := by
  have hrun := (run_eq_some_iff.mp h).2
  exact ⟨(congrArg Prod.fst hrun).symm, (congrArg Prod.snd hrun).symm⟩

theorem run_of_steps {s : σ} {es : List ε}
    (h : M.total.Throughout s es (fun _ s e => (M.step s e).isSome)) :
    M.run s es = some (M.total.after s es, M.total.outputs s es) :=
  run_eq_some_iff.mpr ⟨EventMachine.everyStep_iff_throughout.mpr h, rfl⟩

theorem steps_of_run {s : σ} {es : List ε} {r : σ × List α} (h : M.run s es = some r) :
    M.total.Throughout s es (fun _ s e => (M.step s e).isSome) :=
  EventMachine.everyStep_iff_throughout.mp (run_eq_some_iff.mp h).1

end FallibleMachine
end Wsprrs
