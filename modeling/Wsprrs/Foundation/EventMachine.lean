import Mathlib.Tactic

/-! Machines that take events one at a time and emit outputs: their runs, laws that hold at
every step of a run, and the part of a machine that one observer sees. -/
namespace Wsprrs

structure EventMachine (σ ε α : Type*) where
  step : σ → ε → σ × List α

namespace EventMachine
variable {σ ε α τ δ β : Type*} (M : EventMachine σ ε α)

/-- The state after a list of events, and everything emitted on the way. -/
def run (s : σ) : List ε → σ × List α
  | [] => (s, [])
  | e::es =>
    let r := M.step s e
    let rs := run r.1 es
    (rs.1, r.2 ++ rs.2)

def after (s : σ) (es : List ε) : σ := (M.run s es).1
def outputs (s : σ) (es : List ε) : List α := (M.run s es).2

@[simp] theorem after_nil (s : σ) : M.after s [] = s := rfl
@[simp] theorem outputs_nil (s : σ) : M.outputs s [] = [] := rfl
@[simp] theorem after_cons (s : σ) (e : ε) (es : List ε) :
    M.after s (e::es) = M.after (M.step s e).1 es := rfl
@[simp] theorem outputs_cons (s : σ) (e : ε) (es : List ε) :
    M.outputs s (e::es) = (M.step s e).2 ++ M.outputs (M.step s e).1 es := rfl

@[simp] theorem after_append (s : σ) (es es' : List ε) :
    M.after s (es ++ es') = M.after (M.after s es) es' := by
  induction es generalizing s with
  | nil => rfl
  | cons e es ih => exact ih (M.step s e).1

@[simp] theorem outputs_append (s : σ) (es es' : List ε) :
    M.outputs s (es ++ es') = M.outputs s es ++ M.outputs (M.after s es) es' := by
  induction es generalizing s with
  | nil => rfl
  | cons e es ih =>
    simp only [List.cons_append, outputs_cons, after_cons, ih, List.append_assoc]

/-- `P` holds at every step of a run: of the events already taken, the state they lead to,
and the event taken next. -/
def Throughout (s : σ) (es : List ε) (P : List ε → σ → ε → Prop) : Prop :=
  ∀ past e rest, es = past ++ e::rest → P past (M.after s past) e

variable {M} {s : σ} {es : List ε} {P Q : List ε → σ → ε → Prop}

/-- Every output stands at its place among those of one of the steps. -/
theorem outputs_split {before after : List α} {a : α} (h : M.outputs s es = before ++ a::after) :
    ∃ past e rest o o', es = past ++ e::rest ∧ (M.step (M.after s past) e).2 = o ++ a::o' ∧
      before = M.outputs s past ++ o ∧
      after = o' ++ M.outputs (M.step (M.after s past) e).1 rest := by
  induction es generalizing s before with
  | nil => simp at h
  | cons e es ih =>
    rw [outputs_cons] at h
    obtain ⟨o, hbefore, hrest⟩ | ⟨o', hstep, hafter⟩ := List.append_eq_append_iff.mp h
    · obtain ⟨past, e', rest, o, o', rfl, hmem, rfl, rfl⟩ := ih hrest
      exact ⟨e::past, e', rest, o, o', rfl, hmem, by rw [hbefore, outputs_cons, List.append_assoc], rfl⟩
    · cases o' with
      | nil =>
        have hhead : M.outputs (M.step s e).1 es = [] ++ a::after := hafter.symm
        obtain ⟨past, e', rest, o, o', rfl, hmem, hnil, hlast⟩ := ih hhead
        refine ⟨e::past, e', rest, o, o', rfl, hmem, ?_, hlast⟩
        rw [outputs_cons, List.append_assoc, ← hnil, hstep, List.append_nil, List.append_nil]
      | cons b o' =>
        obtain ⟨rfl, rfl⟩ := List.cons.inj hafter
        exact ⟨[], e, es, before, o', rfl, hstep, rfl, rfl⟩

/-- Every output is emitted by one of the steps. -/
theorem mem_outputs {a : α} (h : a ∈ M.outputs s es) :
    ∃ past e rest, es = past ++ e::rest ∧ a ∈ (M.step (M.after s past) e).2 := by
  obtain ⟨before, after, hsplit⟩ := List.append_of_mem h
  obtain ⟨past, e, rest, o, o', hes, hstep, -, -⟩ := outputs_split hsplit
  exact ⟨past, e, rest, hes, by simp [hstep]⟩

theorem Throughout.mono (h : M.Throughout s es P) (hPQ : ∀ past s e, P past s e → Q past s e) :
    M.Throughout s es Q := fun past e rest hes => hPQ _ _ _ (h past e rest hes)

@[simp] theorem throughout_nil : M.Throughout s [] P := by
  intro past e rest h
  simp at h

theorem throughout_concat {e : ε} :
    M.Throughout s (es ++ [e]) P ↔ M.Throughout s es P ∧ P es (M.after s es) e := by
  constructor
  · intro h
    refine ⟨?_, h es e [] rfl⟩
    rintro past e' rest rfl
    exact h past e' (rest ++ [e]) (by simp)
  · rintro ⟨hes, he⟩ past e' rest h
    induction rest using List.reverseRecOn with
    | nil =>
      obtain ⟨rfl, hee⟩ := List.append_inj' h rfl
      cases hee
      exact he
    | append_singleton rest last =>
      rw [← List.cons_append, ← List.append_assoc] at h
      obtain ⟨rfl, -⟩ := List.append_inj' h rfl
      exact hes past e' rest rfl

/-- A law of the state and the next event alone, checked along a run. -/
def EveryStep (M : EventMachine σ ε α) (P : σ → ε → Prop) : σ → List ε → Prop
  | _, [] => True
  | s, e::es => P s e ∧ EveryStep M P (M.step s e).1 es

instance decidableEveryStep {P : σ → ε → Prop} [∀ s e, Decidable (P s e)] (s : σ) (es : List ε) :
    Decidable (M.EveryStep P s es) :=
  match es with
  | [] => isTrue trivial
  | e::es =>
    have := decidableEveryStep (P := P) (M.step s e).1 es
    inferInstanceAs (Decidable (P s e ∧ M.EveryStep P (M.step s e).1 es))

theorem everyStep_iff_throughout {P : σ → ε → Prop} :
    M.EveryStep P s es ↔ M.Throughout s es (fun _ s e => P s e) := by
  induction es generalizing s with
  | nil => simp [EveryStep]
  | cons e es ih =>
    constructor
    · rintro ⟨he, hes⟩ past e' rest hsplit
      cases past with
      | nil =>
        cases hsplit
        exact he
      | cons a past =>
        obtain ⟨rfl, rfl⟩ := List.cons.inj hsplit
        exact ih.mp hes past e' rest rfl
    · intro h
      refine ⟨h [] e es rfl, ih.mpr ?_⟩
      rintro past e' rest rfl
      exact h (e::past) e' rest rfl

theorem everyStep_append {P : σ → ε → Prop} {es' : List ε} :
    M.EveryStep P s (es ++ es') ↔ M.EveryStep P s es ∧ M.EveryStep P (M.after s es) es' := by
  induction es generalizing s with
  | nil => simp [EveryStep]
  | cons e es ih => simp only [List.cons_append, EveryStep, ih, after_cons, and_assoc]

theorem everyStep_concat {P : σ → ε → Prop} {e : ε} :
    M.EveryStep P s (es ++ [e]) ↔ M.EveryStep P s es ∧ P (M.after s es) e := by
  simp [everyStep_append, EveryStep]

/-- A law of the past, the state and the outputs that every admissible step keeps holds
after every run of admissible steps. -/
theorem Throughout.invariant {I : List ε → σ → List α → Prop} (hinit : I [] s [])
    (hstep : ∀ past s out e, I past s out → P past s e →
      I (past ++ [e]) (M.step s e).1 (out ++ (M.step s e).2))
    (h : M.Throughout s es P) : I es (M.after s es) (M.outputs s es) := by
  induction es using List.reverseRecOn with
  | nil => exact hinit
  | append_singleton es e ih =>
    obtain ⟨hes, he⟩ := throughout_concat.mp h
    have hnext := hstep es (M.after s es) (M.outputs s es) e (ih hes) he
    simpa using hnext

/-- An invariant that implies a property of the next step makes it hold throughout. -/
theorem Throughout.of_invariant {I : List ε → σ → List α → Prop} (hinit : I [] s [])
    (hstep : ∀ past s out e, I past s out → P past s e →
      I (past ++ [e]) (M.step s e).1 (out ++ (M.step s e).2))
    (hgood : ∀ past s out e, I past s out → P past s e → Q past s e)
    (h : M.Throughout s es P) : M.Throughout s es Q := by
  induction es using List.reverseRecOn with
  | nil => exact throughout_nil
  | append_singleton es e ih =>
    obtain ⟨hes, he⟩ := throughout_concat.mp h
    exact throughout_concat.mpr ⟨ih hes, hgood _ _ _ e (hes.invariant hinit hstep) he⟩

section Progress
variable (M) (C : ε → Prop)

/-- `s'` is reached from `s` by an event of the class that has an effect. -/
def Effective (s' s : σ) : Prop := ∃ e, C e ∧ s' = (M.step s e).1 ∧ s' ≠ s

/-- No event of the class has an effect. -/
def Quiescent (s : σ) : Prop := ∀ e, C e → (M.step s e).1 = s

variable {C}

/-- Events that lower a measure whenever they have an effect cannot have effects for ever. -/
theorem wellFounded_effective {ρ : Type*} [Preorder ρ] [WellFoundedLT ρ] (measure : σ → ρ)
    (h : ∀ s e, C e → (M.step s e).1 = s ∨ measure (M.step s e).1 < measure s) :
    WellFounded (M.Effective C) := by
  refine Subrelation.wf ?_ (InvImage.wf measure (wellFounded_lt (α := ρ)))
  rintro s' s ⟨e, he, rfl, hne⟩
  exact (h s e he).resolve_left hne

/-- So they lead from every state to one where they have no effect. -/
theorem exists_quiescent (hwf : WellFounded (M.Effective C)) (s : σ) :
    ∃ es, (∀ e ∈ es, C e) ∧ M.Quiescent C (M.after s es) := by
  induction s using hwf.induction with
  | _ s ih =>
    by_cases hquiet : M.Quiescent C s
    · exact ⟨[], by simp, hquiet⟩
    · obtain ⟨e, he, hne⟩ : ∃ e, C e ∧ (M.step s e).1 ≠ s := by
        simpa only [Quiescent, not_forall, exists_prop] using hquiet
      obtain ⟨es, hes, hquiescent⟩ := ih (M.step s e).1 ⟨e, he, rfl, hne⟩
      exact ⟨e::es, by simpa [he] using hes, hquiescent⟩

end Progress

/-- A part of `M` that behaves like the machine `N`. What an event means to the part may depend
on the state of the whole. -/
structure Component (M : EventMachine σ ε α) (N : EventMachine τ δ β) where
  view : σ → τ
  focus : σ → ε → Option δ
  pick : α → Option β
  view_step : ∀ s e, view (M.step s e).1 = N.after (view s) (focus s e).toList
  pick_step : ∀ s e, (M.step s e).2.filterMap pick = N.outputs (view s) (focus s e).toList

namespace Component
variable {N : EventMachine τ δ β} (c : Component M N)

/-- The events of the part in a run of the whole. -/
def trace (s : σ) : List ε → List δ
  | [] => []
  | e::es => (c.focus s e).toList ++ trace (M.step s e).1 es

theorem trace_concat (s : σ) (es : List ε) (e : ε) :
    c.trace s (es ++ [e]) = c.trace s es ++ (c.focus (M.after s es) e).toList := by
  induction es generalizing s with
  | nil => simp [trace]
  | cons a es ih => rw [List.cons_append, trace, ih, trace, List.append_assoc, after_cons]

theorem trace_append (s : σ) (es es' : List ε) :
    c.trace s (es ++ es') = c.trace s es ++ c.trace (M.after s es) es' := by
  induction es generalizing s with
  | nil => rfl
  | cons a es ih => rw [List.cons_append, trace, ih, trace, List.append_assoc, after_cons]

/-- The part of a run is a run of the part. -/
theorem view_after (s : σ) (es : List ε) :
    c.view (M.after s es) = N.after (c.view s) (c.trace s es) := by
  induction es generalizing s with
  | nil => rfl
  | cons e es ih => rw [after_cons, ih, c.view_step, trace, after_append]

theorem pick_outputs (s : σ) (es : List ε) :
    (M.outputs s es).filterMap c.pick = N.outputs (c.view s) (c.trace s es) := by
  induction es generalizing s with
  | nil => rfl
  | cons e es ih =>
    rw [outputs_cons, List.filterMap_append, ih, c.pick_step, c.view_step, trace, outputs_append]

/-- Every event of the part is what some event of the run means to it. -/
theorem mem_trace {s : σ} {es : List ε} {d : δ} (h : d ∈ c.trace s es) :
    ∃ s', ∃ e ∈ es, c.focus s' e = some d := by
  induction es generalizing s with
  | nil => contradiction
  | cons e es ih =>
    obtain h | h := List.mem_append.mp h
    · exact ⟨s, e, List.mem_cons_self, by simpa using h⟩
    · obtain ⟨s', e', he', hfocus⟩ := ih h
      exact ⟨s', e', List.mem_cons_of_mem _ he', hfocus⟩

/-- The step of the whole behind a step of the part. -/
theorem exists_step {s : σ} {es : List ε} {past rest : List δ} {d : δ}
    (h : c.trace s es = past ++ d::rest) :
    ∃ before e after, es = before ++ e::after ∧ c.trace s before = past ∧
      c.focus (M.after s before) e = some d := by
  induction es using List.reverseRecOn generalizing rest with
  | nil => simp [trace] at h
  | append_singleton es e ih =>
    rw [trace_concat] at h
    cases hfocus : c.focus (M.after s es) e with
    | none =>
      rw [hfocus, Option.toList_none, List.append_nil] at h
      obtain ⟨before, e', after, rfl, htrace, hd⟩ := ih h
      exact ⟨before, e', after ++ [e], by simp, htrace, hd⟩
    | some d' =>
      rw [hfocus, Option.toList_some] at h
      induction rest using List.reverseRecOn with
      | nil =>
        obtain ⟨htrace, hd⟩ := List.append_inj' h rfl
        cases hd
        exact ⟨es, e, [], rfl, htrace, hfocus⟩
      | append_singleton rest last =>
        rw [← List.cons_append, ← List.append_assoc] at h
        obtain ⟨htrace, -⟩ := List.append_inj' h rfl
        obtain ⟨before, e', after, rfl, hpast, hd⟩ := ih htrace
        exact ⟨before, e', after ++ [e], by simp, hpast, hd⟩

/-- Every event of the part is what some step of the run means to it. -/
theorem exists_of_mem_trace {s : σ} {es : List ε} {d : δ} (h : d ∈ c.trace s es) :
    ∃ before e after, es = before ++ e::after ∧ c.focus (M.after s before) e = some d := by
  obtain ⟨past, rest, hsplit⟩ := List.append_of_mem h
  obtain ⟨before, e, after, hes, -, hfocus⟩ := c.exists_step hsplit
  exact ⟨before, e, after, hes, hfocus⟩

end Component

/-- An observer of `M` that sees some of its events, some of its outputs and a part of its
state, and to whom these behave like the machine `N`. -/
structure Projection (M : EventMachine σ ε α) (N : EventMachine τ δ β) where
  view : σ → τ
  focus : ε → Option δ
  pick : α → Option β
  view_step : ∀ s e, view (M.step s e).1 = N.after (view s) (focus e).toList
  pick_step : ∀ s e, (M.step s e).2.filterMap pick = N.outputs (view s) (focus e).toList

namespace Projection
variable {N : EventMachine τ δ β} (p : Projection M N)

theorem filterMap_cons (e : ε) (es : List ε) :
    (e::es).filterMap p.focus = (p.focus e).toList ++ es.filterMap p.focus := by
  cases h : p.focus e <;> simp [h]

/-- To an observer, the meaning of an event is the same in every state. -/
def component : Component M N where
  view := p.view
  focus _ e := p.focus e
  pick := p.pick
  view_step := p.view_step
  pick_step := p.pick_step

theorem trace_component (s : σ) (es : List ε) : p.component.trace s es = es.filterMap p.focus := by
  induction es generalizing s with
  | nil => rfl
  | cons e es ih => rw [Component.trace, ih, p.filterMap_cons, component]

/-- What the observer sees of a run is a run of the observed machine. -/
theorem view_after (s : σ) (es : List ε) :
    p.view (M.after s es) = N.after (p.view s) (es.filterMap p.focus) := by
  rw [← p.trace_component s]
  exact p.component.view_after s es

theorem pick_outputs (s : σ) (es : List ε) :
    (M.outputs s es).filterMap p.pick = N.outputs (p.view s) (es.filterMap p.focus) := by
  rw [← p.trace_component s]
  exact p.component.pick_outputs s es

/-- A law that holds at every step the observer sees holds throughout the observed run. -/
theorem throughout {P : List δ → τ → δ → Prop}
    (h : M.Throughout s es (fun past s e =>
      ∀ d, p.focus e = some d → P (past.filterMap p.focus) (p.view s) d)) :
    N.Throughout (p.view s) (es.filterMap p.focus) P := by
  induction es using List.reverseRecOn with
  | nil => exact throughout_nil
  | append_singleton es e ih =>
    obtain ⟨hes, he⟩ := throughout_concat.mp h
    cases hd : p.focus e with
    | none => simpa [hd] using ih hes
    | some d =>
      have hlast := he d hd
      rw [p.view_after] at hlast
      simpa [hd] using throughout_concat.mpr ⟨ih hes, hlast⟩

/-- And the other way round. -/
theorem throughout_of_focus {P : List δ → τ → δ → Prop}
    (h : N.Throughout (p.view s) (es.filterMap p.focus) P) :
    M.Throughout s es (fun past s e =>
      ∀ d, p.focus e = some d → P (past.filterMap p.focus) (p.view s) d) := by
  rintro past e rest rfl d hd
  rw [p.view_after]
  exact h _ d (rest.filterMap p.focus) (by simp [hd])

end Projection

end EventMachine
end Wsprrs
