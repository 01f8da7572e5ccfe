import Wsprrs.Foundation.Text

/-! Loading settings from named variables, one check after the other: what a loader reads, and which
variable it blames when it fails. An error is the list of its contexts, the outermost first. -/
namespace Wsprrs

/-- The values of the variables. For one without a value, the error says why. -/
abbrev Environment := String → Except Text Text

abbrev Loader (α : Type) := Environment → Except (List Text) α

namespace Loader
variable {α β : Type}

/-- `Context::context` -/
def context (message : Text) : Except (List Text) α → Except (List Text) α
  | .ok a => .ok a
  | .error contexts => .error (message::contexts)

/-- Two environments have the same values for these variables. -/
def Agree (names : List String) (env env' : Environment) : Prop := ∀ n ∈ names, env' n = env n

/-- A variable, and what has to hold of it. -/
abbrev Check := String × (Environment → Prop)

/-- The loader reads the variables of these checks and succeeds where all of them hold. Where one fails,
the error starts with the name of the first that does, whatever the variables behind it are. -/
structure Careful (checks : List Check) (load : Loader α) : Prop where
  reads : ∀ env env', Agree (checks.map Prod.fst) env env' → load env' = load env
  loads : ∀ env, (∀ c ∈ checks, c.2 env) → ∃ a, load env = .ok a
  blames : ∀ env before c after, checks = before ++ c::after → (∀ b ∈ before, b.2 env) → ¬c.2 env →
    ∃ message rest, load env = .error (message::rest) ∧ c.1.toList <+: message ∧
      ∀ env', Agree ((before ++ [c]).map Prod.fst) env env' → load env' = load env

theorem agree_append {names names' : List String} {env env' : Environment} :
    Agree (names ++ names') env env' ↔ Agree names env env' ∧ Agree names' env env' := by
  simp only [Agree, List.mem_append, or_imp, forall_and]

/-- One variable, whose errors have its name in front. -/
theorem careful_single {name : String} {good : Environment → Prop} {load : Loader α}
    (hreads : ∀ env env', env' name = env name → load env' = load env)
    (hgood : ∀ env, good env ↔ ∃ a, load env = .ok a)
    (hblames : ∀ env contexts, load env = .error contexts →
      ∃ message rest, contexts = message::rest ∧ name.toList <+: message) :
    Careful [(name, good)] load := by
  have hread (env env' : Environment) (h : Agree [name] env env') : load env' = load env :=
    hreads env env' (h name List.mem_cons_self)
  refine ⟨hread, fun env h => (hgood env).mp (h _ List.mem_cons_self), ?_⟩
  intro env before c after hsplit _ hbad
  obtain ⟨rfl, hcons⟩ | ⟨before, rfl, hnil⟩ := List.cons_eq_append_iff.mp hsplit
  · obtain ⟨rfl, rfl⟩ := List.cons.inj hcons
    cases hload : load env with
    | ok a => exact absurd ((hgood env).mpr ⟨a, hload⟩) hbad
    | error contexts =>
      obtain ⟨message, rest, rfl, hname⟩ := hblames env contexts hload
      exact ⟨message, rest, rfl, hname, fun env' hagree => (hread env env' hagree).trans hload⟩
  · simp at hnil

/-- A loader that does not fail. -/
theorem careful_total {checks : List Check} {load : Environment → α}
    (hreads : ∀ env env', Agree (checks.map Prod.fst) env env' → load env' = load env)
    (hgood : ∀ c ∈ checks, ∀ env, c.2 env) : Careful checks (fun env => .ok (load env)) := by
  refine ⟨fun env env' h => congrArg Except.ok (hreads env env' h), fun env _ => ⟨load env, rfl⟩, ?_⟩
  intro env before c after hsplit _ hbad
  exact absurd (hgood c (by simp [hsplit]) env) hbad

theorem split_cases {γ : Type} {xs ys before after : List γ} {c : γ} (h : xs ++ ys = before ++ c::after) :
    (∃ before', before = xs ++ before' ∧ ys = before' ++ c::after) ∨ ∃ rest, xs = before ++ c::rest := by
  obtain hsecond | ⟨rest, hrest, hcons⟩ := List.append_eq_append_iff.mp h
  · exact .inl hsecond
  · cases rest with
    | nil => exact .inl ⟨[], by simpa using hrest.symm, by simpa using hcons.symm⟩
    | cons d rest =>
      obtain ⟨rfl, -⟩ := List.cons.inj hcons
      exact .inr ⟨rest, hrest⟩

/-- One loader after another. -/
theorem Careful.bind {checks checks' : List Check} {load : Loader α} {next : α → Loader β}
    (h : Careful checks load) (hnext : ∀ a, Careful checks' (next a)) :
    Careful (checks ++ checks') (fun env => load env >>= fun a => next a env) := by
  constructor
  · intro env env' hagree
    rw [List.map_append] at hagree
    obtain ⟨hfirst, hsecond⟩ := agree_append.mp hagree
    simp only [h.reads env env' hfirst]
    cases load env with
    | error contexts => rfl
    | ok a => exact (hnext a).reads env env' hsecond
  · intro env hgood
    obtain ⟨a, ha⟩ := h.loads env (fun c hc => hgood c (List.mem_append_left _ hc))
    simp only [ha]
    exact (hnext a).loads env (fun c hc => hgood c (List.mem_append_right _ hc))
  · intro env before c after hsplit hbefore hbad
    obtain ⟨before', rfl, hrest⟩ | ⟨rest', rfl⟩ := split_cases hsplit
    · -- The first loader succeeds.
      obtain ⟨a, ha⟩ := h.loads env (fun b hb => hbefore b (List.mem_append_left _ hb))
      obtain ⟨message, rest, herror, hname, hsame⟩ := (hnext a).blames env before' c after hrest
        (fun b hb => hbefore b (List.mem_append_right _ hb)) hbad
      refine ⟨message, rest, by simp only [ha]; exact herror, hname, ?_⟩
      intro env' hagree
      rw [List.append_assoc, List.map_append] at hagree
      obtain ⟨hfirst, hsecond⟩ := agree_append.mp hagree
      simp only [h.reads env env' hfirst, ha]
      exact hsame env' hsecond
    · obtain ⟨message, rest, herror, hname, hsame⟩ := h.blames env before c rest' rfl hbefore hbad
      refine ⟨message, rest, by simp only [herror]; rfl, hname, ?_⟩
      intro env' hagree
      simp only [hsame env' hagree, herror]
      rfl

/-- Only an error has a context to add. -/
theorem context_eq_error {message : Text} {r : Except (List Text) α} {contexts : List Text}
    (h : context message r = .error contexts) : ∃ rest, contexts = message::rest := by
  cases r with
  | ok a => contradiction
  | error rest => exact ⟨rest, (Except.error.inj h).symm⟩

theorem context_eq_ok {message : Text} {r : Except (List Text) α} {a : α} :
    context message r = .ok a ↔ r = .ok a := by
  cases r with
  | ok b => rfl
  | error rest => simp [context]

theorem mapError_eq_ok {ε ε' : Type} {f : ε → ε'} {r : Except ε α} {a : α} :
    r.mapError f = .ok a ↔ r = .ok a := by
  cases r with
  | ok b => simp [Except.mapError]
  | error e => simp [Except.mapError]

theorem bind_eq_ok {ε : Type} {r : Except ε α} {next : α → Except ε β} {b : β} :
    r >>= next = .ok b ↔ ∃ a, r = .ok a ∧ next a = .ok b := by
  cases r with
  | ok a => simp [bind, Except.bind]
  | error e => simp [bind, Except.bind]

theorem bind_eq_error {ε : Type} {r : Except ε α} {next : α → Except ε β} {e : ε} :
    r >>= next = .error e ↔ r = .error e ∨ ∃ a, r = .ok a ∧ next a = .error e := by
  cases r with
  | ok a => simp [bind, Except.bind]
  | error e => simp [bind, Except.bind]

/-- A message about the variable. -/
def named (name rest : String) : Text := (name ++ rest).toList

/-- A variable that has to be set. -/
def required (name : String) : Loader Text := fun env =>
  context (named name " not set") ((env name).mapError (fun e => [e]))

def orDefault (name default : String) (env : Environment) : Text :=
  match env name with
  | .ok s => s
  | .error _ => default.toList

/-- What the environment says: a value with this meaning, or nothing where there is a default. -/
def Says (env : Environment) (name : String) (default : Option α) (meaning : Text → α → Prop) (a : α) :
    Prop :=
  match env name with
  | .ok s => meaning s a
  | .error _ => default = some a

/-- The errors of a check start with the name of the variable. -/
def Blames (name : String) (check : Text → Except (List Text) α) : Prop :=
  ∀ s contexts, check s = .error contexts →
    ∃ message rest, contexts = message::rest ∧ name.toList <+: message

section
variable {name rest default : String} {check : Text → Except (List Text) α} {env : Environment} {a : α}

theorem named_starts (name rest : String) : name.toList <+: named name rest := by
  rw [named, String.toList_append]
  exact List.prefix_append _ _

theorem blames_context {r : Text → Except (List Text) α} :
    Blames name (fun s => context (named name rest) (r s)) := by
  intro s contexts h
  obtain ⟨contexts, rfl⟩ := context_eq_error h
  exact ⟨_, contexts, rfl, named_starts name rest⟩

theorem required_eq_ok {meaning : Text → α → Prop} (hcheck : ∀ s a, check s = .ok a ↔ meaning s a) :
    required name env >>= check = .ok a ↔ Says env name none meaning a := by
  unfold Says
  cases hvalue : env name with
  | error e => simp [required, hvalue, context, Except.mapError, bind, Except.bind]
  | ok s =>
    simp only [required, hvalue]
    exact hcheck s a

theorem orDefault_eq_ok {meaning : Text → α → Prop} {d : α}
    (hcheck : ∀ s a, check s = .ok a ↔ meaning s a) (hdefault : check default.toList = .ok d) :
    check (orDefault name default env) = .ok a ↔ Says env name (some d) meaning a := by
  unfold Says
  cases hvalue : env name with
  | error e =>
    simp only [orDefault, hvalue, hdefault, Except.ok.injEq, Option.some.injEq]
  | ok s =>
    simp only [orDefault, hvalue]
    exact hcheck s a

theorem careful_required {meaning : Text → α → Prop} (hcheck : Blames name check)
    (hmeaning : ∀ s a, check s = .ok a ↔ meaning s a) :
    Careful [(name, fun env => ∃ a, Says env name none meaning a)] (fun env => required name env >>= check) := by
  apply careful_single
  · intro env env' hagree
    simp only [required, hagree]
  · intro env
    exact exists_congr (fun a => (required_eq_ok hmeaning).symm)
  · intro env contexts h
    cases hvalue : env name with
    | error e =>
      simp only [required, hvalue] at h
      obtain rfl := Except.error.inj h
      exact ⟨_, [e], rfl, named_starts name _⟩
    | ok s =>
      simp only [required, hvalue] at h
      exact hcheck s contexts h

theorem careful_orDefault {meaning : Text → α → Prop} {d : α} (hcheck : Blames name check)
    (hmeaning : ∀ s a, check s = .ok a ↔ meaning s a) (hdefault : check default.toList = .ok d) :
    Careful [(name, fun env => ∃ a, Says env name (some d) meaning a)]
      (fun env => check (orDefault name default env)) := by
  apply careful_single
  · intro env env' hagree
    simp only [orDefault, hagree]
  · intro env
    exact exists_congr (fun a => (orDefault_eq_ok hmeaning hdefault).symm)
  · intro env contexts h
    exact hcheck _ contexts h

theorem orDefault_eq {s : Text} : orDefault name default env = s ↔ Says env name (some default.toList) Eq s := by
  unfold Says
  cases hvalue : env name with
  | error e => simp only [orDefault, hvalue, Option.some.injEq]
  | ok s' => simp only [orDefault, hvalue]

theorem toOption_eq {o : Option Text} :
    (env name).toOption = o ↔ Says env name (some none) (fun s o => o = some s) o := by
  unfold Says
  cases hvalue : env name with
  | error e => simp only [Except.toOption, Option.some.injEq]
  | ok s => exact eq_comm

end

end Loader
end Wsprrs
