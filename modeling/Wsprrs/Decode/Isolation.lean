import Wsprrs.Decode.Workspace

/-! Concurrent decodes do not disturb each other: each one runs as it would alone, is given the
WAV file of its own window and nothing that another decode left, reads what its own `wsprd` wrote,
and leaves no directory behind but one that could not be removed. -/
namespace Wsprrs.Workspace
open Pipeline

section
variable {ι δ : Type*} [DecidableEq ι] [DecidableEq δ]

/-- The window that a decode was spawned with. -/
def windowOf (i : ι) (es : List (Event ι δ)) : Option AudioWindow :=
  es.findSome? (fun e =>
    match e with
    | .task j (.spawn window) => if j = i then some window else none
    | _ => none)

/-- What the `wsprd` of a decode has written into `ALL_WSPR.TXT` last. -/
def lastWritten (i : ι) (out : List (ι × TaskAction)) : Option (List UInt8) :=
  (out.filterMap (fun a =>
    match a with
    | (j, .wrote .allWspr content) => if j = i then some content else none
    | _ => none)).getLast?.join

/-- The disk, the wisdom file and the phase, as one decode sees them. -/
def State.view (i : ι) (st : State ι δ) : State Unit Unit where
  disk := st.disk.only (st.phase i).workDir
  wisdom := st.wisdom
  phase := fun _ => (st.phase i).map (fun _ => ())
  separate := by
    refine ⟨?_, fun _ _ _ _ _ => rfl⟩
    intro _ _ h
    cases hdir : (st.phase i).workDir with
    | none => cases hp : st.phase i <;> simp [hp, Phase.workDir, Phase.map] at hdir h
    | some d => exact st.separate.live i d hdir

/-- What an event is to one decode: an attempt to make a directory under a name that is taken is
nothing. -/
def eventOf (i : ι) (st : State ι δ) : Event ι δ → Option (Event Unit Unit)
  | .task j e =>
    if j = i then
      match e with
      | .mkdir name => if (st.disk.dir name).isSome then none else some (.task () (.mkdir ()))
      | e => some (.task () (e.map (fun _ => ())))
    else none
  | .wisdom content => some (.wisdom content)

def actionOf (i : ι) (a : ι × TaskAction) : Option (Unit × TaskAction) :=
  if a.1 = i then some ((), a.2) else none

theorem filterMap_actionOf (i j : ι) (as : List TaskAction) :
    (as.map (Prod.mk j)).filterMap (actionOf i) = if j = i then as.map (Prod.mk ()) else [] := by
  by_cases h : j = i <;> simp [List.filterMap_map, Function.comp_def, actionOf, h]

theorem view_task_self (i : ι) (st : State ι δ) {e : TaskEvent δ}
    (hfree : ∀ name, e = .mkdir name → st.disk.dir name = none) :
    (step (st.view i) (.task () (e.map (fun _ => ())))).1 = (step st (.task i e)).1.view i ∧
    (step (st.view i) (.task () (e.map (fun _ => ())))).2 =
      (step st (.task i e)).2.filterMap (actionOf i) := by
  have halone := taskStep_alone st.wisdom hfree (st.phase i)
  refine ⟨State.ext ?_ rfl ?_, ?_⟩
  · simp only [step, State.view, Function.update_self]
    exact congrArg Prod.fst halone
  · funext u
    simp only [step, State.view, Function.update_self]
    exact congrArg (fun r => r.2.1) halone
  · simp only [step, filterMap_actionOf, if_true]
    exact congrArg (fun r => r.2.2.map (Prod.mk ())) halone

/-- The steps of the others are invisible: they work in directories of their own. -/
theorem view_task_ne {i j : ι} (h : j ≠ i) (st : State ι δ) (e : TaskEvent δ) :
    (step st (.task j e)).1.view i = st.view i ∧
    (step st (.task j e)).2.filterMap (actionOf i) = [] := by
  have hphase : (step st (.task j e)).1.phase i = st.phase i := Function.update_of_ne h.symm ..
  refine ⟨State.ext ?_ rfl ?_, ?_⟩
  · simp only [State.view, hphase]
    refine DirStore.only_congr ?_
    intro d hd
    have hother : (st.phase j).workDir ≠ some d := fun hj => h (st.separate.disjoint j i d hj hd)
    obtain ⟨-, -, hsame⟩ | ⟨name, -, hfree, hdisk, -⟩ | ⟨d', hold, hdisk, -⟩ :=
      confined_taskStep st.wisdom st.disk (st.phase j) e
    · exact hsame d hother
    · have hne : d ≠ name := by
        rintro rfl
        have hlive := st.separate.live i d hd
        rw [hfree] at hlive
        contradiction
      simp only [step, hdisk]
      exact DirStore.dir_create_ne _ hne
    · have hne : d ≠ d' := by
        rintro rfl
        exact hother hold
      simp only [step, hdisk]
      exact DirStore.dir_remove_ne _ hne _
  · simp only [State.view, hphase]
  · simp only [step, filterMap_actionOf, if_neg h]

/-- Seen by one decode, the run is that of a decode which is alone on an empty disk. -/
def decodeComponent (i : ι) : EventMachine.Component (machine ι δ) (machine Unit Unit) where
  view := State.view i
  focus := eventOf i
  pick := actionOf i
  view_step := by
    intro st e
    cases e with
    | wisdom content => rfl
    | task j e =>
      by_cases hj : j = i
      · subst hj
        cases e with
        | mkdir name =>
          by_cases hname : (st.disk.dir name).isSome = true
          · have hstay : (machine ι δ).step st (.task j (.mkdir name)) = (st, []) := by
              simp only [machine_step, step, taskStep_mkdir_taken hname, List.map_nil]
              exact congrArg (·, []) (State.ext rfl rfl (Function.update_eq_self j st.phase))
            simp [hstay, eventOf, hname]
          · have hfree : st.disk.dir name = none := by simpa using hname
            simp only [eventOf, if_true, hname, Bool.false_eq_true, if_false, Option.toList_some]
            exact (view_task_self j st (e := .mkdir name) (by rintro _ ⟨⟩; exact hfree)).1.symm
        | _ =>
          simp only [eventOf, if_true, Option.toList_some]
          exact (view_task_self j st (by simp)).1.symm
      · simp only [eventOf, if_neg hj]
        exact (view_task_ne hj st e).1
  pick_step := by
    intro st e
    cases e with
    | wisdom content => rfl
    | task j e =>
      by_cases hj : j = i
      · subst hj
        cases e with
        | mkdir name =>
          by_cases hname : (st.disk.dir name).isSome = true
          · simp [step, taskStep_mkdir_taken hname, eventOf, hname]
          · have hfree : st.disk.dir name = none := by simpa using hname
            have hself := (view_task_self j st (e := .mkdir name) (by rintro _ ⟨⟩; exact hfree)).2
            simp only [eventOf, if_true, hname, Bool.false_eq_true, if_false, Option.toList_some]
            exact hself.symm.trans (List.append_nil _).symm
        | _ =>
          simp only [eventOf, if_true, Option.toList_some]
          exact (view_task_self j st (by simp)).2.symm.trans (List.append_nil _).symm
      · simp only [eventOf, if_neg hj]
        exact (view_task_ne hj st e).2

end

/-- The files that `wsprd` is started with: the WAV file of the window, perhaps a wisdom file, and
nothing else. -/
def Ready (window : AudioWindow) (files : FileName → Option (List UInt8)) : Prop :=
  ∀ f, f ≠ .wisdom → files f = if f = .wav then some (Wav.writeWavFile window) else none

/-- The result of a decode: an error, or what `run_wsprd` makes of what its `wsprd` has written. -/
def OwnResult (window : AudioWindow) (written : Option (List UInt8))
    (result : Except Text (List WsprSpot)) : Prop :=
  ∃ outcome, result = decodeWindow window outcome ∧
    (outcome = outcomeOf written ∨ ∃ error, outcome = .failed error)

/-- What a decode of `window` that is alone has on its disk in each phase, when its `wsprd` has
left `written` in `ALL_WSPR.TXT`. -/
def Sound (window : AudioWindow) (written : Option (List UInt8)) (disk : Disk Unit) :
    Phase Unit → Prop
  | .idle => False
  | .creating w => w = window ∧ written = none
  | .writing w _ => w = window ∧ written = none ∧ ∀ f, f ≠ .wavTemp → disk.read () f = none
  | .copyingIn kept _ => kept = .ofWindow window ∧ written = none ∧
      ∀ f, disk.read () f = if f = .wav then some (Wav.writeWavFile window) else none
  | .starting kept _ => kept = .ofWindow window ∧ written = none ∧ Ready window (disk.read ())
  | .running kept _ => kept = .ofWindow window ∧ disk.read () .allWspr = written
  | .reading kept _ => kept = .ofWindow window ∧ disk.read () .allWspr = written
  | .copyingOut spots _ => decodeWindow window (outcomeOf written) = .ok spots
  | .done result => OwnResult window written result

@[simp] theorem lastWritten_nil {ι : Type*} [DecidableEq ι] (i : ι) : lastWritten i [] = none := rfl

theorem lastWritten_wrote {ι : Type*} [DecidableEq ι] (i : ι) (out : List (ι × TaskAction))
    (file : FileName) (content : Option (List UInt8)) :
    lastWritten i (out ++ [(i, .wrote file content)]) =
      if file = .allWspr then content else lastWritten i out := by
  unfold lastWritten
  rw [List.filterMap_append]
  cases file <;> simp

theorem lastWritten_started {ι : Type*} [DecidableEq ι] (i : ι) (out : List (ι × TaskAction))
    (freq : F64) (files : FileName → Option (List UInt8)) :
    lastWritten i (out ++ [(i, .started freq files)]) = lastWritten i out := by
  simp [lastWritten, List.filterMap_append]

theorem lastWritten_finished {ι : Type*} [DecidableEq ι] (i : ι) (out : List (ι × TaskAction))
    (result : Except Text (List WsprSpot)) :
    lastWritten i (out ++ [(i, .finished result)]) = lastWritten i out := by
  simp [lastWritten, List.filterMap_append]

/-- What a step of a lone decode keeps, and what it shows. -/
structure SoundStep (window : AudioWindow) (out : List (Unit × TaskAction))
    (r : Disk Unit × Phase Unit × List TaskAction) : Prop where
  sound : Sound window (lastWritten () (out ++ r.2.2.map (Prod.mk ()))) r.1 r.2.1
  started : ∀ freq files, .started freq files ∈ r.2.2 →
    freq = window.centerFreqHz ∧ Ready window files
  finished : ∀ result, .finished result ∈ r.2.2 → r.2.1 = .done result

section
variable {window : AudioWindow} {out : List (Unit × TaskAction)} {disk : Disk Unit} {p : Phase Unit}

theorem soundStep_quiet (h : Sound window (lastWritten () out) disk p) :
    SoundStep window out (disk, p, []) :=
  ⟨by simpa using h, by simp, by simp⟩

theorem soundStep_leave {left : Leftover} {result : Except Text (List WsprSpot)}
    (h : OwnResult window (lastWritten () out) result) :
    SoundStep window out (leave disk p left result) := by
  refine ⟨?_, by simp [leave], ?_⟩
  · simp only [leave, List.map_cons, List.map_nil, lastWritten_finished]
    exact h
  · intro r hr
    have heq : r = result := by simpa [leave] using hr
    rw [heq]
    rfl

theorem ownResult_failed (window : AudioWindow) (written : Option (List UInt8)) (error : Text) :
    OwnResult window written (.error error) := ⟨.failed error, rfl, .inr ⟨error, rfl⟩⟩

/-- One step of a lone decode. -/
theorem sound_taskStep (wisdom : Option (List UInt8)) (e : TaskEvent Unit)
    (hlive : p.workDir = some () → (disk.dir ()).isSome = true)
    (h : Sound window (lastWritten () out) disk p) :
    SoundStep window out (taskStep wisdom disk p e) := by
  cases e with
  | spawn w =>
    cases p with
    | idle => exact h.elim
    | _ => exact soundStep_quiet h
  | mkdir name =>
    cases p with
    | creating w =>
      obtain ⟨hw, hnone⟩ := h
      simp only [taskStep]
      split_ifs
      · exact soundStep_quiet ⟨hw, hnone⟩
      · refine soundStep_quiet ⟨hw, hnone, ?_⟩
        intro f _
        simp [DirStore.read, DirStore.create]
    | _ => exact soundStep_quiet h
  | write n =>
    cases p with
    | writing w dir =>
      obtain ⟨hw, hnone, hfiles⟩ := h
      refine soundStep_quiet ⟨hw, hnone, ?_⟩
      intro f hf
      rw [DirStore.read_set (hlive rfl), if_neg hf]
      exact hfiles f hf
    | _ => exact soundStep_quiet h
  | persist =>
    cases p with
    | writing w dir =>
      obtain ⟨rfl, hnone, hfiles⟩ := h
      simp only [taskStep]
      split_ifs with hall
      · refine soundStep_quiet ⟨rfl, hnone, ?_⟩
        intro f
        rw [DirStore.read_rename hall]
        split_ifs with hwav htemp
        · rfl
        · rfl
        · exact hfiles f htemp
      · exact soundStep_quiet ⟨rfl, hnone, hfiles⟩
    | _ => exact soundStep_quiet h
  | copyIn n =>
    cases p with
    | copyingIn kept dir =>
      obtain ⟨hkept, hnone, hfiles⟩ := h
      cases wisdom with
      | none => exact soundStep_quiet ⟨hkept, hnone, fun f _ => hfiles f⟩
      | some content =>
        refine soundStep_quiet ⟨hkept, hnone, ?_⟩
        intro f hf
        rw [DirStore.read_set (hlive rfl), if_neg hf]
        exact hfiles f
    | _ => exact soundStep_quiet h
  | start =>
    cases p with
    | starting kept dir =>
      obtain ⟨rfl, hnone, hready⟩ := h
      refine ⟨?_, ?_, by simp [taskStep]⟩
      · simp only [taskStep, List.map_cons, List.map_nil, lastWritten_started]
        exact ⟨rfl, by rw [hnone]; exact hready .allWspr (by decide)⟩
      · intro freq files hmem
        obtain ⟨rfl, rfl⟩ : freq = window.centerFreqHz ∧ files = disk.read () := by
          simpa [taskStep, Kept.ofWindow] using hmem
        exact ⟨rfl, hready⟩
    | _ => exact soundStep_quiet h
  | output file content =>
    cases p with
    | running kept dir =>
      obtain ⟨hkept, hread⟩ := h
      refine ⟨?_, by simp [taskStep], by simp [taskStep]⟩
      simp only [taskStep, List.map_cons, List.map_nil, lastWritten_wrote]
      refine ⟨hkept, ?_⟩
      rw [DirStore.read_set (hlive rfl), hread]
      by_cases hfile : file = .allWspr
      · rw [if_pos hfile, if_pos hfile.symm]
      · rw [if_neg hfile, if_neg (Ne.symm hfile)]
    | _ => exact soundStep_quiet h
  | exit =>
    cases p with
    | running kept dir => exact soundStep_quiet h
    | _ => exact soundStep_quiet h
  | read left =>
    cases p with
    | reading kept dir =>
      obtain ⟨rfl, hread⟩ := h
      simp only [taskStep, hread]
      cases hspots : runWsprd (Kept.ofWindow window).windowStart
          (outcomeOf (lastWritten () out)) with
      | ok spots => exact soundStep_quiet hspots
      | error e => exact soundStep_leave ⟨_, hspots.symm, .inl rfl⟩
    | _ => exact soundStep_quiet h
  | finish left =>
    cases p with
    | copyingOut spots dir =>
      simp only [taskStep]
      exact soundStep_leave ⟨_, h.symm, .inl rfl⟩
    | _ => exact soundStep_quiet h
  | fail left =>
    rw [taskStep_fail]
    cases p.failure with
    | none => exact soundStep_quiet h
    | some context => exact soundStep_leave (ownResult_failed _ _ _)
  | panic left =>
    rw [taskStep_panic]
    cases p.panicked with
    | none => exact soundStep_quiet h
    | some context => exact soundStep_leave (ownResult_failed _ _ _)

theorem taskStep_done {δ : Type*} [DecidableEq δ] (wisdom : Option (List UInt8)) (disk : Disk δ)
    (result : Except Text (List WsprSpot)) (e : TaskEvent δ) :
    taskStep wisdom disk (.done result) e = (disk, .done result, []) := by
  cases e <;> rfl

end

theorem windowOf_concat {ι δ : Type*} [DecidableEq ι] (i : ι) (es : List (Event ι δ)) (e : Event ι δ) :
    windowOf i (es ++ [e]) = (windowOf i es).or (windowOf i [e]) := by
  rw [windowOf, List.findSome?_append]
  rfl

/-- The history of a lone decode: it has one window, it was sound at every moment, and it is over
once it has shown a result. -/
structure Sole (past : List (Event Unit Unit)) (st : State Unit Unit) (out : List (Unit × TaskAction)) :
    Prop where
  idle : st.phase () = .idle → windowOf () past = none ∧ out = []
  sound : st.phase () ≠ .idle → ∃ window, windowOf () past = some window ∧
    Sound window (lastWritten () out) st.disk (st.phase ())
  started : ∀ freq files, ((), .started freq files) ∈ out →
    ∃ window, windowOf () past = some window ∧ freq = window.centerFreqHz ∧ Ready window files
  finished : ∀ result, ((), .finished result) ∈ out → st.phase () = .done result

section
variable {past : List (Event Unit Unit)} {st : State Unit Unit} {out : List (Unit × TaskAction)}

/-- A step after the spawn. -/
theorem Sole.task (h : Sole past st out) (hrun : st.phase () ≠ .idle) (e : TaskEvent Unit) :
    Sole (past ++ [.task () e]) (step st (.task () e)).1 (out ++ (step st (.task () e)).2) := by
  obtain ⟨window, hwindow, hsound⟩ := h.sound hrun
  have hkept : windowOf () (past ++ [.task () e]) = some window := by
    rw [windowOf_concat, hwindow, Option.some_or]
  have hstep := sound_taskStep st.wisdom e (st.separate.live () ()) hsound
  have hphase : (step st (.task () e)).1.phase () =
      (taskStep st.wisdom st.disk (st.phase ()) e).2.1 := by simp only [step, Function.update_self]
  refine ⟨?_, ?_, ?_, ?_⟩
  · intro hidle
    have hnew := hstep.sound
    rw [← hphase, hidle] at hnew
    exact hnew.elim
  · intro _
    exact ⟨window, hkept, by rw [hphase]; exact hstep.sound⟩
  · intro freq files hmem
    obtain hmem | hmem := List.mem_append.mp hmem
    · obtain ⟨w, hw, hready⟩ := h.started freq files hmem
      rw [hwindow] at hw
      cases hw
      exact ⟨window, hkept, hready⟩
    · simp only [step, List.mem_map, Prod.mk.injEq, true_and, exists_eq_right] at hmem
      exact ⟨window, hkept, hstep.started freq files hmem⟩
  · intro result hmem
    rw [hphase]
    obtain hmem | hmem := List.mem_append.mp hmem
    · rw [h.finished result hmem, taskStep_done]
    · simp only [step, List.mem_map, Prod.mk.injEq, true_and, exists_eq_right] at hmem
      exact hstep.finished result hmem

theorem Sole.step (h : Sole past st out) (e : Event Unit Unit) :
    Sole (past ++ [e]) (Workspace.step st e).1 (out ++ (Workspace.step st e).2) := by
  cases e with
  | wisdom content =>
    have hsame : windowOf () (past ++ [.wisdom content]) = windowOf () past := by
      rw [windowOf_concat]
      exact Option.or_none
    simp only [Workspace.step, List.append_nil]
    refine ⟨?_, ?_, ?_, h.finished⟩
    · rw [hsame]
      exact h.idle
    · rw [hsame]
      exact h.sound
    · rw [hsame]
      exact h.started
  | task u e =>
    by_cases hidle : st.phase () = .idle
    · obtain ⟨hnone, rfl⟩ := h.idle hidle
      have hsame : ∀ e', windowOf () [Event.task () e'] = none →
          taskStep st.wisdom st.disk .idle e' = (st.disk, .idle, []) →
          Sole (past ++ [.task () e']) (Workspace.step st (.task () e')).1
            ([] ++ (Workspace.step st (.task () e')).2) := by
        intro e' hwindow hstep
        have hphase : (Workspace.step st (.task () e')).1.phase () = .idle := by
          simp [Workspace.step, hidle, hstep]
        have hout : (Workspace.step st (.task () e')).2 = [] := by
          simp [Workspace.step, hidle, hstep]
        rw [hout]
        refine ⟨fun _ => ⟨?_, rfl⟩, fun hne => absurd hphase hne, by simp, by simp⟩
        rw [windowOf_concat, hnone, hwindow, Option.or_none]
      cases e with
      | spawn window =>
        have hphase : (Workspace.step st (.task () (.spawn window))).1.phase () = .creating window := by
          simp [Workspace.step, hidle, taskStep]
        have hout : (Workspace.step st (.task () (.spawn window))).2 = [] := by
          simp [Workspace.step, hidle, taskStep]
        rw [hout]
        refine ⟨?_, ?_, by simp, by simp⟩
        · intro hnew
          rw [hphase] at hnew
          contradiction
        · intro _
          refine ⟨window, ?_, ?_⟩
          · rw [windowOf_concat, hnone]
            simp [windowOf]
          · rw [hphase]
            exact ⟨rfl, rfl⟩
      | _ => exact hsame _ rfl rfl
    · exact h.task hidle e

theorem sole_run (disk : Disk Unit) (wisdom : Option (List UInt8)) (es : List (Event Unit Unit)) :
    Sole es ((machine Unit Unit).after (.initial disk wisdom) es)
      ((machine Unit Unit).outputs (.initial disk wisdom) es) := by
  induction es using List.reverseRecOn with
  | nil => exact ⟨fun _ => ⟨rfl, rfl⟩, fun h => absurd rfl h, by simp, by simp⟩
  | append_singleton es e ih => simpa using ih.step e

end

section
variable {ι δ : Type*} [DecidableEq ι] [DecidableEq δ]

/-- A decode sees its own window. -/
theorem windowOf_trace (i : ι) (st : State ι δ) (es : List (Event ι δ)) :
    windowOf () ((decodeComponent i).trace st es) = windowOf i es := by
  induction es generalizing st with
  | nil => rfl
  | cons e es ih =>
    have hcons : windowOf i (e::es) = (windowOf i [e]).or (windowOf i es) := by
      rw [windowOf, ← List.singleton_append, List.findSome?_append]
      rfl
    have hfocus : windowOf () (eventOf i st e).toList = windowOf i [e] := by
      cases e with
      | wisdom content => rfl
      | task j e =>
        by_cases hj : j = i
        · cases e with
          | mkdir name => by_cases hname : (st.disk.dir name).isSome = true <;>
              simp [eventOf, hj, hname, windowOf]
          | _ => simp [eventOf, hj, windowOf, TaskEvent.map]
        · cases e <;> simp [eventOf, hj, windowOf]
    rw [EventMachine.Component.trace, windowOf, List.findSome?_append, hcons, ← ih, ← hfocus]
    rfl

theorem lastWritten_actionOf (i : ι) (out : List (ι × TaskAction)) :
    lastWritten () (out.filterMap (actionOf i)) = lastWritten i out := by
  unfold lastWritten
  rw [List.filterMap_filterMap]
  congr 3
  funext a
  obtain ⟨j, a⟩ := a
  by_cases hj : j = i
  · cases a with
    | wrote file content => cases file <;> simp [actionOf, hj]
    | _ => simp [actionOf, hj]
  · cases a with
    | wrote file content => cases file <;> simp [actionOf, hj]
    | _ => simp [actionOf, hj]

theorem mem_actionOf {i : ι} {out : List (ι × TaskAction)} {a : TaskAction} :
    ((), a) ∈ out.filterMap (actionOf i) ↔ (i, a) ∈ out := by
  simp only [List.mem_filterMap, actionOf]
  constructor
  · rintro ⟨⟨j, b⟩, hmem, hpick⟩
    split_ifs at hpick with hj
    cases hpick
    obtain rfl : j = i := hj
    exact hmem
  · intro h
    exact ⟨_, h, by simp⟩

/-- The history of one decode among others. -/
theorem sole_view (disk : Disk δ) (wisdom : Option (List UInt8)) (es : List (Event ι δ)) (i : ι) :
    Sole ((decodeComponent i).trace (.initial disk wisdom) es)
      (((machine ι δ).after (.initial disk wisdom) es).view i)
      (((machine ι δ).outputs (.initial disk wisdom) es).filterMap (actionOf i)) := by
  have hview : (State.initial disk wisdom : State ι δ).view i = .initial .empty wisdom :=
    State.ext rfl rfl rfl
  have hafter := (decodeComponent i).view_after (.initial disk wisdom) es
  have hout := (decodeComponent i).pick_outputs (.initial disk wisdom) es
  simp only [decodeComponent] at hafter hout ⊢
  rw [hafter, hout, hview]
  exact sole_run .empty wisdom _

/-- What `wsprd` is started on is of the window that the decode was spawned with. -/
theorem started_run (disk : Disk δ) (wisdom : Option (List UInt8)) (es : List (Event ι δ)) (i : ι)
    {freq : F64} {files : FileName → Option (List UInt8)}
    (h : (i, .started freq files) ∈ (machine ι δ).outputs (.initial disk wisdom) es) :
    ∃ window, windowOf i es = some window ∧ freq = window.centerFreqHz ∧ Ready window files := by
  rw [← windowOf_trace i (.initial disk wisdom)]
  exact (sole_view disk wisdom es i).started freq files (mem_actionOf.mpr h)

theorem done_of_finished (disk : Disk δ) (wisdom : Option (List UInt8)) (es : List (Event ι δ)) (i : ι)
    {result : Except Text (List WsprSpot)}
    (h : (i, .finished result) ∈ (machine ι δ).outputs (.initial disk wisdom) es) :
    ((machine ι δ).after (.initial disk wisdom) es).phase i = .done result := by
  have hdone := (sole_view disk wisdom es i).finished result (mem_actionOf.mpr h)
  simp only [State.view] at hdone
  cases hphase : ((machine ι δ).after (.initial disk wisdom) es).phase i <;>
    simp [hphase, Phase.map] at hdone
  rw [hdone]

/-- A decode that is over stays over. -/
theorem done_after {st : State ι δ} {i : ι} {result : Except Text (List WsprSpot)}
    (h : st.phase i = .done result) (es : List (Event ι δ)) :
    ((machine ι δ).after st es).phase i = .done result := by
  induction es generalizing st with
  | nil => exact h
  | cons e es ih =>
    refine ih ?_
    cases e with
    | wisdom content => exact h
    | task j e =>
      by_cases hj : j = i
      · subst hj
        simp only [machine_step, step, Function.update_self, h, taskStep_done]
      · simp only [machine_step, step, Function.update_of_ne (Ne.symm hj), h]

/-- A decode has a window before it does anything. -/
theorem windowOf_run (disk : Disk δ) (wisdom : Option (List UInt8)) (es : List (Event ι δ)) (i : ι)
    (h : ((machine ι δ).after (.initial disk wisdom) es).phase i ≠ .idle) :
    ∃ window, windowOf i es = some window := by
  have hrun : (((machine ι δ).after (.initial disk wisdom) es).view i).phase () ≠ .idle := by
    simp only [State.view]
    intro hidle
    cases hphase : ((machine ι δ).after (.initial disk wisdom) es).phase i <;>
      simp [hphase, Phase.map] at hidle h
  obtain ⟨window, hwindow, -⟩ := (sole_view disk wisdom es i).sound hrun
  rw [← windowOf_trace i (.initial disk wisdom)]
  exact ⟨window, hwindow⟩

/-- A decode can always end. -/
theorem exists_done (st : State ι δ) {i : ι} (h : st.phase i ≠ .idle) :
    ∃ ts : List (TaskEvent δ), (∀ w, .spawn w ∉ ts) ∧ ∃ result,
      ((machine ι δ).after st (ts.map (Event.task i))).phase i = .done result := by
  cases hfail : (st.phase i).failure with
  | some context =>
    refine ⟨[.fail none], by simp, .error context.toList, ?_⟩
    simp [step, taskStep_fail, hfail, leave]
  | none =>
    -- no I/O error ends a decode here, but it goes on by itself
    cases hphase : st.phase i with
    | idle => exact absurd hphase h
    | copyingIn kept dir =>
      refine ⟨[.copyIn 0, .fail none], by simp, .error "wsprd failed".toList, ?_⟩
      simp [step, hphase, taskStep, Phase.failure, leave]
    | copyingOut spots dir =>
      refine ⟨[.finish none], by simp, .ok spots, ?_⟩
      simp [step, hphase, taskStep, leave]
    | done result => exact ⟨[], by simp, result, hphase⟩
    | _ => simp [hphase, Phase.failure] at hfail

/-- What a decode ends with is its own result. -/
theorem ownResult_run (disk : Disk δ) (wisdom : Option (List UInt8)) (es : List (Event ι δ)) (i : ι)
    {result : Except Text (List WsprSpot)}
    (h : ((machine ι δ).after (.initial disk wisdom) es).phase i = .done result) :
    ∃ window, windowOf i es = some window ∧
      OwnResult window (lastWritten i ((machine ι δ).outputs (.initial disk wisdom) es)) result := by
  have hdone : (((machine ι δ).after (.initial disk wisdom) es).view i).phase () = .done result := by
    simp [State.view, h, Phase.map]
  obtain ⟨window, hwindow, hsound⟩ := (sole_view disk wisdom es i).sound (by simp [hdone])
  rw [hdone, lastWritten_actionOf] at hsound
  rw [← windowOf_trace i (.initial disk wisdom)]
  exact ⟨window, hwindow, hsound⟩

/-- However many decodes run at the same time and however their steps interleave, on whatever
disk: `wsprd` is started on the WAV file of the decode's own window, at the frequency of this
window, in a directory that holds nothing else but perhaps a wisdom file; and the result, if it is
not an error, is what `run_wsprd` makes of what this `wsprd` has written into `ALL_WSPR.TXT`. -/
theorem decode_isolated (disk : Disk δ) (wisdom : Option (List UInt8)) (es : List (Event ι δ)) (i : ι) :
    let out := (machine ι δ).outputs (.initial disk wisdom) es
    (∀ freq files, (i, .started freq files) ∈ out →
      ∃ window, windowOf i es = some window ∧ freq = window.centerFreqHz ∧ Ready window files) ∧
    ∀ result, (i, .finished result) ∈ out →
      ∃ window, windowOf i es = some window ∧ OwnResult window (lastWritten i out) result := by
  intro out
  constructor
  · intro freq files hmem
    exact started_run disk wisdom es i hmem
  · intro result hmem
    exact ownResult_run disk wisdom es i (done_of_finished disk wisdom es i hmem)

/-- The directory of a decode was dropped in this run and could not be removed. -/
def LeftBehind (disk : Disk δ) (wisdom : Option (List UInt8)) (es : List (Event ι δ)) (d : δ) : Prop :=
  ∃ past i e rest, es = past ++ .task i e :: rest ∧ e.left.isSome = true ∧
    (((machine ι δ).after (.initial disk wisdom) past).phase i).workDir = some d ∧
    (((machine ι δ).after (.initial disk wisdom) (past ++ [.task i e])).phase i).workDir = none

theorem LeftBehind.append {disk : Disk δ} {wisdom : Option (List UInt8)} {es : List (Event ι δ)} {d : δ}
    (h : LeftBehind disk wisdom es d) (more : List (Event ι δ)) :
    LeftBehind disk wisdom (es ++ more) d := by
  obtain ⟨past, i, e, rest, rfl, hleft⟩ := h
  exact ⟨past, i, e, rest ++ more, by simp, hleft⟩

/-- All directories are as they were but those that the decodes own, made or left behind. -/
structure Clean (disk : Disk δ) (lost : δ → Prop) (st : State ι δ) : Prop where
  kept : ∀ d, (∀ i, (st.phase i).workDir ≠ some d) →
    st.disk.dir d = disk.dir d ∨ disk.dir d = none ∧ lost d
  fresh : ∀ i d, (st.phase i).workDir = some d → disk.dir d = none

namespace Clean
variable {disk : Disk δ} {lost lost' : δ → Prop} {st st' : State ι δ} {i : ι} {name : δ}

omit [DecidableEq ι] [DecidableEq δ] in
theorem mono (h : Clean disk lost st) (hlost : ∀ d, lost d → lost' d) : Clean disk lost' st :=
  ⟨fun d hd => (h.kept d hd).imp_right (fun hnew => ⟨hnew.1, hlost d hnew.2⟩), h.fresh⟩

omit [DecidableEq ι] [DecidableEq δ] in
/-- Work inside the directories that the decodes have. -/
theorem inside (h : Clean disk lost st)
    (hdirs : ∀ j, (st'.phase j).workDir = (st.phase j).workDir)
    (hsame : ∀ d, (∀ j, (st.phase j).workDir ≠ some d) → st'.disk.dir d = st.disk.dir d) :
    Clean disk lost st' := by
  refine ⟨?_, ?_⟩
  · intro d hd
    simp only [hdirs] at hd
    rw [hsame d hd]
    exact h.kept d hd
  · intro j d hj
    rw [hdirs] at hj
    exact h.fresh j d hj

/-- A new directory: its name was free, so it is none of those there were before. -/
theorem create (h : Clean disk lost st) (hdisk : st'.disk = st.disk.create name)
    (hfree : st.disk.dir name = none) (hnone : (st.phase i).workDir = none)
    (hdirs : ∀ j, (st'.phase j).workDir = if j = i then some name else (st.phase j).workDir) :
    Clean disk lost st' := by
  have howned (j : ι) : (st.phase j).workDir ≠ some name := by
    intro hj
    have hlive := st.separate.live j name hj
    rw [hfree] at hlive
    contradiction
  refine ⟨?_, ?_⟩
  · intro d hd
    have hne : d ≠ name := by
      rintro rfl
      exact hd i (by rw [hdirs, if_pos rfl])
    have hold (j : ι) : (st.phase j).workDir ≠ some d := by
      by_cases hj : j = i
      · simp [hj, hnone]
      · intro hjd
        exact hd j (by rw [hdirs, if_neg hj, hjd])
    rw [hdisk, DirStore.dir_create_ne _ hne]
    exact h.kept d hold
  · intro j d hj
    rw [hdirs] at hj
    split_ifs at hj
    · rw [← Option.some.inj hj]
      obtain hsame | ⟨hnew, -⟩ := h.kept name howned
      · rw [← hsame]
        exact hfree
      · exact hnew
    · exact h.fresh j d hj

/-- A directory that is dropped: nothing is left of it, or it is lost. -/
theorem drop (h : Clean disk lost st) {left : Leftover} (hdisk : st'.disk = st.disk.remove name left)
    (hold : (st.phase i).workDir = some name)
    (hdirs : ∀ j, (st'.phase j).workDir = if j = i then none else (st.phase j).workDir)
    (hlost : left.isSome = true → lost name) : Clean disk lost st' := by
  refine ⟨?_, ?_⟩
  · intro d hd
    rw [hdisk]
    by_cases hname : d = name
    · rw [hname, DirStore.dir_remove, h.fresh i name hold]
      cases left with
      | none => exact .inl rfl
      | some files => exact .inr ⟨rfl, hlost rfl⟩
    · rw [DirStore.dir_remove_ne _ hname]
      refine h.kept d (fun j hjd => ?_)
      by_cases hj : j = i
      · rw [hj, hold] at hjd
        exact hname (Option.some.inj hjd).symm
      · exact hd j (by rw [hdirs, if_neg hj, hjd])
  · intro j d hj
    rw [hdirs] at hj
    split_ifs at hj
    exact h.fresh j d hj

/-- One step: what it may leave behind is the directory that the decode had. -/
theorem step (h : Clean disk lost st) (e : Event ι δ)
    (hleft : ∀ i t d, e = .task i t → t.left.isSome = true → (st.phase i).workDir = some d →
      ((Workspace.step st e).1.phase i).workDir = none → lost d) :
    Clean disk lost (Workspace.step st e).1 := by
  cases e with
  | wisdom content => exact ⟨h.kept, h.fresh⟩
  | task i e =>
    have hphase (j : ι) : ((Workspace.step st (.task i e)).1.phase j) =
        if j = i then (taskStep st.wisdom st.disk (st.phase i) e).2.1 else st.phase j :=
      Function.update_apply ..
    have hself := (hphase i).trans (if_pos rfl)
    obtain ⟨hdir, -, hsame⟩ | ⟨name, hnone, hfree, hdisk, hdir⟩ | ⟨d, hold, hdisk, hdir⟩ :=
      confined_taskStep st.wisdom st.disk (st.phase i) e
    · refine h.inside ?_ (fun d hd => hsame d (hd i))
      intro j
      rw [hphase]
      split_ifs with hj
      · rw [hdir, hj]
      · rfl
    · refine h.create hdisk hfree hnone ?_
      intro j
      rw [hphase, apply_ite Phase.workDir, hdir]
    · refine h.drop hdisk hold ?_ (fun hsome => hleft i e d rfl hsome hold (by rw [hself, hdir]))
      intro j
      rw [hphase, apply_ite Phase.workDir, hdir]

end Clean

theorem clean_run (disk : Disk δ) (wisdom : Option (List UInt8)) (es : List (Event ι δ)) :
    Clean disk (LeftBehind disk wisdom es) ((machine ι δ).after (.initial disk wisdom) es) := by
  induction es using List.reverseRecOn with
  | nil => exact ⟨fun _ _ => .inl rfl, by simp [State.initial, Phase.workDir]⟩
  | append_singleton es e ih =>
    rw [EventMachine.after_append, EventMachine.after_cons, EventMachine.after_nil]
    refine (ih.mono (fun d hd => hd.append [e])).step e ?_
    rintro i t d rfl hleft hold hgone
    refine ⟨es, i, t, [], rfl, hleft, hold, ?_⟩
    rw [EventMachine.after_append]
    exact hgone

/-- Every directory is as it was before the decodes, or it is one that was not there then and
belongs to exactly one decode that is not over, or that could not be removed when its decode ended;
so when all are over, by whatever path, nothing else of theirs is left. -/
theorem workDirs_removed (disk : Disk δ) (wisdom : Option (List UInt8)) (es : List (Event ι δ)) :
    let st := (machine ι δ).after (.initial disk wisdom) es
    ∀ d, (st.disk.dir d = disk.dir d ∧ ∀ i, (st.phase i).workDir ≠ some d) ∨
      (disk.dir d = none ∧ ∃! i, (st.phase i).workDir = some d) ∨
      (disk.dir d = none ∧ (∀ i, (st.phase i).workDir ≠ some d) ∧ LeftBehind disk wisdom es d) := by
  intro st d
  have hclean : Clean disk (LeftBehind disk wisdom es) st := clean_run disk wisdom es
  by_cases howned : ∃ i, (st.phase i).workDir = some d
  · obtain ⟨i, hi⟩ := howned
    refine .inr (.inl ⟨hclean.fresh i d hi, i, hi, ?_⟩)
    intro j hj
    exact st.separate.disjoint j i d hj hi
  · rw [not_exists] at howned
    obtain hsame | ⟨hnew, hleft⟩ := hclean.kept d howned
    · exact .inl ⟨hsame, howned⟩
    · exact .inr (.inr ⟨hnew, howned, hleft⟩)

end

/-- The starts of `wsprd` among the actions of one decode. -/
def starts (as : List TaskAction) : List (F64 × (FileName → Option (List UInt8))) :=
  as.filterMap (fun a =>
    match a with
    | .started freq files => some (freq, files)
    | _ => none)

/-- The starts of `wsprd` for a decode. -/
def startsOf {ι : Type*} [DecidableEq ι] (i : ι) (out : List (ι × TaskAction)) :
    List (F64 × (FileName → Option (List UInt8))) :=
  starts (out.filterMap (fun a => if a.1 = i then some a.2 else none))

/-- How often `wsprd` can have been started by then. -/
def Phase.Starts {δ : Type*} (n : ℕ) : Phase δ → Prop
  | .running _ _ => n = 1
  | .reading _ _ => n = 1
  | .copyingOut _ _ => n = 1
  | .done (.ok _) => n = 1
  | .done (.error _) => n ≤ 1
  | _ => n = 0

theorem Phase.Starts.le {δ : Type*} {p : Phase δ} {n : ℕ} (h : p.Starts n) : n ≤ 1 := by
  cases p with
  | done result =>
    cases result with
    | ok spots => exact le_of_eq h
    | error e => exact h
  | _ => simp only [Phase.Starts] at h; omega

theorem starts_append (as bs : List TaskAction) : starts (as ++ bs) = starts as ++ starts bs :=
  List.filterMap_append

section
variable {ι δ : Type*} [DecidableEq ι] [DecidableEq δ]

theorem startsOf_append (i : ι) (out out' : List (ι × TaskAction)) :
    startsOf i (out ++ out') = startsOf i out ++ startsOf i out' := by
  rw [startsOf, List.filterMap_append, starts_append]
  rfl

theorem startsOf_map (i j : ι) (as : List TaskAction) :
    startsOf i (as.map (Prod.mk j)) = if j = i then starts as else [] := by
  by_cases h : j = i <;> simp [startsOf, List.filterMap_map, h, starts]

theorem mem_startsOf {i : ι} {out : List (ι × TaskAction)} {freq : F64}
    {files : FileName → Option (List UInt8)} :
    (freq, files) ∈ startsOf i out ↔ (i, .started freq files) ∈ out := by
  simp only [startsOf, starts, List.mem_filterMap]
  constructor
  · rintro ⟨a, ⟨⟨j, b⟩, hmem, hpick⟩, hstart⟩
    split_ifs at hpick with hj
    cases hpick
    obtain rfl : j = i := hj
    cases b with
    | started freq' files' =>
      cases hstart
      exact hmem
    | _ => contradiction
  · intro h
    exact ⟨_, ⟨_, h, if_pos rfl⟩, rfl⟩

/-- An error is possible everywhere. -/
theorem starts_leave_error {p : Phase δ} {n : ℕ} (h : p.Starts n) (disk : Disk δ)
    (left : Leftover) (e : Text) : (leave disk p left (.error e)).2.1.Starts
      (n + (starts (leave disk p left (.error e)).2.2).length) := h.le

theorem starts_taskStep (wisdom : Option (List UInt8)) (disk : Disk δ) {p : Phase δ} {n : ℕ}
    (e : TaskEvent δ) (h : p.Starts n) :
    (taskStep wisdom disk p e).2.1.Starts (n + (starts (taskStep wisdom disk p e).2.2).length) := by
  cases e with
  | mkdir name =>
    cases p with
    | creating window =>
      simp only [taskStep]
      split_ifs <;> exact h
    | _ => exact h
  | persist =>
    cases p with
    | writing window dir =>
      simp only [taskStep]
      split_ifs <;> exact h
    | _ => exact h
  | start =>
    cases p with
    | starting kept dir => exact congrArg (· + 1) h
    | _ => exact h
  | read left =>
    cases p with
    | reading kept dir =>
      simp only [taskStep]
      cases runWsprd kept.windowStart (outcomeOf (disk.read dir .allWspr)) with
      | ok spots => exact h
      | error e => exact starts_leave_error h disk left e
    | _ => exact h
  | fail left =>
    rw [taskStep_fail]
    cases p.failure with
    | none => exact h
    | some context => exact starts_leave_error h disk left _
  | panic left =>
    rw [taskStep_panic]
    cases p.panicked with
    | none => exact h
    | some context => exact starts_leave_error h disk left _
  | _ => cases p <;> exact h

theorem starts_step {st : State ι δ} {i : ι} {n : ℕ} (e : Event ι δ) (h : (st.phase i).Starts n) :
    ((step st e).1.phase i).Starts (n + (startsOf i (step st e).2).length) := by
  cases e with
  | wisdom content => exact h
  | task j e =>
    by_cases hj : j = i
    · subst hj
      simp only [step, Function.update_self, startsOf_map, if_true]
      exact starts_taskStep st.wisdom st.disk e h
    · simp only [step, Function.update_of_ne (Ne.symm hj), startsOf_map, if_neg hj]
      exact h

/-- At most one `wsprd` is started for a decode, and one if there are spots. -/
theorem starts_run (disk : Disk δ) (wisdom : Option (List UInt8)) (es : List (Event ι δ)) (i : ι) :
    (((machine ι δ).after (.initial disk wisdom) es).phase i).Starts
      (startsOf i ((machine ι δ).outputs (.initial disk wisdom) es)).length := by
  induction es using List.reverseRecOn with
  | nil => rfl
  | append_singleton es e ih =>
    have hnext := starts_step e ih
    rw [EventMachine.after_append, EventMachine.outputs_append, startsOf_append, List.length_append]
    simpa using hnext

end
end Wsprrs.Workspace
