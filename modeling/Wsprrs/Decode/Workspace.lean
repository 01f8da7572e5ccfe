import Wsprrs.Decode.Wav
import Wsprrs.Foundation.DirStore
import Wsprrs.Pipeline.Model

/-! The files of decodes that run at the same time. Each one makes a directory of its own, writes
the WAV file there, lets `wsprd` work in it, reads the spots and removes it, which may fail without
an error. A process writes only in its working directory. -/
namespace Wsprrs.Workspace
open Pipeline

/-- `wavTemp` is the temporary file that becomes `wspr.wav`. -/
inductive FileName
  | wavTemp
  | wav
  | wisdom
  | allWspr
  | other (name : String)
  deriving DecidableEq

abbrev Disk (δ : Type*) := DirStore δ FileName (List UInt8)

/-- What a directory that is dropped leaves there: nothing, or some files if removing it fails. -/
abbrev Leftover := Option (FileName → Option (List UInt8))

/-- What is copied from the window before it is moved. -/
structure Kept where
  dialFreqHz : F64
  windowStart : ℤ

def Kept.ofWindow (window : AudioWindow) : Kept := ⟨window.centerFreqHz, window.windowStart⟩

/-- Where a decode stands: each phase is named after what comes next. -/
inductive Phase (δ : Type*)
  | idle
  | creating (window : AudioWindow)
  | writing (window : AudioWindow) (workDir : δ)
  | copyingIn (kept : Kept) (workDir : δ)
  | starting (kept : Kept) (workDir : δ)
  | running (kept : Kept) (workDir : δ)
  | reading (kept : Kept) (workDir : δ)
  | copyingOut (spots : List WsprSpot) (workDir : δ)
  | done (result : Except Text (List WsprSpot))

/-- `mkdir` is one attempt under a random name, `write` writes up to `n` bytes of the WAV file,
`copyIn` copies up to `n` bytes of the wisdom file, and `output` is something that `wsprd` writes
or deletes. What `copy_wisdom_out` does to the wisdom file is left to the environment, and so is how
the removal of the directory turns out where a decode ends. -/
inductive TaskEvent (δ : Type*)
  | spawn (window : AudioWindow)
  | mkdir (name : δ)
  | write (n : ℕ)
  | persist
  | copyIn (n : ℕ)
  | start
  | output (file : FileName) (content : Option (List UInt8))
  | exit
  | read (left : Leftover)
  | finish (left : Leftover)
  | fail (left : Leftover)
  | panic (left : Leftover)

inductive TaskAction
  | started (dialFreqHz : F64) (files : FileName → Option (List UInt8))
  | wrote (file : FileName) (content : Option (List UInt8))
  | finished (result : Except Text (List WsprSpot))

namespace Phase
variable {δ δ' : Type*}

def workDir : Phase δ → Option δ
  | .writing _ dir => some dir
  | .copyingIn _ dir => some dir
  | .starting _ dir => some dir
  | .running _ dir => some dir
  | .reading _ dir => some dir
  | .copyingOut _ dir => some dir
  | _ => none

/-- The outermost context of an I/O error here, or of a `wsprd` that fails. -/
def failure : Phase δ → Option String
  | .creating _ => some "work dir / WAV setup failed"
  | .writing _ _ => some "work dir / WAV setup failed"
  | .starting _ _ => some "wsprd failed"
  | .running _ _ => some "wsprd failed"
  | .reading _ _ => some "wsprd failed"
  | _ => none

/-- The context of a panic on the blocking thread. -/
def panicked : Phase δ → Option String
  | .creating _ => some "spawn_blocking panicked creating work dir / WAV"
  | .writing _ _ => some "spawn_blocking panicked creating work dir / WAV"
  | _ => none

def map (f : δ → δ') : Phase δ → Phase δ'
  | .idle => .idle
  | .creating window => .creating window
  | .writing window dir => .writing window (f dir)
  | .copyingIn kept dir => .copyingIn kept (f dir)
  | .starting kept dir => .starting kept (f dir)
  | .running kept dir => .running kept (f dir)
  | .reading kept dir => .reading kept (f dir)
  | .copyingOut spots dir => .copyingOut spots (f dir)
  | .done result => .done result

@[simp] theorem failure_map (f : δ → δ') (p : Phase δ) : (p.map f).failure = p.failure := by
  cases p <;> rfl
@[simp] theorem panicked_map (f : δ → δ') (p : Phase δ) : (p.map f).panicked = p.panicked := by
  cases p <;> rfl

end Phase

/-- What the directory of the decode leaves, if it is dropped. -/
def TaskEvent.left {δ : Type*} : TaskEvent δ → Leftover
  | .read left => left
  | .finish left => left
  | .fail left => left
  | .panic left => left
  | _ => none

/-- The event with other names for the directories, and no leftover. -/
def TaskEvent.map {δ δ' : Type*} (f : δ → δ') : TaskEvent δ → TaskEvent δ'
  | .spawn window => .spawn window
  | .mkdir name => .mkdir (f name)
  | .write n => .write n
  | .persist => .persist
  | .copyIn n => .copyIn n
  | .start => .start
  | .output file content => .output file content
  | .exit => .exit
  | .read _ => .read none
  | .finish _ => .finish none
  | .fail _ => .fail none
  | .panic _ => .panic none

/-- `read_to_string`, once the file is open. -/
def readToString (bytes : List UInt8) : Option Text :=
  (ByteArray.utf8Decode? ⟨bytes.toArray⟩).map Array.toList

/-- What `run_wsprd` makes of the file that `wsprd` leaves. -/
def outcomeOf : Option (List UInt8) → Outcome
  | none => .noFile
  | some bytes =>
    match readToString bytes with
    | none => .failed "wsprd failed".toList
    | some content => .file content

section
variable {δ : Type*} [DecidableEq δ]

/-- The end of a decode: the work directory is dropped. -/
def leave (disk : Disk δ) (p : Phase δ) (left : Leftover) (result : Except Text (List WsprSpot)) :
    Disk δ × Phase δ × List TaskAction :=
  (match p.workDir with
    | some dir => disk.remove dir left
    | none => disk, .done result, [.finished result])

/-- One step of `decode_window`. -/
def taskStep (wisdom : Option (List UInt8)) (disk : Disk δ) :
    Phase δ → TaskEvent δ → Disk δ × Phase δ × List TaskAction
  | .idle, .spawn window => (disk, .creating window, [])
  | .creating window, .mkdir name =>
    if (disk.dir name).isSome then (disk, .creating window, [])
    else (disk.create name, .writing window name, [])
  | .writing window dir, .write n =>
    let written := ((disk.read dir .wavTemp).getD []).length
    (disk.set dir .wavTemp (some ((Wav.writeWavFile window).take (written + n))),
      .writing window dir, [])
  | .writing window dir, .persist =>
    if disk.read dir .wavTemp = some (Wav.writeWavFile window) then
      (disk.rename dir .wavTemp .wav, .copyingIn (.ofWindow window) dir, [])
    else (disk, .writing window dir, [])
  | .copyingIn kept dir, .copyIn n =>
    (match wisdom with
      | none => disk
      | some content => disk.set dir .wisdom (some (content.take n)), .starting kept dir, [])
  | .starting kept dir, .start =>
    (disk, .running kept dir, [.started kept.dialFreqHz (disk.read dir)])
  | .running kept dir, .output file content =>
    (disk.set dir file content, .running kept dir, [.wrote file content])
  | .running kept dir, .exit => (disk, .reading kept dir, [])
  | .reading kept dir, .read left =>
    match runWsprd kept.windowStart (outcomeOf (disk.read dir .allWspr)) with
    | .ok spots => (disk, .copyingOut spots dir, [])
    | .error e => leave disk (.reading kept dir) left (.error e)
  | .copyingOut spots dir, .finish left => leave disk (.copyingOut spots dir) left (.ok spots)
  | p, .fail left =>
    match p.failure with
    | some context => leave disk p left (.error context.toList)
    | none => (disk, p, [])
  | p, .panic left =>
    match p.panicked with
    | some context => leave disk p left (.error context.toList)
    | none => (disk, p, [])
  | p, _ => (disk, p, [])

theorem taskStep_fail (wisdom : Option (List UInt8)) (disk : Disk δ) (p : Phase δ) (left : Leftover) :
    taskStep wisdom disk p (.fail left) =
      match p.failure with
      | some context => leave disk p left (.error context.toList)
      | none => (disk, p, []) := by
  cases p <;> rfl

theorem taskStep_panic (wisdom : Option (List UInt8)) (disk : Disk δ) (p : Phase δ) (left : Leftover) :
    taskStep wisdom disk p (.panic left) =
      match p.panicked with
      | some context => leave disk p left (.error context.toList)
      | none => (disk, p, []) := by
  cases p <;> rfl

/-- What a step has done to the directories: it worked inside that of the decode, made it, or
dropped it. -/
def Confined (disk : Disk δ) (p : Phase δ) (left : Leftover)
    (r : Disk δ × Phase δ × List TaskAction) : Prop :=
  (r.2.1.workDir = p.workDir ∧ (∀ d, (r.1.dir d).isSome = (disk.dir d).isSome) ∧
    ∀ d, p.workDir ≠ some d → r.1.dir d = disk.dir d) ∨
  (∃ name, p.workDir = none ∧ disk.dir name = none ∧ r.1 = disk.create name ∧
    r.2.1.workDir = some name) ∨
  ∃ d, p.workDir = some d ∧ r.1 = disk.remove d left ∧ r.2.1.workDir = none

theorem confined_same {disk : Disk δ} {p q : Phase δ} {left : Leftover} {as : List TaskAction}
    (h : q.workDir = p.workDir) : Confined disk p left (disk, q, as) :=
  .inl ⟨h, fun _ => rfl, fun _ _ => rfl⟩

theorem confined_set {disk : Disk δ} {p q : Phase δ} {left : Leftover} {as : List TaskAction} {dir : δ}
    (hp : p.workDir = some dir) (hq : q.workDir = some dir) (file : FileName)
    (content : Option (List UInt8)) : Confined disk p left (disk.set dir file content, q, as) := by
  refine .inl ⟨hq.trans hp.symm, fun d => DirStore.isSome_set .., fun d hd => ?_⟩
  refine DirStore.dir_set_ne _ ?_ _ _
  rintro rfl
  exact hd hp

theorem confined_leave (disk : Disk δ) (p : Phase δ) (left : Leftover)
    (result : Except Text (List WsprSpot)) : Confined disk p left (leave disk p left result) := by
  unfold leave
  cases hdir : p.workDir with
  | none => exact confined_same hdir.symm
  | some dir => exact .inr (.inr ⟨dir, hdir, rfl, rfl⟩)

theorem confined_taskStep (wisdom : Option (List UInt8)) (disk : Disk δ) (p : Phase δ)
    (e : TaskEvent δ) : Confined disk p e.left (taskStep wisdom disk p e) := by
  cases e with
  | spawn window => cases p <;> exact confined_same rfl
  | mkdir name =>
    cases p with
    | creating window =>
      simp only [taskStep]
      split_ifs with hname
      · exact confined_same rfl
      · exact .inr (.inl ⟨name, rfl, by simpa using hname, rfl, rfl⟩)
    | _ => exact confined_same rfl
  | write n =>
    cases p with
    | writing window dir => exact confined_set rfl rfl _ _
    | _ => exact confined_same rfl
  | persist =>
    cases p with
    | writing window dir =>
      simp only [taskStep]
      split_ifs
      · refine .inl ⟨rfl, fun d => DirStore.isSome_rename .., fun d hd => ?_⟩
        exact DirStore.dir_rename_ne _ (fun h => hd (congrArg some h.symm)) _ _
      · exact confined_same rfl
    | _ => exact confined_same rfl
  | copyIn n =>
    cases p with
    | copyingIn kept dir =>
      cases wisdom with
      | none => exact confined_same rfl
      | some content => exact confined_set rfl rfl _ _
    | _ => exact confined_same rfl
  | start => cases p <;> exact confined_same rfl
  | output file content =>
    cases p with
    | running kept dir => exact confined_set rfl rfl _ _
    | _ => exact confined_same rfl
  | exit => cases p <;> exact confined_same rfl
  | read left =>
    cases p with
    | reading kept dir =>
      simp only [taskStep]
      cases runWsprd kept.windowStart (outcomeOf (disk.read dir .allWspr)) with
      | ok spots => exact confined_same rfl
      | error e => exact confined_leave _ _ _ _
    | _ => exact confined_same rfl
  | finish left =>
    cases p with
    | copyingOut spots dir => exact confined_leave _ _ _ _
    | _ => exact confined_same rfl
  | fail left =>
    rw [taskStep_fail]
    cases p.failure with
    | none => exact confined_same rfl
    | some context => exact confined_leave _ _ _ _
  | panic left =>
    rw [taskStep_panic]
    cases p.panicked with
    | none => exact confined_same rfl
    | some context => exact confined_leave _ _ _ _

/-- A name that is taken is not used. -/
theorem taskStep_mkdir_taken {wisdom : Option (List UInt8)} {disk : Disk δ} {name : δ}
    (h : (disk.dir name).isSome = true) (p : Phase δ) :
    taskStep wisdom disk p (.mkdir name) = (disk, p, []) := by
  cases p <;> simp [taskStep, h]

/-- What a decode can see of a step: its own directory, its phase and what it did. -/
def alone (r : Disk δ × Phase δ × List TaskAction) : Disk Unit × Phase Unit × List TaskAction :=
  (r.1.only r.2.1.workDir, r.2.1.map (fun _ => ()), r.2.2)

theorem leave_alone (disk : Disk δ) (p : Phase δ) (left : Leftover)
    (result : Except Text (List WsprSpot)) :
    leave (disk.only p.workDir) (p.map (fun _ => ())) none result = alone (leave disk p left result) := by
  cases p <;> simp [leave, alone, Phase.map, Phase.workDir, DirStore.remove_unit]

/-- In its own directory a decode takes the step that it takes alone. -/
theorem taskStep_alone (wisdom : Option (List UInt8)) {disk : Disk δ} {e : TaskEvent δ}
    (hfree : ∀ name, e = .mkdir name → disk.dir name = none) (p : Phase δ) :
    taskStep wisdom (disk.only p.workDir) (p.map (fun _ => ())) (e.map (fun _ => ())) =
      alone (taskStep wisdom disk p e) := by
  cases e with
  | spawn window => cases p <;> rfl
  | mkdir name =>
    cases p with
    | creating window =>
      have hname := hfree name rfl
      simp [taskStep, alone, Phase.map, TaskEvent.map, Phase.workDir, hname, DirStore.empty,
        DirStore.only_create]
    | _ => rfl
  | write n =>
    cases p with
    | writing window dir =>
      simp only [taskStep, alone, Phase.map, TaskEvent.map, Phase.workDir, DirStore.read_only,
        DirStore.only_set]
    | _ => rfl
  | persist =>
    cases p with
    | writing window dir =>
      simp only [taskStep, Phase.map, TaskEvent.map, Phase.workDir, DirStore.read_only]
      by_cases hall : disk.read dir .wavTemp = some (Wav.writeWavFile window)
      · simp only [hall, if_true, alone, Phase.map, Phase.workDir, DirStore.only_rename]
      · simp only [hall, if_false, alone, Phase.map, Phase.workDir]
    | _ => rfl
  | copyIn n =>
    cases p with
    | copyingIn kept dir =>
      cases wisdom with
      | none => rfl
      | some content =>
        simp only [taskStep, alone, Phase.map, TaskEvent.map, Phase.workDir, DirStore.only_set]
    | _ => rfl
  | start => cases p <;> rfl
  | output file content =>
    cases p with
    | running kept dir =>
      simp only [taskStep, alone, Phase.map, TaskEvent.map, Phase.workDir, DirStore.only_set]
    | _ => rfl
  | exit => cases p <;> rfl
  | read left =>
    cases p with
    | reading kept dir =>
      simp only [taskStep, Phase.map, TaskEvent.map, Phase.workDir, DirStore.read_only]
      cases runWsprd kept.windowStart (outcomeOf (disk.read dir .allWspr)) with
      | ok spots => rfl
      | error e => exact leave_alone disk (.reading kept dir) left (.error e)
    | _ => rfl
  | finish left =>
    cases p with
    | copyingOut spots dir => exact leave_alone disk (.copyingOut spots dir) left (.ok spots)
    | _ => rfl
  | fail left =>
    rw [TaskEvent.map, taskStep_fail, taskStep_fail, Phase.failure_map]
    cases p.failure with
    | none => rfl
    | some context => exact leave_alone disk p left (.error context.toList)
  | panic left =>
    rw [TaskEvent.map, taskStep_panic, taskStep_panic, Phase.panicked_map]
    cases p.panicked with
    | none => rfl
    | some context => exact leave_alone disk p left (.error context.toList)

end

section
variable {ι δ : Type*}

/-- Every decode that has a work directory has one that exists, and no two have the same. -/
structure Separate (disk : Disk δ) (phase : ι → Phase δ) : Prop where
  live : ∀ i d, (phase i).workDir = some d → (disk.dir d).isSome = true
  disjoint : ∀ i j d, (phase i).workDir = some d → (phase j).workDir = some d → i = j

/-- The directories below `temp_dir`, the wisdom file, and the decodes. -/
structure State (ι δ : Type*) where
  disk : Disk δ
  wisdom : Option (List UInt8)
  phase : ι → Phase δ
  separate : Separate disk phase

/-- `wisdom` is a change of the wisdom file by anybody. -/
inductive Event (ι δ : Type*)
  | task (id : ι) (e : TaskEvent δ)
  | wisdom (content : Option (List UInt8))

theorem State.ext {st st' : State ι δ} (hdisk : st.disk = st'.disk) (hwisdom : st.wisdom = st'.wisdom)
    (hphase : st.phase = st'.phase) : st = st' := by
  cases st
  cases st'
  cases hdisk
  cases hwisdom
  cases hphase
  rfl

/-- Before the first window. -/
def State.initial (disk : Disk δ) (wisdom : Option (List UInt8)) : State ι δ where
  disk := disk
  wisdom := wisdom
  phase := fun _ => .idle
  separate := ⟨by simp [Phase.workDir], by simp [Phase.workDir]⟩

variable [DecidableEq ι] [DecidableEq δ]

theorem Separate.task {wisdom : Option (List UInt8)} {disk : Disk δ} {phase : ι → Phase δ}
    (h : Separate disk phase) (i : ι) (e : TaskEvent δ) :
    Separate (taskStep wisdom disk (phase i) e).1
      (Function.update phase i (taskStep wisdom disk (phase i) e).2.1) := by
  obtain ⟨hdir, hsome, -⟩ | ⟨name, hnone, hfree, hdisk, hdir⟩ | ⟨d, hold, hdisk, hdir⟩ :=
    confined_taskStep wisdom disk (phase i) e
  · have hsame : ∀ j, (Function.update phase i (taskStep wisdom disk (phase i) e).2.1 j).workDir =
        (phase j).workDir := by
      intro j
      by_cases hj : j = i
      · subst hj
        rw [Function.update_self, hdir]
      · rw [Function.update_of_ne hj]
    refine ⟨?_, ?_⟩
    · intro j d hj
      rw [hsame] at hj
      rw [hsome]
      exact h.live j d hj
    · intro j k d hj hk
      rw [hsame] at hj hk
      exact h.disjoint j k d hj hk
  · -- the new name is that of no directory, so of no other decode
    have hnew : ∀ j, (phase j).workDir ≠ some name := by
      intro j hj
      have hlive := h.live j name hj
      rw [hfree] at hlive
      contradiction
    rw [hdisk]
    refine ⟨?_, ?_⟩
    · intro j d hj
      by_cases hd : d = name
      · rw [hd, DirStore.dir_create]
        rfl
      · rw [DirStore.dir_create_ne _ hd]
        by_cases hji : j = i
        · rw [hji, Function.update_self, hdir] at hj
          exact absurd (Option.some.inj hj).symm hd
        · rw [Function.update_of_ne hji] at hj
          exact h.live j d hj
    · intro j k d hj hk
      by_cases hji : j = i <;> by_cases hki : k = i
      · rw [hji, hki]
      · rw [hji, Function.update_self, hdir] at hj
        rw [Function.update_of_ne hki, ← hj] at hk
        exact absurd hk (hnew k)
      · rw [hki, Function.update_self, hdir] at hk
        rw [Function.update_of_ne hji, ← hk] at hj
        exact absurd hj (hnew j)
      · rw [Function.update_of_ne hji] at hj
        rw [Function.update_of_ne hki] at hk
        exact h.disjoint j k d hj hk
  · rw [hdisk]
    have hother : ∀ j e', (Function.update phase i (taskStep wisdom disk (phase i) e).2.1 j).workDir =
        some e' → j ≠ i ∧ (phase j).workDir = some e' := by
      intro j e' hj
      by_cases hji : j = i
      · rw [hji, Function.update_self, hdir] at hj
        contradiction
      · rw [Function.update_of_ne hji] at hj
        exact ⟨hji, hj⟩
    refine ⟨?_, ?_⟩
    · intro j e' hj
      obtain ⟨hji, hj⟩ := hother j e' hj
      have hne : e' ≠ d := by
        rintro rfl
        exact hji (h.disjoint j i e' hj hold)
      rw [DirStore.dir_remove_ne _ hne]
      exact h.live j e' hj
    · intro j k e' hj hk
      exact h.disjoint j k e' (hother j e' hj).2 (hother k e' hk).2

def step (st : State ι δ) : Event ι δ → State ι δ × List (ι × TaskAction)
  | .task id e =>
    let r := taskStep st.wisdom st.disk (st.phase id) e
    (⟨r.1, st.wisdom, Function.update st.phase id r.2.1, st.separate.task id e⟩, r.2.2.map (Prod.mk id))
  | .wisdom content => ({ st with wisdom := content }, [])

def machine (ι δ : Type*) [DecidableEq ι] [DecidableEq δ] :
    EventMachine (State ι δ) (Event ι δ) (ι × TaskAction) := ⟨step⟩

@[simp] theorem machine_step : (machine ι δ).step = step := rfl

end
end Wsprrs.Workspace
