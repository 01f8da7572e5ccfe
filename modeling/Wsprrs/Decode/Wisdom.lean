import Wsprrs.Foundation.EventMachine
import Wsprrs.Foundation.InodeStore

/-! Sharing one FFTW wisdom file between decodes that finish at the same time. Every call of
`copy_wisdom_out` stages its copy under one and the same temporary name. -/
namespace Wsprrs.Wisdom

/-- `wisdom_path`, and the path with its extension replaced by `dat.tmp`. -/
inductive Name
  | wisdom
  | staging
  deriving DecidableEq

abbrev Disk := InodeStore Name UInt8

/-- Where a call of `copy_wisdom_out` stands; while copying it has an open inode and an offset. -/
inductive Phase
  | start
  | checked
  | copying (inode offset : ℕ)
  | staged
  | done
  deriving DecidableEq

structure State (ι : Type*) where
  disk : Disk
  phase : ι → Phase

/-- `write` copies at most `n + 1` further bytes, `close` ends the copy, and `fail` is an error
of any of the three operations. -/
inductive Event (ι : Type*)
  | check (task : ι)
  | openTemp (task : ι)
  | write (task : ι) (n : ℕ)
  | close (task : ι)
  | rename (task : ι)
  | fail (task : ι)

/-- What the work directory of a decode holds after `wsprd` ran. -/
structure Setup (ι : Type*) where
  content : List UInt8
  produced : ι → Bool

section
variable {ι : Type*} [DecidableEq ι]

def State.goto (st : State ι) (task : ι) (p : Phase) : State ι :=
  { st with phase := Function.update st.phase task p }

@[simp] theorem State.goto_self (st : State ι) (task : ι) (p : Phase) :
    (st.goto task p).phase task = p :=
  Function.update_self ..

theorem State.goto_ne (st : State ι) {task other : ι} (h : other ≠ task) (p : Phase) :
    (st.goto task p).phase other = st.phase other :=
  Function.update_of_ne h ..

def writeChunk (content : List UInt8) (st : State ι) (task : ι) (inode offset n : ℕ) : State ι :=
  let bytes := (content.drop offset).take (n + 1)
  if bytes = [] then st
  else
    State.goto { st with disk := st.disk.writeAt 0 inode offset bytes } task
      (.copying inode (offset + bytes.length))

/-- One step of `copy_wisdom_out` in one of the tasks. -/
def next (setup : Setup ι) (st : State ι) : Event ι → State ι
  | .check task =>
    match st.phase task with
    | .start =>
      if setup.produced task = false ∨ (st.disk.dir .wisdom).isSome then st.goto task .done
      else st.goto task .checked
    | _ => st
  | .openTemp task =>
    match st.phase task with
    | .checked =>
      let r := st.disk.openTruncate .staging
      State.goto { st with disk := r.1 } task (.copying r.2 0)
    | _ => st
  | .write task n =>
    match st.phase task with
    | .copying inode offset => writeChunk setup.content st task inode offset n
    | _ => st
  | .close task =>
    match st.phase task with
    | .copying _ offset => if setup.content.length ≤ offset then st.goto task .staged else st
    | _ => st
  | .rename task =>
    match st.phase task with
    | .staged =>
      match st.disk.rename .staging .wisdom with
      | some disk => State.goto { st with disk := disk } task .done
      | none => st.goto task .done
    | _ => st
  | .fail task =>
    match st.phase task with
    | .start => st
    | _ => st.goto task .done

def machine (setup : Setup ι) : EventMachine (State ι) (Event ι) Empty :=
  ⟨fun st e => (next setup st e, [])⟩

@[simp] theorem machine_step (setup : Setup ι) (st : State ι) (e : Event ι) :
    (machine setup).step st e = (next setup st e, []) := rfl

end

/-- The wisdom file is there or not, and the staging path may hold a leftover of an earlier
run of the program. -/
def Setup.initial {ι : Type*} (setup : Setup ι) (installed : Bool) (leftover : Option (List UInt8)) :
    State ι where
  disk :=
    { dir := fun
        | .wisdom => if installed then some 0 else none
        | .staging => leftover.map (fun _ => 1)
      content := fun i => if i = 0 then setup.content else leftover.getD []
      next := 2
      dir_lt := by
        intro p i h
        cases p <;> cases installed <;> cases leftover <;> simp at h <;> omega }
  phase := fun _ => .start

/-- The bytes that a copy into a work directory would get, if there are any. -/
def copyWisdomIn (disk : Disk) : Option (List UInt8) := disk.read .wisdom

/-- A copy gets the complete wisdom or nothing. -/
def Whole (content : List UInt8) (disk : Disk) : Prop :=
  ∀ bytes, copyWisdomIn disk = some bytes → bytes = content

/-- Whoever renames finds the staging path free or holding the complete wisdom. -/
def StagedWhole {ι : Type*} (content : List UInt8) (st : State ι) : Event ι → Prop
  | .rename task => st.phase task = .staged →
      ∀ bytes, st.disk.read .staging = some bytes → bytes = content
  | _ => True

/-- Writers put the wisdom where it belongs, so that a complete file stays complete. -/
theorem whole_writeAt {content : List UInt8} {disk : Disk} (hwhole : Whole content disk) {offset : ℕ}
    (h : offset ≤ content.length) (inode n : ℕ) :
    Whole content (disk.writeAt 0 inode offset ((content.drop offset).take n)) := by
  intro bytes hread
  rw [copyWisdomIn, InodeStore.read_writeAt] at hread
  by_cases hi : disk.dir .wisdom = some inode
  · have hold : disk.content inode = content :=
      hwhole _ (by rw [copyWisdomIn, InodeStore.read, hi, Option.map_some])
    rw [if_pos hi, hold, InodeStore.splice_self h] at hread
    exact (Option.some.inj hread).symm
  · rw [if_neg hi] at hread
    exact hwhole bytes hread

section
variable {ι : Type*} [DecidableEq ι] {setup : Setup ι} {st : State ι}

/-- No step breaks a complete wisdom file, unless it renames an incomplete one over it. -/
theorem next_keeps (e : Event ι) (hsep : st.disk.Separate) (hwhole : Whole setup.content st.disk)
    (hgood : StagedWhole setup.content st e) :
    (next setup st e).disk.Separate ∧ Whole setup.content (next setup st e).disk := by
  cases e with
  | check task =>
    simp only [next]
    split
    · split <;> exact ⟨hsep, hwhole⟩
    · exact ⟨hsep, hwhole⟩
  | openTemp task =>
    simp only [next]
    split
    · obtain ⟨hsep', hread⟩ := hsep.openTruncate .staging
      refine ⟨hsep', ?_⟩
      intro bytes hbytes
      exact hwhole bytes ((hread .wisdom (by decide)).symm.trans hbytes)
    · exact ⟨hsep, hwhole⟩
  | write task n =>
    simp only [next]
    split
    · next inode offset hphase =>
      simp only [writeChunk]
      split
      · exact ⟨hsep, hwhole⟩
      · next hbytes =>
        have hoffset : offset ≤ setup.content.length := by
          by_contra hlt
          exact hbytes (by rw [List.drop_of_length_le (by omega), List.take_nil])
        exact ⟨hsep, whole_writeAt hwhole hoffset inode (n + 1)⟩
    · exact ⟨hsep, hwhole⟩
  | close task =>
    simp only [next]
    split
    · split <;> exact ⟨hsep, hwhole⟩
    · exact ⟨hsep, hwhole⟩
  | rename task =>
    simp only [next]
    split
    · next hphase =>
      split
      · next disk hmove =>
        obtain ⟨hsep', hread, -⟩ := hsep.rename (by decide) hmove
        refine ⟨hsep', ?_⟩
        intro bytes hbytes
        exact hgood hphase bytes (hread.symm.trans hbytes)
      · exact ⟨hsep, hwhole⟩
    · exact ⟨hsep, hwhole⟩
  | fail task =>
    simp only [next]
    split <;> exact ⟨hsep, hwhole⟩

/-- And renaming an incomplete one does break it. -/
theorem stagedWhole_of_next (e : Event ι) (hsep : st.disk.Separate)
    (hnext : Whole setup.content (next setup st e).disk) : StagedWhole setup.content st e := by
  cases e with
  | rename task =>
    intro hphase bytes hread
    cases hmove : st.disk.rename .staging .wisdom with
    | none =>
      rw [InodeStore.rename_eq_none hmove] at hread
      contradiction
    | some disk =>
      obtain ⟨-, hmoved, -⟩ := hsep.rename (by decide) hmove
      simp only [next, hphase, hmove] at hnext
      exact hnext bytes (hmoved.trans hread)
  | _ => trivial

theorem whole_iff (hsep : st.disk.Separate) (hwhole : Whole setup.content st.disk)
    (es : List (Event ι)) :
    (∀ past rest, es = past ++ rest → Whole setup.content ((machine setup).after st past).disk) ↔
      (machine setup).EveryStep (StagedWhole setup.content) st es := by
  induction es generalizing st with
  | nil =>
    refine iff_of_true ?_ trivial
    intro past rest h
    obtain ⟨rfl, -⟩ := List.append_eq_nil_iff.mp h.symm
    exact hwhole
  | cons e es ih =>
    constructor
    · intro h
      have hgood := stagedWhole_of_next e hsep (h [e] es rfl)
      obtain ⟨hsep', hwhole'⟩ := next_keeps e hsep hwhole hgood
      refine ⟨hgood, (ih hsep' hwhole').mp ?_⟩
      rintro past rest rfl
      exact h (e::past) rest rfl
    · rintro ⟨hgood, hrest⟩ past rest h
      obtain ⟨hsep', hwhole'⟩ := next_keeps e hsep hwhole hgood
      cases past with
      | nil => exact hwhole
      | cons a past =>
        obtain ⟨rfl, rfl⟩ := List.cons.inj h
        exact (ih hsep' hwhole').mpr hrest past rest rfl

end

theorem separate_initial {ι : Type*} (setup : Setup ι) (installed : Bool)
    (leftover : Option (List UInt8)) : (setup.initial installed leftover).disk.Separate := by
  intro p q i hp hq
  cases p <;> cases q <;> cases installed <;> cases leftover <;>
    simp_all [Setup.initial] <;> omega

theorem whole_initial {ι : Type*} (setup : Setup ι) (installed : Bool)
    (leftover : Option (List UInt8)) :
    Whole setup.content (setup.initial installed leftover).disk := by
  intro bytes h
  cases installed <;> simp [copyWisdomIn, InodeStore.read, Setup.initial] at h
  exact h.symm

/-- For any number of tasks and in every interleaving: no copy ever gets a half-written wisdom
file exactly when every rename finds the staging path free or complete. -/
theorem copyWisdomIn_whole_iff {ι : Type*} [DecidableEq ι] (setup : Setup ι) (installed : Bool)
    (leftover : Option (List UInt8)) (es : List (Event ι)) :
    (∀ past rest, es = past ++ rest → Whole setup.content
      ((machine setup).after (setup.initial installed leftover) past).disk) ↔
    (machine setup).EveryStep (StagedWhole setup.content) (setup.initial installed leftover) es :=
  whole_iff (separate_initial setup installed leftover) (whole_initial setup installed leftover) es

/-- Between its open and its rename a task holds the staging path. -/
def Phase.active : Phase → Bool
  | .copying _ _ => true
  | .staged => true
  | _ => false

/-- A task opens the staging path only when no other one holds it. -/
def Alone {ι : Type*} (st : State ι) : Event ι → Prop
  | .openTemp task => ∀ other, other ≠ task → (st.phase other).active = false
  | _ => True

/-- What the staging file holds while one task copies: the beginning that it has written. -/
def Holds (content : List UInt8) (disk : Disk) : Phase → Prop
  | .copying inode offset => offset ≤ content.length ∧ disk.dir .staging = some inode ∧
      disk.content inode = content.take offset
  | .staged => disk.read .staging = some content
  | _ => True

/-- At most one task is between its open and its rename. -/
structure Sole {ι : Type*} (content : List UInt8) (st : State ι) : Prop where
  holds : ∀ task, Holds content st.disk (st.phase task)
  alone : ∀ task, (st.phase task).active = true →
    ∀ other, other ≠ task → (st.phase other).active = false

section
variable {ι : Type*} [DecidableEq ι] {setup : Setup ι} {st : State ι} {content : List UInt8}

theorem holds_of_inactive {disk : Disk} {p : Phase} (h : p.active = false) :
    Holds content disk p := by
  cases p <;> trivial

/-- The active task moves on, and nobody else is concerned. -/
theorem Sole.active {task : ι} (h : ∀ other, other ≠ task → (st.phase other).active = false) {disk : Disk}
    {p : Phase} (hp : Holds content disk p) :
    Sole content (State.goto { st with disk := disk } task p) := by
  constructor
  · intro other
    by_cases hne : other = task
    · rw [hne, State.goto_self]
      exact hp
    · rw [State.goto_ne _ hne]
      exact holds_of_inactive (h other hne)
  · intro t ht other hne
    by_cases htask : t = task
    · rw [State.goto_ne _ (htask ▸ hne)]
      exact h other (htask ▸ hne)
    · rw [State.goto_ne _ htask, h t htask] at ht
      contradiction

/-- An idle task moves on. -/
theorem Sole.idle (h : Sole content st) (task : ι) {p : Phase} (hp : p.active = false) :
    Sole content (st.goto task p) := by
  constructor
  · intro other
    by_cases hne : other = task
    · rw [hne, State.goto_self]
      exact holds_of_inactive hp
    · rw [State.goto_ne st hne]
      exact h.holds other
  · intro t ht other hne
    have htask : t ≠ task := by
      rintro rfl
      rw [State.goto_self, hp] at ht
      contradiction
    rw [State.goto_ne st htask] at ht
    by_cases ho : other = task
    · rw [ho, State.goto_self]
      exact hp
    · rw [State.goto_ne st ho]
      exact h.alone t ht other hne

theorem Sole.next (h : Sole setup.content st) {e : Event ι} (hgood : Alone st e) :
    Sole setup.content (next setup st e) := by
  cases e with
  | check task =>
    simp only [Wisdom.next]
    split
    · split <;> exact h.idle task rfl
    · exact h
  | openTemp task =>
    simp only [Wisdom.next]
    split
    · refine Sole.active hgood ⟨Nat.zero_le _, ?_, ?_⟩
      · exact InodeStore.openTruncate_dir Name.staging
      · exact InodeStore.openTruncate_content Name.staging
    · exact h
  | write task n =>
    simp only [Wisdom.next]
    split
    · next inode offset hphase =>
      have hheld := h.holds task
      rw [hphase] at hheld
      obtain ⟨hle, hdir, hfile⟩ := hheld
      simp only [writeChunk]
      split
      · exact h
      · refine Sole.active (h.alone task (by rw [hphase]; rfl)) ⟨?_, hdir, ?_⟩
        · simp only [List.length_take, List.length_drop]
          omega
        · simp only [InodeStore.writeAt, Function.update_self, hfile]
          rw [InodeStore.splice_take hle, List.length_take, List.length_drop, List.take_eq_take_iff]
          omega
    · exact h
  | close task =>
    simp only [Wisdom.next]
    split
    · next inode offset hphase =>
      split
      · next hlen =>
        have hheld := h.holds task
        rw [hphase] at hheld
        obtain ⟨-, hdir, hfile⟩ := hheld
        refine Sole.active (h.alone task (by rw [hphase]; rfl)) ?_
        rw [List.take_of_length_le hlen] at hfile
        rw [Holds, InodeStore.read, hdir, Option.map_some, hfile]
      · exact h
    · exact h
  | rename task =>
    simp only [Wisdom.next]
    split
    · next hphase =>
      have halone := h.alone task (by rw [hphase]; rfl)
      split
      · exact Sole.active halone trivial
      · exact h.idle task rfl
    · exact h
  | fail task =>
    simp only [Wisdom.next]
    split
    · exact h
    · exact h.idle task rfl

/-- If no task opens the staging path while another one holds it, every rename finds a
complete copy. -/
theorem stagedWhole_of_alone (h : Sole setup.content st) {es : List (Event ι)}
    (halone : (machine setup).EveryStep Alone st es) :
    (machine setup).EveryStep (StagedWhole setup.content) st es := by
  induction es generalizing st with
  | nil => trivial
  | cons e es ih =>
    obtain ⟨hgood, hrest⟩ := halone
    refine ⟨?_, ih (h.next hgood) hrest⟩
    cases e with
    | rename task =>
      intro hphase bytes hread
      have hheld := h.holds task
      rw [hphase] at hheld
      exact Option.some.inj (hread.symm.trans hheld)
    | _ => trivial

end

/-- One copier at a time: nobody ever gets a half-written wisdom file. -/
theorem copyWisdomIn_whole_of_alone {ι : Type*} [DecidableEq ι] (setup : Setup ι) (installed : Bool)
    (leftover : Option (List UInt8)) (es : List (Event ι))
    (halone : (machine setup).EveryStep Alone (setup.initial installed leftover) es) :
    Whole setup.content ((machine setup).after (setup.initial installed leftover) es).disk := by
  have hsole : Sole setup.content (setup.initial installed leftover) :=
    ⟨fun _ => trivial, fun _ h => absurd h (by simp [Setup.initial, Phase.active])⟩
  exact (whole_iff (separate_initial setup installed leftover)
    (whole_initial setup installed leftover) es).mpr (stagedWhole_of_alone hsole halone) es []
    (List.append_nil es).symm

/-- Two tasks pass the check, and copy one after the other. -/
theorem copyWisdomIn_whole_of_alone_two :
    let setup : Setup Bool := ⟨[1,2], fun _ => true⟩
    let es : List (Event Bool) := [.check false, .check true, .openTemp false, .write false 1,
      .close false, .rename false, .openTemp true, .write true 0]
    Whole setup.content ((machine setup).after (setup.initial false none) es).disk := by
  intro setup es
  apply copyWisdomIn_whole_of_alone
  refine ⟨trivial, trivial, ?_, trivial, trivial, trivial, ?_, trivial, trivial⟩
  · intro other hne
    cases other with
    | false => contradiction
    | true => rfl
  · intro other hne
    cases other with
    | false => rfl
    | true => contradiction

/-- Two tasks pass the check; the second one opens the staging file, which truncates the
complete copy of the first one, and the first one renames it. -/
theorem copyWisdomIn_empty :
    let setup : Setup Bool := ⟨[1,2], fun _ => true⟩
    let es : List (Event Bool) := [.check false, .check true, .openTemp false, .write false 1,
      .close false, .openTemp true, .rename false]
    let disk := ((machine setup).after (setup.initial false none) es).disk
    copyWisdomIn disk = some [] ∧ ¬ Whole setup.content disk := by
  refine ⟨by decide, ?_⟩
  intro h
  exact absurd (h [] (by decide)) (by decide)

end Wsprrs.Wisdom
