import Mathlib.Logic.Function.Basic
import Mathlib.Tactic.SplitIfs

/-! Directories of files, and the part of a store that one directory is: an operation inside it
is the same operation on a store of one directory, and no other directory notices. -/
namespace Wsprrs

/-- `δ` are the names of the directories and `φ` those of the files in one. -/
structure DirStore (δ φ β : Type*) where
  dir : δ → Option (φ → Option β)

namespace DirStore
variable {δ φ β : Type*}

@[ext] theorem ext {s s' : DirStore δ φ β} (h : ∀ d, s.dir d = s'.dir d) : s = s' := by
  cases s
  cases s'
  congr 1
  funext d
  exact h d

def empty : DirStore δ φ β := ⟨fun _ => none⟩

def read (s : DirStore δ φ β) (d : δ) (file : φ) : Option β := (s.dir d).bind (fun files => files file)

/-- One directory as a store of its own. -/
def only (s : DirStore δ φ β) (d : Option δ) : DirStore Unit φ β := ⟨fun _ => d.bind s.dir⟩

@[simp] theorem only_none (s : DirStore δ φ β) : s.only none = empty := rfl

@[simp] theorem read_only (s : DirStore δ φ β) (d : δ) (file : φ) :
    (s.only (some d)).read () file = s.read d file := rfl

theorem only_congr {s s' : DirStore δ φ β} {d : Option δ} (h : ∀ e, d = some e → s'.dir e = s.dir e) :
    s'.only d = s.only d := by
  ext u : 1
  cases d with
  | none => rfl
  | some e => exact h e rfl

section
variable [DecidableEq δ] (s : DirStore δ φ β) {d other : δ}

/-- A new directory, without files. -/
def create (d : δ) : DirStore δ φ β := ⟨Function.update s.dir d (some (fun _ => none))⟩

/-- Remove a directory with everything in it; where that fails, some files are `left`. -/
def remove (d : δ) (left : Option (φ → Option β)) : DirStore δ φ β :=
  ⟨Function.update s.dir d left⟩

@[simp] theorem dir_create (d : δ) : (s.create d).dir d = some (fun _ => none) :=
  Function.update_self ..
@[simp] theorem dir_remove (d : δ) (left : Option (φ → Option β)) : (s.remove d left).dir d = left :=
  Function.update_self ..

theorem dir_create_ne (h : other ≠ d) : (s.create d).dir other = s.dir other :=
  Function.update_of_ne h ..
theorem dir_remove_ne (h : other ≠ d) (left : Option (φ → Option β)) :
    (s.remove d left).dir other = s.dir other := Function.update_of_ne h ..

theorem only_create (d : δ) : (s.create d).only (some d) = empty.create () := by
  ext u : 1
  exact dir_create s d

theorem remove_unit (s : DirStore Unit φ β) : s.remove () none = empty := by
  ext u : 1
  exact dir_remove s () none

end

section
variable [DecidableEq δ] [DecidableEq φ] (s : DirStore δ φ β) {d other : δ}

/-- Write a file or delete it, in a directory that exists. -/
def set (d : δ) (file : φ) (content : Option β) : DirStore δ φ β :=
  ⟨Function.update s.dir d ((s.dir d).map (fun files => Function.update files file content))⟩

/-- Rename a file within its directory, over the file that has the new name. -/
def rename (d : δ) (src dst : φ) : DirStore δ φ β :=
  match s.read d src with
  | none => s
  | some content => (s.set d src none).set d dst (some content)

theorem dir_set_ne (h : other ≠ d) (file : φ) (content : Option β) :
    (s.set d file content).dir other = s.dir other := Function.update_of_ne h ..

theorem dir_rename_ne (h : other ≠ d) (src dst : φ) : (s.rename d src dst).dir other = s.dir other := by
  unfold rename
  split
  · rfl
  · rw [dir_set_ne _ h, dir_set_ne _ h]

/-- Files come and go, but the directory stays. -/
theorem isSome_set (d : δ) (file : φ) (content : Option β) (other : δ) :
    ((s.set d file content).dir other).isSome = (s.dir other).isSome := by
  by_cases h : other = d
  · subst h
    simp [set]
  · rw [dir_set_ne s h]

theorem isSome_rename (d : δ) (src dst : φ) (other : δ) :
    ((s.rename d src dst).dir other).isSome = (s.dir other).isSome := by
  unfold rename
  split
  · rfl
  · rw [isSome_set, isSome_set]

theorem only_set (d : δ) (file : φ) (content : Option β) :
    (s.set d file content).only (some d) = (s.only (some d)).set () file content := by
  ext u : 1
  simp [only, set]

theorem only_rename (d : δ) (src dst : φ) :
    (s.rename d src dst).only (some d) = (s.only (some d)).rename () src dst := by
  unfold rename
  rw [read_only]
  split
  · rfl
  · rw [only_set, only_set]

variable {s}

theorem read_set (hd : (s.dir d).isSome) (file f : φ) (content : Option β) :
    (s.set d file content).read d f = if f = file then content else s.read d f := by
  obtain ⟨files, hfiles⟩ := Option.isSome_iff_exists.mp hd
  simp only [read, set, Function.update_self, hfiles, Option.map_some, Option.bind_some,
    Function.update_apply]

theorem read_rename {src dst : φ} {content : β} (h : s.read d src = some content) (f : φ) :
    (s.rename d src dst).read d f =
      if f = dst then some content else if f = src then none else s.read d f := by
  have hd : (s.dir d).isSome := by
    by_contra hnone
    rw [Option.not_isSome_iff_eq_none] at hnone
    simp [read, hnone] at h
  simp only [rename, h]
  rw [read_set (by rwa [isSome_set]), read_set hd]

end
end DirStore
end Wsprrs
