import Mathlib.Tactic

/-! Files behind names, the POSIX way: a name leads to an inode, a writer keeps the inode it
opened, opening for writing truncates that inode, and renaming moves a name. -/
namespace Wsprrs

/-- Names lead to allocated inodes only. -/
structure InodeStore (ν β : Type*) where
  dir : ν → Option ℕ
  content : ℕ → List β
  next : ℕ
  dir_lt : ∀ p i, dir p = some i → i < next

namespace InodeStore
variable {ν β : Type*}

/-- Put `bytes` at an offset of a file; a gap before them reads as zeros. -/
def splice (zero : β) (file : List β) (offset : ℕ) (bytes : List β) : List β :=
  (file ++ List.replicate (offset - file.length) zero).take offset ++ bytes ++
    file.drop (offset + bytes.length)

theorem splice_of_le {zero : β} {file : List β} {offset : ℕ} (h : offset ≤ file.length)
    (bytes : List β) :
    splice zero file offset bytes = file.take offset ++ bytes ++ file.drop (offset + bytes.length) := by
  rw [splice, Nat.sub_eq_zero_of_le h, List.replicate_zero, List.append_nil]

/-- Writing a piece of the file where it already stands changes nothing. -/
theorem splice_self {zero : β} {file : List β} {offset : ℕ} (h : offset ≤ file.length) (n : ℕ) :
    splice zero file offset ((file.drop offset).take n) = file := by
  rw [splice_of_le h, List.append_assoc]
  conv_rhs => rw [← List.take_append_drop offset file, ← List.take_append_drop n (file.drop offset)]
  rw [List.drop_drop, List.length_take, List.length_drop]
  congr 2
  by_cases hn : n ≤ file.length - offset
  · rw [Nat.min_eq_left hn]
  · rw [List.drop_of_length_le (by omega), List.drop_of_length_le (by omega)]

/-- Writing the next piece after a beginning of the file extends that beginning. -/
theorem splice_take {zero : β} {file : List β} {offset : ℕ} (h : offset ≤ file.length) (n : ℕ) :
    splice zero (file.take offset) offset ((file.drop offset).take n) = file.take (offset + n) := by
  have hlen : (file.take offset).length = offset := List.length_take_of_le h
  have hdrop (k : ℕ) : (file.take offset).drop (offset + k) = [] :=
    List.drop_of_length_le (by omega)
  rw [splice_of_le hlen.ge, List.take_take, Nat.min_self, hdrop, List.append_nil, List.take_add]

def read (fs : InodeStore ν β) (p : ν) : Option (List β) := (fs.dir p).map fs.content

def writeAt (fs : InodeStore ν β) (zero : β) (i offset : ℕ) (bytes : List β) : InodeStore ν β :=
  { fs with content := Function.update fs.content i (splice zero (fs.content i) offset bytes) }

/-- A write is seen under the names of the inode it goes to, and nowhere else. -/
theorem read_writeAt (fs : InodeStore ν β) (zero : β) (i offset : ℕ) (bytes : List β) (p : ν) :
    (fs.writeAt zero i offset bytes).read p =
      if fs.dir p = some i then some (splice zero (fs.content i) offset bytes) else fs.read p := by
  simp only [read, writeAt]
  cases hp : fs.dir p with
  | none => rfl
  | some j =>
    by_cases hji : j = i
    · rw [hji, Option.map_some, Function.update_self, if_pos rfl]
    · have hne : ¬ some j = some i := fun h => hji (Option.some.inj h)
      rw [if_neg hne, Option.map_some, Function.update_of_ne hji, Option.map_some]

section
variable [DecidableEq ν]

theorem update_lt {dir : ν → Option ℕ} {n : ℕ} (h : ∀ p i, dir p = some i → i < n) (p : ν)
    {v : Option ℕ} (hv : ∀ i, v = some i → i < n) (q : ν) (i : ℕ)
    (hq : Function.update dir p v q = some i) : i < n := by
  by_cases hqp : q = p
  · rw [hqp, Function.update_self] at hq
    exact hv i hq
  · rw [Function.update_of_ne hqp] at hq
    exact h q i hq

variable (fs : InodeStore ν β)

/-- Give a free name a new, empty file. -/
def create (p : ν) : InodeStore ν β where
  dir := Function.update fs.dir p (some fs.next)
  content := Function.update fs.content fs.next []
  next := fs.next + 1
  dir_lt := update_lt (fun q i hq => (fs.dir_lt q i hq).trans (Nat.lt_succ_self _)) p (by simp)

/-- Open for writing: create the file if the name is free, else truncate its inode. -/
def openTruncate (p : ν) : InodeStore ν β × ℕ :=
  match fs.dir p with
  | some i => ({ fs with content := Function.update fs.content i [] }, i)
  | none => (fs.create p, fs.next)

def move (src dst : ν) : InodeStore ν β where
  dir := Function.update (Function.update fs.dir dst (fs.dir src)) src none
  content := fs.content
  next := fs.next
  dir_lt := update_lt (update_lt fs.dir_lt dst (fs.dir_lt src)) src (by simp)

/-- Move the name `src` to `dst`; two names of one inode stay as they are. -/
def rename (src dst : ν) : Option (InodeStore ν β) :=
  if fs.dir src = none then none
  else if fs.dir src = fs.dir dst then some fs
  else some (fs.move src dst)

/-- No two names lead to the same inode. -/
def Separate : Prop := ∀ p q i, fs.dir p = some i → fs.dir q = some i → p = q

variable {fs}

theorem rename_eq_none {src dst : ν} (h : fs.rename src dst = none) : fs.read src = none := by
  unfold InodeStore.rename at h
  split_ifs at h with hnone
  simp [read, hnone]

/-- Renaming gives the file of `src` to `dst`, in whatever state it is, and frees `src`. -/
theorem Separate.rename {src dst : ν} {fs' : InodeStore ν β} (h : fs.Separate) (hne : src ≠ dst)
    (hmove : fs.rename src dst = some fs') :
    fs'.Separate ∧ fs'.read dst = fs.read src ∧ fs'.dir src = none := by
  unfold InodeStore.rename at hmove
  split_ifs at hmove with hnone hsame
  · cases hsrc : fs.dir src with
    | none => contradiction
    | some i => exact absurd (h src dst i hsrc (hsame ▸ hsrc)) hne
  · obtain rfl := Option.some.inj hmove
    have hdir (p : ν) (i : ℕ) (hp : (fs.move src dst).dir p = some i) :
        p ≠ src ∧ (p = dst ∧ fs.dir src = some i ∨ p ≠ dst ∧ fs.dir p = some i) := by
      simp only [move] at hp
      by_cases hps : p = src
      · simp [hps] at hp
      · rw [Function.update_of_ne hps] at hp
        by_cases hpd : p = dst
        · rw [hpd, Function.update_self] at hp
          exact ⟨hps, .inl ⟨hpd, hp⟩⟩
        · rw [Function.update_of_ne hpd] at hp
          exact ⟨hps, .inr ⟨hpd, hp⟩⟩
    refine ⟨?_, ?_, by simp [move]⟩
    · intro p q i hp hq
      obtain ⟨hps, ⟨hpd, hp⟩ | ⟨-, hp⟩⟩ := hdir p i hp <;>
        obtain ⟨hqs, ⟨hqd, hq⟩ | ⟨-, hq⟩⟩ := hdir q i hq
      · rw [hpd, hqd]
      · exact absurd (h q src i hq hp) hqs
      · exact absurd (h p src i hp hq) hps
      · exact h p q i hp hq
    · simp [read, move, Function.update_of_ne hne.symm]

/-- Opening a name for writing touches no other name. -/
theorem Separate.openTruncate (h : fs.Separate) (p : ν) :
    (fs.openTruncate p).1.Separate ∧ ∀ q, q ≠ p → (fs.openTruncate p).1.read q = fs.read q := by
  unfold InodeStore.openTruncate
  split
  · next i hi =>
    refine ⟨h, ?_⟩
    intro q hq
    simp only [read]
    cases hj : fs.dir q with
    | none => rfl
    | some j =>
      have hji : j ≠ i := by
        rintro rfl
        exact hq (h q p j hj hi)
      simp [Function.update_of_ne hji]
  · next hi =>
    constructor
    · intro a b i ha hb
      simp only [create] at ha hb
      by_cases hap : a = p <;> by_cases hbp : b = p
      · rw [hap, hbp]
      · rw [hap, Function.update_self] at ha
        rw [Function.update_of_ne hbp] at hb
        exact absurd (fs.dir_lt b i hb) (by rw [← Option.some.inj ha]; exact lt_irrefl _)
      · rw [hbp, Function.update_self] at hb
        rw [Function.update_of_ne hap] at ha
        exact absurd (fs.dir_lt a i ha) (by rw [← Option.some.inj hb]; exact lt_irrefl _)
      · rw [Function.update_of_ne hap] at ha
        rw [Function.update_of_ne hbp] at hb
        exact h a b i ha hb
    · intro q hq
      simp only [read, create, Function.update_of_ne hq]
      cases hj : fs.dir q with
      | none => rfl
      | some j => simp [Function.update_of_ne (fs.dir_lt q j hj).ne]

theorem openTruncate_dir (p : ν) : (fs.openTruncate p).1.dir p = some (fs.openTruncate p).2 := by
  unfold InodeStore.openTruncate
  split
  · next i hi => exact hi
  · exact Function.update_self ..

theorem openTruncate_content (p : ν) : (fs.openTruncate p).1.content (fs.openTruncate p).2 = [] := by
  unfold InodeStore.openTruncate
  split <;> exact Function.update_self ..

end
end InodeStore
end Wsprrs
