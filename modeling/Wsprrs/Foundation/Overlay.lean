import Mathlib.Tactic

/-! Writing a block of values over a fixed-length list, one position after the other. -/
namespace Wsprrs
variable {α : Type*}

/-- Store `vs` at positions `offset`, `offset+1`, and so on. -/
def overlay (xs : List α) (offset : ℕ) : List α → List α
  | [] => xs
  | v::vs => overlay (xs.set offset v) (offset+1) vs

@[simp] theorem overlay_nil (xs : List α) (offset : ℕ) : overlay xs offset [] = xs := rfl

@[simp] theorem overlay_length (xs : List α) (offset : ℕ) (vs : List α) :
    (overlay xs offset vs).length = xs.length := by
  induction vs generalizing xs offset with
  | nil => rfl
  | cons v vs ih => simp [overlay, ih]

/-- Inside the block the new values are read, outside it the old ones. -/
theorem getElem?_overlay (xs : List α) (offset : ℕ) (vs : List α) (i : ℕ) (hi : i < xs.length) :
    (overlay xs offset vs)[i]? =
      if offset ≤ i ∧ i < offset + vs.length then vs[i-offset]? else xs[i]? := by
  induction vs generalizing xs offset with
  | nil =>
    rw [overlay_nil, if_neg]
    simp only [List.length_nil]
    omega
  | cons v vs ih =>
    rw [overlay, ih (xs.set offset v) (offset+1) (by simpa using hi), List.getElem?_set]
    simp only [List.length_cons]
    by_cases he : offset = i
    · subst he
      rw [if_neg (by omega), if_pos rfl, if_pos hi, if_pos (by omega), Nat.sub_self]
      rfl
    · rw [if_neg he]
      by_cases hin : offset+1 ≤ i ∧ i < offset + 1 + vs.length
      · rw [if_pos hin, if_pos (by omega), show i - offset = (i - (offset+1)) + 1 by omega,
          List.getElem?_cons_succ]
      · rw [if_neg hin, if_neg (by omega)]

end Wsprrs
