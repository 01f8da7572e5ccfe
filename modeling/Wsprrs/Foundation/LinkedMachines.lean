import Wsprrs.Foundation.EventMachine

/-! Two machines side by side. An event of the pair may be one of either machine, of both or of
none, and which one it is may depend on the states of both. Each machine runs as on its own. -/
namespace Wsprrs.EventMachine
variable {σ ε α τ δ β γ : Type*}

/-- What an event of the pair is to each machine. -/
structure Link (σ τ γ ε δ : Type*) where
  left : σ × τ → γ → Option ε
  right : σ × τ → γ → Option δ

def linked (M : EventMachine σ ε α) (N : EventMachine τ δ β) (link : Link σ τ γ ε δ) :
    EventMachine (σ × τ) γ (α ⊕ β) where
  step s e :=
    let r := M.run s.1 (link.left s e).toList
    let r' := N.run s.2 (link.right s e).toList
    ((r.1, r'.1), r.2.map Sum.inl ++ r'.2.map Sum.inr)

section
variable (M : EventMachine σ ε α) (N : EventMachine τ δ β) (link : Link σ τ γ ε δ)

def linkedLeft : Component (M.linked N link) M where
  view := Prod.fst
  focus := link.left
  pick := Sum.getLeft?
  view_step _ _ := rfl
  pick_step s e := by
    simp [linked, outputs, List.filterMap_append, List.filterMap_map, Function.comp_def]

def linkedRight : Component (M.linked N link) N where
  view := Prod.snd
  focus := link.right
  pick := Sum.getRight?
  view_step _ _ := rfl
  pick_step s e := by
    simp [linked, outputs, List.filterMap_append, List.filterMap_map, Function.comp_def]

end

end Wsprrs.EventMachine
