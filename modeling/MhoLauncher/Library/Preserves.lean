import Mathlib

variable {S : Type*} {α β : Type _}

-- A computation that starts in a state with a given property does not end in a state without it. It may
-- also fail.
def Preserves (I : S → Prop) (p : StateT S Option α) : Prop :=
  ∀ s a s', I s → p s = some (a, s') → I s'

namespace Preserves

variable {I : S → Prop} {p : StateT S Option α}

protected theorem pure (a : α) : Preserves I (pure a) := by
  intro _ _ _ hs h
  cases h
  exact hs

protected theorem get : Preserves I (get : StateT S Option S) := by
  intro _ _ _ hs h
  cases h
  exact hs

protected theorem modify {f : S → S} (hf : ∀ {s}, I s → I (f s)) :
    Preserves I (modify f : StateT S Option PUnit) := by
  intro _ _ _ hs h
  cases h
  exact hf hs

protected theorem bind {f : α → StateT S Option β} (hp : Preserves I p) (hf : ∀ a, Preserves I (f a)) :
    Preserves I (p >>= f) := by
  intro s b s' hs h
  have ⟨⟨a, s₁⟩, h₁, h₂⟩ := Option.bind_eq_some_iff.mp h
  exact hf a _ _ _ (hp _ _ _ hs h₁) h₂

protected theorem map {f : α → β} (hp : Preserves I p) : Preserves I (f <$> p) := by
  intro s b s' hs h
  have ⟨⟨a, s₁⟩, h₁, h₂⟩ := Option.bind_eq_some_iff.mp h
  cases h₂
  exact hp _ _ _ hs h₁

protected theorem forM {f : α → StateT S Option PUnit} {l : List α} (hf : ∀ a ∈ l, Preserves I (f a)) :
    Preserves I (forM l f) := by
  induction l
  case nil => exact .pure _
  case cons a l hi => exact .bind (hf _ <| .head _) fun _ => hi fun _ h => hf _ <| .tail _ h

end Preserves
