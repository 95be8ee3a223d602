import Mathlib

open Relation

-- Every run from a state gets to `P` in at most `n` steps, and it is not stuck before.
def Inevitable {α : Type*} (r : α → α → Prop) (P : α → Prop) : ℕ → α → Prop
  | 0,     a => P a
  | n + 1, a => P a ∨ (∃ b, r a b) ∧ ∀ b, r a b → Inevitable r P n b

namespace Inevitable

variable {α : Type*} {r : α → α → Prop} {P I : α → Prop} {f : α → ℕ} {a : α} {n : ℕ}

-- The rule for a rank that each step decreases.
theorem of_rank (hi : ∀ {a b}, I a → r a b → I b) (hp : ∀ {a}, I a → P a ∨ ∃ b, r a b)
    (hf : ∀ {a b}, I a → r a b → f b < f a) (h : I a) (hn : f a ≤ n) : Inevitable r P n a := by
  induction n generalizing a
  case zero =>
    cases hp h
    case inl hp => exact hp
    case inr hb =>
      obtain ⟨b, hb⟩ := hb
      exact absurd (hf h hb) <| by omega
  case succ n ih =>
    cases hp h
    case inl hp => exact .inl hp
    case inr hb =>
      refine .inr ⟨hb, fun b hb => ih (hi h hb) ?_⟩
      have := hf h hb
      omega

theorem exists_reaches (h : Inevitable r P n a) : ∃ b, ReflTransGen r a b ∧ P b := by
  induction n generalizing a
  case zero => exact ⟨a, .refl, h⟩
  case succ n hi =>
    obtain hp | ⟨⟨b, hb⟩, h⟩ := h
    case inl => exact ⟨a, .refl, hp⟩
    case inr =>
      obtain ⟨c, hr, hp⟩ := hi <| h b hb
      exact ⟨c, .head hb hr, hp⟩

end Inevitable
