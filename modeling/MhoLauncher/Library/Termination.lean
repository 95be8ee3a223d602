import Mathlib

open Relation

namespace StateTransition

variable {σ : Type} (f : σ → Option σ)

-- The state after `n` steps, unless the system stops before.
def steps : Nat → σ → Option σ
  | 0,     a => some a
  | n + 1, a => f a |>.bind (steps n)

variable {f} {a b : σ} {n k : Nat}

theorem steps_add : steps f (n + k) a = (steps f n a).bind (steps f k) := by
  induction n generalizing a
  case zero => rw [Nat.zero_add]; rfl
  case succ n hi =>
    rw [Nat.succ_add, steps, steps, Option.bind_assoc]
    exact congrArg _ <| funext fun _ => hi

theorem reaches_of_steps (h : steps f n a = some b) : Reaches f a b := by
  induction n generalizing a
  case zero => exact Option.some.inj h ▸ .refl
  case succ n hi =>
    have ⟨_, hs, h⟩ := Option.bind_eq_some_iff.mp h
    exact .head hs <| hi h

theorem reaches₁_of_steps (h : steps f (n + 1) a = some b) : Reaches₁ f a b :=
  have ⟨_, hs, h⟩ := Option.bind_eq_some_iff.mp h
  .head' hs <| reaches_of_steps h

-- A state on a cycle steps to a state on a cycle.
theorem step_of_cycle (h : Reaches₁ f a a) : ∃ b, f a = some b ∧ Reaches₁ f b b := by
  have ⟨b, hs, h⟩ := TransGen.head'_iff.mp h
  exact ⟨b, hs, .tail' h hs⟩

theorem steps_of_cycle (h : Reaches₁ f a a) : steps f n a ≠ none := by
  induction n generalizing a
  case zero => exact Option.some_ne_none _
  case succ n hi =>
    have ⟨b, hs, h⟩ := step_of_cycle h
    rw [steps, hs]
    exact hi h

theorem steps_of_reaches (h : Reaches f a b) (hb : ∀ n, steps f n b ≠ none) : steps f n a ≠ none := by
  induction h using ReflTransGen.head_induction_on generalizing n
  case refl => exact hb n
  case head hs _ hi =>
    cases n
    case zero => exact Option.some_ne_none _
    case succ n =>
      rw [steps, hs]
      exact hi

-- A finite system that never stops gets to a state twice.
theorem exists_cycle [Finite σ] (h : ∀ n, steps f n a ≠ none) : ∃ b, Reaches f a b ∧ Reaches₁ f b b := by
  have h n := Option.ne_none_iff_exists'.mp <| h n
  choose g hg using h
  have ⟨i, j, hn, he⟩ := Finite.exists_ne_map_eq_of_infinite g
  have hc {i j} (hl : i < j) (he : g i = g j) : Reaches₁ f (g i) (g i) := by
    have ⟨k, hk⟩ := Nat.exists_eq_add_of_lt hl
    have hs := steps_add (f := f) (n := i) (k := k + 1) (a := a)
    rw [←Nat.add_assoc, ←hk, hg, hg, ←he] at hs
    exact reaches₁_of_steps hs.symm
  cases Nat.lt_or_gt_of_ne hn
  case inl hl => exact ⟨_, reaches_of_steps (hg i), hc hl he⟩
  case inr hl => exact ⟨_, reaches_of_steps (hg j), hc hl he.symm⟩

theorem stops_iff_acyclic [Finite σ] : (∃ n, steps f n a = none) ↔ ∀ b, Reaches f a b → ¬Reaches₁ f b b where
  mp := fun ⟨_, hn⟩ _ hb hc => steps_of_reaches hb (fun _ => steps_of_cycle hc) hn
  mpr h := by
    by_contra hn
    have ⟨b, hb, hc⟩ := exists_cycle <| not_exists.mp hn
    exact h b hb hc

end StateTransition
