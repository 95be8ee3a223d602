import Mathlib
import MhoLauncher.Library.Machine

universe u

variable {S S' T T' α β : Type u}

-- Both computations fail, or both have the same result and end in related states.
def SameResult (R : S → T → Prop) : Option (α × S) → Option (α × T) → Prop :=
  Option.Rel fun x y => x.1 = y.1 ∧ R x.2 y.2

-- Computations that can not be told apart if they start in related states.
def Agrees (R : S → T → Prop) (p : StateT S Option α) (q : StateT T Option α) : Prop :=
  ∀ s t, R s t → SameResult R (p s) (q t)

variable {R : S → T → Prop} {R' : S' → T' → Prop} {s : S} {t : T}

namespace SameResult

theorem intro {a : α} (h : R s t) : SameResult R (some (a, s)) (some (a, t)) :=
  .some ⟨rfl, h⟩

theorem bind {x : Option (α × S)} {y : Option (α × T)} {f : α × S → Option (β × S')}
    {g : α × T → Option (β × T')}
    (h : SameResult R x y) (hf : ∀ a s t, x = some (a, s) → R s t → SameResult R' (f (a, s)) (g (a, t))) :
    SameResult R' (x.bind f) (y.bind g) := by
  cases h
  case none => exact .none
  case some x y h =>
    obtain ⟨a, s⟩ := x
    obtain ⟨b, t⟩ := y
    cases h.left
    exact hf _ _ _ rfl h.right

theorem map {x : Option (α × S)} {y : Option (α × T)} {f : α × S → β × S'} {g : α × T → β × T'}
    (h : SameResult R x y) (hf : ∀ a s t, R s t → (f (a, s)).1 = (g (a, t)).1 ∧ R' (f (a, s)).2 (g (a, t)).2) :
    SameResult R' (x.map f) (y.map g) := by
  cases h
  case none => exact .none
  case some x y h =>
    obtain ⟨a, s⟩ := x
    obtain ⟨b, t⟩ := y
    cases h.left
    exact .some <| hf _ _ _ h.right

-- The outputs of related runs.
theorem map_fst {x : Option (α × S)} {y : Option (α × T)} (h : SameResult R x y) :
    x.map (·.1) = y.map (·.1) := by
  cases h
  case none     => rfl
  case some _ h => exact congrArg some h.left

theorem of_eq_some {x : Option (α × S)} {y : Option (α × T)} {a : α} (h : SameResult R x y)
    (hx : x = some (a, s)) : ∃ t, y = some (a, t) ∧ R s t := by
  cases h
  case none => exact nomatch hx
  case some y h =>
    cases hx
    obtain ⟨b, t⟩ := y
    cases h.left
    exact ⟨t, rfl, h.right⟩

end SameResult

namespace Agrees

protected theorem pure (a : α) : Agrees R (pure a) (pure a) :=
  fun _ _ h => .intro h

protected theorem failure : Agrees R (failure : StateT S Option α) failure :=
  fun _ _ _ => .none

protected theorem modify {f : S → S} {g : T → T} (h : ∀ {s t}, R s t → R (f s) (g t)) :
    Agrees R (modify f : StateT S Option PUnit) (modify g) :=
  fun _ _ hr => .intro <| h hr

protected theorem bind {p : StateT S Option α} {q : StateT T Option α} {f : α → StateT S Option β}
    {g : α → StateT T Option β} (h : Agrees R p q) (hf : ∀ a, Agrees R (f a) (g a)) :
    Agrees R (p >>= f) (q >>= g) :=
  fun s t hr => (h s t hr).bind fun a _ _ _ => hf a _ _

-- The states are related when they are looked at.
protected theorem bind_get {f : S → StateT S Option β} {g : T → StateT T Option β}
    (h : ∀ s t, R s t → Agrees R (f s) (g t)) : Agrees R (get >>= f) (get >>= g) :=
  fun s t hr => h s t hr s t hr

protected theorem map {p : StateT S Option α} {q : StateT T Option α} {f : α → β} (h : Agrees R p q) :
    Agrees R (f <$> p) (f <$> q) :=
  .bind h fun _ => .pure _

protected theorem forM {f : α → StateT S Option PUnit} {g : α → StateT T Option PUnit} {l : List α}
    (h : ∀ a ∈ l, Agrees R (f a) (g a)) : Agrees R (forM l f) (forM l g) := by
  induction l
  case nil         => exact .pure _
  case cons a l hi => exact .bind (h _ <| .head _) fun _ => hi fun _ ha => h _ <| .tail _ ha

end Agrees

namespace Machine

variable {Op Out : Type u} {m : Machine Op Out S} {n : Machine Op Out T} {P : S → Op → Prop}

-- Machines whose steps agree have runs that agree.
theorem run_agrees {ops : List Op} (h : ∀ {s t op}, R s t → P s op → SameResult R (m op s) (n op t))
    (hr : R s t)
    (a : Along m P s ops) : SameResult R (m.run ops s) (n.run ops t) := by
  induction ops generalizing s t
  case nil => exact .intro hr
  case cons op ops hi =>
    exact (h hr a.left).bind fun o s' t' he hr => (hi hr <| a.right _ _ he).bind fun _ _ _ _ h => .intro h

end Machine
