import Mathlib

-- A machine that performs one operation at a time. An operation has an output, and it may fail.
abbrev Machine (Op Out State : Type*) := Op → State → Option (Out × State)

namespace Machine

variable {Op Out State State' : Type*} {m : Machine Op Out State} {s s' : State}

def run (m : Machine Op Out State) : List Op → State → Option (List Out × State)
  | [],        s => some ([], s)
  | op :: ops, s => do
    let (o, s) ← m op s
    let (os, s) ← run m ops s
    return (o :: os, s)

def outputs (m : Machine Op Out State) (ops : List Op) (s : State) : Option (List Out) :=
  (m.run ops s).map (·.1)

-- A property of an operation and the state that it is performed in holds for all steps of a run.
def Along (m : Machine Op Out State) (P : State → Op → Prop) : State → List Op → Prop
  | _, []        => True
  | s, op :: ops => P s op ∧ ∀ o s', m op s = some (o, s') → Along m P s' ops

@[simp]
theorem run_nil : m.run [] s = some ([], s) :=
  rfl

theorem run_cons {op : Op} {ops : List Op} {o : Out} (h : m op s = some (o, s')) :
    m.run (op :: ops) s = (m.run ops s').map (fun r => (o :: r.1, r.2)) := by
  simp only [run, h, Option.bind_eq_bind, Option.bind_some]
  cases m.run ops s' <;> rfl

theorem run_cons_some {op : Op} {ops : List Op} {o : Out} {os : List Out} {t : State}
    (h : m op s = some (o, s'))
    (hr : m.run ops s' = some (os, t)) : m.run (op :: ops) s = some (o :: os, t) := by
  rw [run_cons h, hr, Option.map_some]

theorem outputs_cons {op : Op} {ops : List Op} {o : Out} (h : m op s = some (o, s')) :
    m.outputs (op :: ops) s = (m.outputs ops s').map (o :: ·) := by
  rw [outputs, run_cons h, outputs, Option.map_map, Option.map_map]
  rfl

-- A run that is cut off and goes on with another operation.
theorem Along.snoc {P : State → Op → Prop} {ops pre : List Op} {op : Op} (a : Along m P s ops) (h : pre <+: ops)
    (hp : ∀ s, P s op) : Along m P s (pre ++ [op]) := by
  induction pre generalizing s ops
  case nil => exact ⟨hp s, fun _ _ _ => trivial⟩
  case cons op₁ pre hi =>
    obtain ⟨ops₁, rfl⟩ := h
    exact ⟨a.left, fun o s' e => hi (a.right o s' e) <| List.prefix_append ..⟩

theorem Along.of_forall {P : Op → Prop} {ops : List Op} (h : ∀ op ∈ ops, P op) :
    Along m (fun _ => P) s ops := by
  induction ops generalizing s
  case nil        => trivial
  case cons op hi => exact ⟨h _ <| .head _, fun _ _ _ => hi fun _ ho => h _ <| .tail _ ho⟩

-- Two properties hold along the same runs if they agree in all states that satisfy an invariant.
theorem Along.iff_of_invariant {P Q R : State → Op → Prop} {I : State → Prop} {ops : List Op}
    (a : Along m R s ops) (hs : I s) (h : ∀ {s op}, I s → R s op → (P s op ↔ Q s op))
    (hp : ∀ {s op o s'}, I s → R s op → P s op → m op s = some (o, s') → I s') :
    Along m P s ops ↔ Along m Q s ops := by
  induction ops generalizing s
  case nil => rfl
  case cons op ops hi =>
    simp only [Along, h hs a.left]
    refine and_congr_right fun hq => forall_congr' fun o => forall_congr' fun s' => ?_
    exact imp_congr_right fun e => hi (a.right o s' e) <| hp hs a.left ((h hs a.left).mpr hq) e

theorem run_invariant {P : State → Op → Prop} {I : State → Prop} {ops : List Op} {os : List Out}
    (h : ∀ {s op o s'}, I s → P s op → m op s = some (o, s') → I s')
    (hs : I s) (a : Along m P s ops) (hr : m.run ops s = some (os, s')) : I s' := by
  induction ops generalizing s os
  case nil => cases hr; exact hs
  case cons op ops hi =>
    cases hm : m op s
    case none   => simp [run, hm] at hr
    case some r =>
      rw [run_cons hm, Option.map_eq_some_iff] at hr
      obtain ⟨_, hr', he⟩ := hr
      cases he
      exact hi (h hs a.left hm) (a.right _ _ hm) hr'

-- A machine that never fails.
abbrev Spec (Op Out State : Type*) := Op → State → Out × State

def Spec.run (n : Spec Op Out State) : List Op → State → List Out × State
  | [],        s => ([], s)
  | op :: ops, s =>
    let (o, s) := n op s
    let (os, s) := run n ops s
    (o :: os, s)

-- The steps of `m` that satisfy `P` succeed and are simulated by steps of `n` up to `R`.
def Refines (m : Machine Op Out State) (n : Spec Op Out State') (P : State → Op → Prop)
    (R : State → State' → Prop) : Prop :=
  ∀ {s t op}, R s t → P s op → ∃ s', m op s = some ((n op t).1, s') ∧ R s' (n op t).2

theorem Refines.run {n : Spec Op Out State'} {P : State → Op → Prop} {R : State → State' → Prop}
    {t : State'} {ops : List Op} (h : Refines m n P R) (hr : R s t) (a : Along m P s ops) :
    ∃ s', m.run ops s = some ((n.run ops t).1, s') ∧ R s' (n.run ops t).2 := by
  induction ops generalizing s t
  case nil => exact ⟨s, rfl, hr⟩
  case cons op ops hi =>
    have ⟨s₁, hm, hr₁⟩ := h hr a.left
    have ⟨s₂, hs, hr₂⟩ := hi hr₁ (a.right _ _ hm)
    exact ⟨s₂, by simp [run_cons hm, hs, Spec.run], hr₂⟩

end Machine
