import Mathlib

open Relation

-- A program that calls the functions of its environment. With `await` it repeats a call until the result is
-- what it waits for.
inductive Program (Call : Type) (Result : Call → Type) (α : Type)
  | ret (a : α)
  | call (c : Call) (next : Result c → Program Call Result α)
  | await (c : Call) (done : Result c → Bool) (next : Program Call Result α)

-- The functions may have many results, and others may change the state whenever the program does not.
structure Environment (Call : Type) (Result : Call → Type) (S : Type) where
  answers : (c : Call) → S → Result c → S → Prop
  moves   : S → S → Prop

namespace Program

variable {Call S α β : Type} {Result : Call → Type}

def bind (f : α → Program Call Result β) : Program Call Result α → Program Call Result β
  | .ret a            => f a
  | .call c next       => .call c fun r => bind f (next r)
  | .await c done next => .await c done <| bind f next

instance : Monad (Program Call Result) where
  pure   := .ret
  bind p f := bind f p

def perform (c : Call) : Program Call Result (Result c) :=
  .call c .ret

def waitUntil (c : Call) (done : Result c → Bool) : Program Call Result Unit :=
  .await c done <| .ret ()

inductive Step (e : Environment Call Result S) : Program Call Result α × S → Program Call Result α × S → Prop
  | call {c next s r t} : e.answers c s r t → Step e (.call c next, s) (next r, t)
  | again {c done next s r t} : e.answers c s r t → done r = false →
    Step e (.await c done next, s) (.await c done next, t)
  | done {c done next s r t} : e.answers c s r t → done r = true → Step e (.await c done next, s) (next, t)
  | move {p s t} : e.moves s t → Step e (p, s) (p, t)

def Reaches (e : Environment Call Result S) : Program Call Result α × S → Program Call Result α × S → Prop :=
  ReflTransGen (Step e)

-- Whatever the environment does, `G` holds all the time and `Q` holds in the end.
def Triple (e : Environment Call Result S) (G P : S → Prop) (p : Program Call Result α)
    (Q : α → S → Prop) : Prop :=
  ∀ s, P s → ∀ c, Reaches e (p, s) c → G c.2 ∧ ∀ a, c.1 = .ret a → Q a c.2

def Stable (e : Environment Call Result S) (P : S → Prop) : Prop :=
  ∀ s t, P s → e.moves s t → P t

variable {e : Environment Call Result S} {G P P' : S → Prop} {p : Program Call Result α} {Q Q' : α → S → Prop}

theorem Stable.exists {ι : Type} {P : ι → S → Prop} (h : ∀ i, Stable e (P i)) : Stable e fun s => ∃ i, P i s :=
  fun s t ⟨i, hp⟩ hm => ⟨i, h i s t hp hm⟩

theorem step_bind {f : α → Program Call Result β} {s : S} {c : Program Call Result β × S}
    (h : Step e (p >>= f, s) c) :
    (∃ p' t, Step e (p, s) (p', t) ∧ c = (p' >>= f, t)) ∨ ∃ a, p = .ret a ∧ Step e (f a, s) c := by
  cases p
  case ret a => exact .inr ⟨a, rfl, h⟩
  case call c next =>
    cases h
    case call ha => exact .inl ⟨_, _, .call ha, rfl⟩
    case move hm => exact .inl ⟨_, _, .move hm, rfl⟩
  case await c done next =>
    cases h
    case again hd ha => exact .inl ⟨_, _, .again ha hd, rfl⟩
    case done hd ha  => exact .inl ⟨_, _, .done ha hd, rfl⟩
    case move hm     => exact .inl ⟨_, _, .move hm, rfl⟩

-- A run of a composed program is a run of its first part, or goes on in the second part where the first
-- one ended.
theorem reaches_bind {f : α → Program Call Result β} {s : S} {c : Program Call Result β × S}
    (h : Reaches e (p >>= f, s) c) :
    (∃ p' t, Reaches e (p, s) (p', t) ∧ c = (p' >>= f, t)) ∨
      ∃ a t, Reaches e (p, s) (.ret a, t) ∧ Reaches e (f a, t) c := by
  induction h
  case refl => exact .inl ⟨p, s, .refl, rfl⟩
  case tail c c' _ hs hi =>
    obtain ⟨p', t, hr, rfl⟩ | ⟨a, t, hr, hf⟩ := hi
    case inr => exact .inr ⟨a, t, hr, hf.tail hs⟩
    case inl =>
      obtain ⟨p'', t', hs', rfl⟩ | ⟨a, rfl, hf⟩ := step_bind hs
      case inl => exact .inl ⟨p'', t', hr.tail hs', rfl⟩
      case inr => exact .inr ⟨a, t, hr, .single hf⟩

namespace Triple

theorem mono (h : Triple e G P p Q) (hp : ∀ s, P' s → P s) (hq : ∀ a s, Q a s → Q' a s) :
    Triple e G P' p Q' := by
  intro s hs c hr
  have ⟨hg, hq'⟩ := h s (hp s hs) c hr
  exact ⟨hg, fun a ha => hq a _ <| hq' a ha⟩

theorem of_forall {ι : Type} {P : ι → S → Prop} (h : ∀ i, Triple e G (P i) p Q) :
    Triple e G (fun s => ∃ i, P i s) p Q :=
  fun s ⟨i, hp⟩ => h i s hp

protected theorem pure {a : α} (hs : Stable e P) (hg : ∀ s, P s → G s) (hq : ∀ s, P s → Q a s) :
    Triple e G P (pure a) Q := by
  intro s hp c hr
  have hi : c.1 = .ret a ∧ P c.2 := by
    induction hr
    case refl => exact ⟨rfl, hp⟩
    case tail c c' _ hstep hi =>
      obtain ⟨p, t⟩ := c
      obtain ⟨rfl, ht⟩ := hi
      cases hstep
      case move hm => exact ⟨rfl, hs _ _ ht hm⟩
  refine ⟨hg _ hi.2, fun b hb => ?_⟩
  cases hi.1.symm.trans hb
  exact hq _ hi.2

protected theorem bind {f : α → Program Call Result β} {R : α → S → Prop} {Q : β → S → Prop}
    (h : Triple e G P p R) (hf : ∀ a, Triple e G (R a) (f a) Q) : Triple e G P (p >>= f) Q := by
  intro s hp c hc
  cases reaches_bind hc
  case inr hr =>
    obtain ⟨a, t, hr, hc⟩ := hr
    exact hf a t ((h s hp _ hr).2 a rfl) c hc
  case inl hr =>
    obtain ⟨p', t, hr, rfl⟩ := hr
    have ⟨hg, hq⟩ := h s hp _ hr
    refine ⟨hg, fun b hb => ?_⟩
    cases p'
    case ret a => exact (hf a t (hq a rfl) (f a, t) .refl).2 b hb
    case call  => cases hb
    case await => cases hb

theorem perform {c : Call} {R : Result c → S → Prop} (hs : Stable e P) (hg : ∀ s, P s → G s)
    (ha : ∀ s r t, P s → e.answers c s r t → R r t) (hr : ∀ r, Stable e (R r)) (hg' : ∀ r s, R r s → G s) :
    Triple e G P (perform c) R := by
  intro s hp c' hc
  have hi : (c'.1 = Program.perform c ∧ P c'.2) ∨ ∃ r, c'.1 = .ret r ∧ R r c'.2 := by
    induction hc
    case refl => exact .inl ⟨rfl, hp⟩
    case tail c₁ c₂ _ hstep hi =>
      obtain ⟨p, t⟩ := c₁
      obtain ⟨rfl, ht⟩ | ⟨r, rfl, ht⟩ := hi
      case inl =>
        cases hstep
        case call hc => exact .inr ⟨_, rfl, ha _ _ _ ht hc⟩
        case move hm => exact .inl ⟨rfl, hs _ _ ht hm⟩
      case inr =>
        cases hstep
        case move hm => exact .inr ⟨r, rfl, hr r _ _ ht hm⟩
  obtain ⟨he, hp⟩ | ⟨r, he, hq⟩ := hi
  case inl =>
    refine ⟨hg _ hp, fun a hb => ?_⟩
    cases he.symm.trans hb
  case inr =>
    refine ⟨hg' r _ hq, fun a hb => ?_⟩
    cases he.symm.trans hb
    exact hq

theorem waitUntil {c : Call} {done : Result c → Bool} {R : S → Prop} (hs : Stable e P) (hg : ∀ s, P s → G s)
    (ha : ∀ s r t, P s → e.answers c s r t → done r = false → P t)
    (hd : ∀ s r t, P s → e.answers c s r t → done r = true → R t) (hr : Stable e R) (hg' : ∀ s, R s → G s) :
    Triple e G P (waitUntil c done) fun _ => R := by
  intro s hp c' hc
  have hi : (c'.1 = Program.waitUntil c done ∧ P c'.2) ∨ (c'.1 = .ret () ∧ R c'.2) := by
    induction hc
    case refl => exact .inl ⟨rfl, hp⟩
    case tail c₁ c₂ _ hstep hi =>
      obtain ⟨p, t⟩ := c₁
      obtain ⟨rfl, ht⟩ | ⟨rfl, ht⟩ := hi
      case inl =>
        cases hstep
        case again hn hc => exact .inl ⟨rfl, ha _ _ _ ht hc hn⟩
        case done hy hc  => exact .inr ⟨rfl, hd _ _ _ ht hc hy⟩
        case move hm     => exact .inl ⟨rfl, hs _ _ ht hm⟩
      case inr =>
        cases hstep
        case move hm => exact .inr ⟨rfl, hr _ _ ht hm⟩
  obtain ⟨he, hp⟩ | ⟨he, hq⟩ := hi
  case inl =>
    refine ⟨hg _ hp, fun a hb => ?_⟩
    cases he.symm.trans hb
  case inr => exact ⟨hg' _ hq, fun _ _ => hq⟩

end Triple

end Program
