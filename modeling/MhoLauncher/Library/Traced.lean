import Mathlib

-- A computation that sees a state and records events.
abbrev Traced (S E : Type) := StateM (S × List E)

namespace Traced

variable {S E α β : Type}

def emit (e : E) : Traced S E PUnit :=
  modify fun (s, t) => (s, t ++ [e])

-- Records that a value is taken from the state.
def look (f : S → α) (e : E) : Traced S E α :=
  fun (s, t) => (f s, s, t ++ [e])

-- In the given state the computation has a result, records events, and does not change the state.
def Yields (s : S) (p : Traced S E α) (a : α) (es : List E) : Prop :=
  ∀ t, p (s, t) = (a, s, t ++ es)

variable {s : S} {p : Traced S E α} {a : α} {b : β} {es fs : List E} {e : E}

theorem yields_pure (a : α) : Yields s (pure a : Traced S E α) a [] := by
  intro t
  rw [List.append_nil]
  rfl

theorem yields_emit : Yields s (emit e) ⟨⟩ [e] :=
  fun _ => rfl

theorem yields_look {f : S → α} : Yields s (look f e) (f s) [e] :=
  fun _ => rfl

namespace Yields

theorem bind {f : α → Traced S E β} (h : Yields s p a es) (hf : Yields s (f a) b fs) :
    Yields s (p >>= f) b (es ++ fs) := by
  intro t
  have hb : (p >>= f) (s, t) = f (p (s, t)).1 (p (s, t)).2 := rfl
  rw [hb, h t, hf, List.append_assoc]

-- The rule for a computation whose result is not used.
theorem seq {p : Traced S E PUnit} {q : Traced S E β} (h : Yields s p ⟨⟩ es) (hq : Yields s q b fs) :
    Yields s (do p; q) b (es ++ fs) :=
  h.bind hq

theorem mapM {f : α → Traced S E β} {g : α → β} {ev : α → List E} {l : List α}
    (h : ∀ a ∈ l, Yields s (f a) (g a) (ev a)) : Yields s (l.mapM f) (l.map g) (l.flatMap ev) := by
  induction l
  case nil => exact yields_pure _
  case cons a l hi =>
    rw [List.mapM_cons]
    have hl : Yields s (l.mapM f >>= fun bs => pure (g a :: bs)) (g a :: l.map g) (l.flatMap ev ++ []) :=
      Yields.bind (hi fun a ha => h a <| .tail _ ha) <| yields_pure _
    rw [List.append_nil] at hl
    exact (h a <| .head _).bind hl

end Yields

end Traced
