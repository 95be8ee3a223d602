import Mathlib

-- The messages that are in a queue with many producers. Only the messages of the same producer are ordered.
abbrev Channel (ι μ : Type) := ι → List μ

namespace Channel

variable {ι μ : Type} [DecidableEq ι] {c : Channel ι μ} {p q : ι} {m : μ} {rest : List μ}

def enqueue (c : Channel ι μ) (p : ι) (m : μ) : Channel ι μ :=
  Function.update c p (c p ++ [m])

-- The messages of a producer in a list of messages with their producers.
def sentBy (p : ι) (l : List (ι × μ)) : List μ :=
  l.filter (·.1 = p) |>.map Prod.snd

theorem sentBy_append (l l' : List (ι × μ)) : sentBy p (l ++ l') = sentBy p l ++ sentBy p l' := by
  rw [sentBy, List.filter_append, List.map_append]
  rfl

theorem sentBy_prefix {l l' : List (ι × μ)} (h : l <+: l') : sentBy p l <+: sentBy p l' :=
  (h.filter _).map _

theorem sentBy_self : sentBy p [(p, m)] = [m] := by
  simp [sentBy]

theorem sentBy_of_ne (h : p ≠ q) : sentBy q [(p, m)] = [] := by
  simp [sentBy, h]

theorem enqueue_apply : c.enqueue p m q = c q ++ sentBy q [(p, m)] := by
  by_cases h : p = q
  case pos => rw [←h, sentBy_self, enqueue, Function.update_self]
  case neg => rw [sentBy_of_ne h, enqueue, Function.update_of_ne (Ne.symm h), List.append_nil]

theorem dequeue_apply (h : c p = m :: rest) : c q = sentBy q [(p, m)] ++ Function.update c p rest q := by
  by_cases hq : p = q
  case pos => rw [←hq, sentBy_self, Function.update_self, h, List.singleton_append]
  case neg => rw [sentBy_of_ne hq, Function.update_of_ne (Ne.symm hq), List.nil_append]

end Channel
