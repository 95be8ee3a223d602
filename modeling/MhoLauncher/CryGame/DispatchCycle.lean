import MhoLauncher.CryGame.ProtocolDispatch
import MhoLauncher.Library.Termination

open Bytes StateTransition

namespace CryGame.ProtocolDispatch

variable (m : ProcessMemory) (packetId : DWord)

-- The address that the loop goes on with after a node.
def child (a : DWord) : Option DWord :=
  if a = 0 then
    none
  else do
    let key ← m.safeReadValue 4 (a + 0x10)
    if key < packetId then m.safeReadValue 4 (a + 0x0c) else m.safeReadValue 4 (a + 0x08)

variable {m packetId} {s s' : Descent} {n : Nat}

theorem iteration_child (h : s.root ≠ 0) :
    (iteration m packetId s).map Descent.root = child m packetId s.root := by
  rw [iteration, child, if_neg h]
  cases m.safeReadValue 4 (s.root + 0x10)
  case none => rfl
  case some key =>
    by_cases hk : key < packetId
    case pos => cases m.safeReadValue 4 (s.root + 0x0c) <;> simp [hk]
    case neg => cases m.safeReadValue 4 (s.root + 0x08) <;> simp [hk]

theorem child_none (h : s.root ≠ 0) (hs : iteration m packetId s = none) : child m packetId s.root = none :=
  iteration_child h ▸ hs ▸ rfl

theorem child_some (h : s.root ≠ 0) (hs : iteration m packetId s = some s') :
    child m packetId s.root = some s'.root :=
  iteration_child h ▸ hs ▸ rfl

theorem steps_of_descend (h : descend m packetId n s ≠ none) :
    steps (child m packetId) (n + 1) s.root = none := by
  rw [steps]
  induction n generalizing s
  case zero =>
    have h₀ : s.root = 0 := of_not_not fun h₀ => h <| if_neg h₀
    rw [child, if_pos h₀, Option.bind_none]
  case succ n hi =>
    by_cases h₀ : s.root = 0
    case pos => rw [child, if_pos h₀, Option.bind_none]
    case neg =>
      rw [descend, if_neg h₀] at h
      cases hs : iteration m packetId s <;> rw [hs] at h
      case none    => rw [child_none h₀ hs, Option.bind_none]
      case some s' => exact child_some h₀ hs ▸ hi h

theorem descend_of_steps (h : steps (child m packetId) n s.root = none) : descend m packetId n s ≠ none := by
  induction n generalizing s
  case zero => exact absurd h <| Option.some_ne_none _
  case succ n hi =>
    rw [descend]
    split
    case isTrue => exact Option.some_ne_none _
    case isFalse h₀ =>
      cases hs : iteration m packetId s
      case none    => exact Option.some_ne_none _
      case some s' =>
        rw [steps, child_some h₀ hs] at h
        exact hi h

theorem descend_stops_iff :
    (∃ n, descend m packetId n s ≠ none) ↔ ∃ n, steps (child m packetId) n s.root = none where
  mp  := fun ⟨n, h⟩ => ⟨n + 1, steps_of_descend h⟩
  mpr := fun ⟨n, h⟩ => ⟨n, descend_of_steps h⟩

theorem protocolDispatchFindHandler_ne_none {dispatchPtr root : DWord}
    (hr : m.safeReadValue 4 (dispatchPtr + 0x0c) = some root) :
    protocolDispatchFindHandler m packetId n dispatchPtr ≠ none ↔
    descend m packetId n { root, candidate := dispatchPtr + 0x08 } ≠ none := by
  rw [protocolDispatchFindHandler, hr]
  cases hd : descend m packetId n { root, candidate := dispatchPtr + 0x08 }
  case none => simp only [hd, Option.bind_eq_bind, Option.bind_none, ne_eq, not_true_eq_false]
  case some c =>
    simp only [hd, Option.bind_eq_bind, Option.bind_some]
    split <;> simp

-- In any memory, the lookup terminates if and only if no node that the keys lead to from the root lies on a
-- cycle.
theorem protocolDispatchFindHandler_stops_iff (m : ProcessMemory) (packetId dispatchPtr : DWord) :
    (∃ n, protocolDispatchFindHandler m packetId n dispatchPtr ≠ none) ↔
    ∀ root, m.safeReadValue 4 (dispatchPtr + 0x0c) = some root →
      ∀ a, Reaches (child m packetId) root a → ¬Reaches₁ (child m packetId) a a := by
  have : Finite DWord := .of_injective BitVec.toFin fun _ _ => BitVec.toFin_inj.mp
  cases hr : m.safeReadValue 4 (dispatchPtr + 0x0c)
  case none =>
    have h : protocolDispatchFindHandler m packetId 0 dispatchPtr ≠ none := by
      rw [protocolDispatchFindHandler, hr]
      exact Option.some_ne_none _
    exact ⟨fun _ _ h => (Option.some_ne_none _ h.symm).elim, fun _ => ⟨0, h⟩⟩
  case some root =>
    simp only [protocolDispatchFindHandler_ne_none hr, descend_stops_iff, stops_iff_acyclic,
      Option.some.injEq, forall_eq']

-- The left child of the root is the root itself.
theorem self_loop_never_stops :
    let m := ProcessMemory.ofDWords [(0x2000C, 0x30000), (0x30008, 0x30000), (0x30010, 50)]
    ∀ n, protocolDispatchFindHandler m 50 n 0x20000 = none := by
  intro m n
  have hr : m.safeReadValue 4 (0x20000 + 0x0c) = some 0x30000 := by decide
  have hc : child m 50 0x30000 = some 0x30000 := by decide
  by_contra h
  have h := steps_of_descend <| (protocolDispatchFindHandler_ne_none hr).mp h
  exact steps_of_cycle (.single hc) h

end CryGame.ProtocolDispatch
