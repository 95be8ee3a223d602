import MhoLauncher.CryGame.ProcessMemory
import MhoLauncher.Library.SearchTree

open Bytes

namespace CryGame.ProtocolDispatch

variable (m : ProcessMemory) (packetId : DWord)

-- The variables of the loop that looks for the lower bound of a key.
structure Descent where
  root      : DWord
  candidate : DWord

-- An iteration of the loop, unless it leaves the loop early.
def iteration (s : Descent) : Option Descent := do
  let key ← m.safeReadValue 4 (s.root + 0x10)
  if key < packetId then
    let next ← m.safeReadValue 4 (s.root + 0x0c)
    return { s with root := next }
  else
    let next ← m.safeReadValue 4 (s.root + 0x08)
    return { root := next, candidate := s.root }

-- The candidate after the loop, if the loop ends after at most `n` iterations.
def descend : Nat → Descent → Option DWord
  | 0,     s => if s.root = 0 then some s.candidate else none
  | n + 1, s =>
    if s.root = 0 then
      some s.candidate
    else
      match iteration m packetId s with
      | none   => some s.candidate
      | some s => descend n s

-- The handler definition and the value of `*node_out`, if it is set.
def protocolDispatchFindHandler (n : Nat) (dispatchPtr : DWord) : Option (DWord × Option DWord) := do
  match m.safeReadValue 4 (dispatchPtr + 0x0c) with
  | none      => return (0, none)
  | some root =>
    let treeEnd := dispatchPtr + 0x08
    let candidate ← descend m packetId n { root, candidate := treeEnd }
    if candidate = treeEnd then
      return (0, none)
    else
      let handlerDef := do
        let key ← m.safeReadValue 4 (candidate + 0x10)
        if packetId < key then none else m.safeReadValue 4 (candidate + 0x14)
      return (handlerDef.getD 0, some candidate)

-- The address of a node that the loop looks at.
inductive Visits : Descent → DWord → Prop
  | root {s}      : s.root ≠ 0 → Visits s s.root
  | next {s s' a} : s.root ≠ 0 → iteration m packetId s = some s' → Visits s' a → Visits s a

-- A node of the tree of handlers.
structure Node where
  addr  : DWord
  key   : DWord
  value : DWord

def Node.index (e : Node) : Nat :=
  e.key.toNat

-- The tree with the given root is in memory.
def Holds : DWord → BinaryTree Node → Prop
  | root, .nil        => root = 0
  | root, .node e l r => root = e.addr ∧ root ≠ 0 ∧
    m.safeReadValue 4 (root + 0x10) = some e.key ∧ m.safeReadValue 4 (root + 0x14) = some e.value ∧
    (∃ a, m.safeReadValue 4 (root + 0x08) = some a ∧ Holds a l) ∧
    ∃ a, m.safeReadValue 4 (root + 0x0c) = some a ∧ Holds a r

variable {m packetId} {s : Descent} {root a c candidate : DWord} {t : BinaryTree Node} {n : Nat}

section Sound

-- The candidate changes only to a node whose key is not below the packet id.
theorem iteration_candidate {s' : Descent} (h : iteration m packetId s = some s') :
    s'.candidate = s.candidate ∨
    s'.candidate = s.root ∧ ∃ key, m.safeReadValue 4 (s.root + 0x10) = some key ∧ packetId ≤ key := by
  simp only [iteration, Option.bind_eq_bind, Option.bind_eq_some_iff] at h
  have ⟨key, hk, h⟩ := h
  split at h
  case isTrue =>
    have ⟨_, _, h⟩ := Option.bind_eq_some_iff.mp h
    cases h
    exact .inl rfl
  case isFalse hn =>
    have ⟨_, _, h⟩ := Option.bind_eq_some_iff.mp h
    cases h
    exact .inr ⟨rfl, key, hk, BitVec.not_lt.mp hn⟩

theorem descend_candidate (h : descend m packetId n s = some c) :
    c = s.candidate ∨ Visits m packetId s c ∧
      ∃ key, m.safeReadValue 4 (c + 0x10) = some key ∧ packetId ≤ key := by
  induction n generalizing s
  case zero =>
    rw [descend, Option.ite_none_right_eq_some] at h
    exact .inl <| Option.some.inj h.right.symm
  case succ n hi =>
    rw [descend] at h
    split at h
    case isTrue => exact .inl <| Option.some.inj h.symm
    case isFalse h₀ =>
      cases hs : iteration m packetId s <;> rw [hs] at h
      case none => exact .inl <| Option.some.inj h.symm
      case some s' =>
        cases hi h
        case inr hv => exact .inr ⟨.next h₀ hs hv.left, hv.right⟩
        case inl hc =>
          subst hc
          cases iteration_candidate hs
          case inl hc => exact .inl hc
          case inr hc => exact .inr ⟨hc.left ▸ .root h₀, hc.left ▸ hc.right⟩

end Sound

section Tree

open SearchTree

theorem descend_holds (h : Holds m root t) (hn : t.height ≤ n) :
    descend m packetId n { root, candidate } =
    some ((lowerBound Node.index packetId.toNat t).elim candidate Node.addr) := by
  induction t generalizing root candidate n
  case nil => cases n <;> simp [descend, lowerBound, show root = 0 from h]
  case node e l r hl hr =>
    obtain ⟨he, h₀, hk, _, ⟨la, hla, hl'⟩, ⟨ra, hra, hr'⟩⟩ := h
    cases n
    case zero => simp at hn
    case succ n =>
      rw [BinaryTree.height, Nat.succ_le_succ_iff, max_le_iff] at hn
      rw [descend, if_neg h₀, lowerBound]
      by_cases hlt : e.key < packetId
      case pos =>
        have hs : iteration m packetId { root, candidate } = some { root := ra, candidate } := by
          simp only [iteration, hk, hra, hlt, Option.bind_eq_bind, Option.bind_some, if_true]
          rfl
        have hlt' : e.index < packetId.toNat := hlt
        rw [hs, if_pos hlt']
        exact hr hr' hn.right
      case neg =>
        have hs : iteration m packetId { root, candidate } = some { root := la, candidate := root } := by
          simp only [iteration, hk, hla, hlt, Option.bind_eq_bind, Option.bind_some, if_false]
          rfl
        have hlt' : ¬e.index < packetId.toNat := hlt
        rw [hs, if_neg hlt']
        refine (hl hl' hn.left).trans ?_
        cases lowerBound Node.index packetId.toNat l <;> simp [he]

theorem Holds.read {e : Node} (h : Holds m root t) (he : e ∈ toList t) :
    m.safeReadValue 4 (e.addr + 0x10) = some e.key ∧ m.safeReadValue 4 (e.addr + 0x14) = some e.value := by
  induction t generalizing root
  case nil => exact absurd he List.not_mem_nil
  case node e' l r hl hr =>
    have ⟨ha, _, hk, hv, ⟨_, _, hl'⟩, ⟨_, _, hr'⟩⟩ := h
    obtain rfl | he | he := mem_toList_node.mp he
    · exact ha ▸ ⟨hk, hv⟩
    · exact hl hl' he
    · exact hr hr' he

theorem lowerBound_iff {e : Node} (ho : Ordered Node.index t) :
    lowerBound Node.index packetId.toNat t = some e ↔
    e ∈ toList t ∧ packetId ≤ e.key ∧ ∀ e' ∈ toList t, packetId ≤ e'.key → e.key ≤ e'.key := by
  rw [←isLowerBound_iff ho]
  exact ⟨fun ⟨hm, hx, hl⟩ => ⟨hm, hx, hl⟩, fun ⟨hm, hx, hl⟩ => ⟨hm, hx, hl⟩⟩

-- The handler definition of a node, if the node has the given key.
def Node.handlerDef (packetId : DWord) (e : Node) : DWord :=
  if packetId < e.key then 0 else e.value

theorem protocolDispatchFindHandler_holds {dispatchPtr : DWord}
    (hr : m.safeReadValue 4 (dispatchPtr + 0x0c) = some root) (h : Holds m root t)
    (hd : ∀ e ∈ toList t, e.addr ≠ dispatchPtr + 0x08) (ho : Ordered Node.index t) (hn : t.height ≤ n) :
    protocolDispatchFindHandler m packetId n dispatchPtr =
      let e := lowerBound Node.index packetId.toNat t
      some (e.elim 0 (Node.handlerDef packetId), e.map Node.addr) := by
  simp only [protocolDispatchFindHandler, hr, descend_holds h hn, Option.bind_eq_bind, Option.bind_some]
  cases hl : lowerBound Node.index packetId.toNat t
  case none   => exact if_pos rfl
  case some e =>
    have he := (lowerBound_iff ho).mp hl |>.left
    have ⟨hk, hv⟩ := h.read he
    refine (if_neg <| hd e he).trans ?_
    by_cases hlt : packetId < e.key <;>
      simp only [Option.elim_some, hk, hv, Option.bind_some, Node.handlerDef, hlt] <;> rfl

end Tree

section Sound

theorem protocolDispatchFindHandler_sound {dispatchPtr handlerDef : DWord} {nodeOut : Option DWord}
    (h : protocolDispatchFindHandler m packetId n dispatchPtr = some (handlerDef, nodeOut))
    (hn : handlerDef ≠ 0) :
    ∃ root a, m.safeReadValue 4 (dispatchPtr + 0x0c) = some root ∧
      Visits m packetId { root, candidate := dispatchPtr + 0x08 } a ∧
      m.safeReadValue 4 (a + 0x10) = some packetId ∧ m.safeReadValue 4 (a + 0x14) = some handlerDef := by
  rw [protocolDispatchFindHandler] at h
  cases hr : m.safeReadValue 4 (dispatchPtr + 0x0c) <;> rw [hr] at h
  case none      => exact absurd (congrArg Prod.fst <| Option.some.inj h).symm hn
  case some root =>
    have ⟨c, hc, h⟩ := Option.bind_eq_some_iff.mp h
    split at h
    case isTrue => exact absurd (congrArg Prod.fst <| Option.some.inj h).symm hn
    case isFalse he =>
      have ⟨hv, key, hk, hle⟩ := (descend_candidate hc).resolve_left he
      refine ⟨root, c, rfl, hv, ?_⟩
      have h := congrArg Prod.fst <| Option.some.inj h
      simp only [hk, Option.bind_eq_bind, Option.bind_some] at h
      split at h
      case isTrue => exact absurd h.symm hn
      case isFalse hlt =>
        cases hd : m.safeReadValue 4 (c + 0x14) <;> rw [hd] at h
        case none   => exact absurd h.symm hn
        case some v =>
          exact ⟨hk.trans <| congrArg some <| BitVec.le_antisymm (BitVec.not_lt.mp hlt) hle, congrArg some h⟩

end Sound

open SearchTree in
-- The lookup terminates in a tree that is ordered by the keys, and finds the handler of the packet id and
-- the lower bound of the packet id. In any memory, a handler that it finds is stored in a node with the
-- packet id as its key.
theorem protocolDispatchFindHandler_correct (m : ProcessMemory) (packetId dispatchPtr : DWord) :
    (∀ root t, m.safeReadValue 4 (dispatchPtr + 0x0c) = some root → Holds m root t → Ordered Node.index t →
      (∀ e ∈ toList t, e.addr ≠ dispatchPtr + 0x08) →
      ∃ handlerDef nodeOut,
        (∀ n, t.height ≤ n →
          protocolDispatchFindHandler m packetId n dispatchPtr = some (handlerDef, nodeOut)) ∧
        (∀ e ∈ toList t, e.key = packetId → handlerDef = e.value) ∧
        ((∀ e ∈ toList t, e.key ≠ packetId) → handlerDef = 0) ∧
        ∀ a, nodeOut = some a ↔ ∃ e ∈ toList t, e.addr = a ∧ packetId ≤ e.key ∧
          ∀ e' ∈ toList t, packetId ≤ e'.key → e.key ≤ e'.key) ∧
    ∀ n handlerDef nodeOut,
      protocolDispatchFindHandler m packetId n dispatchPtr = some (handlerDef, nodeOut) →
      handlerDef ≠ 0 →
      ∃ root a, m.safeReadValue 4 (dispatchPtr + 0x0c) = some root ∧
        Visits m packetId { root, candidate := dispatchPtr + 0x08 } a ∧
        m.safeReadValue 4 (a + 0x10) = some packetId ∧ m.safeReadValue 4 (a + 0x14) = some handlerDef := by
  refine ⟨fun root t hr h ho hd => ?_, fun _ _ _ => protocolDispatchFindHandler_sound⟩
  refine ⟨_, _, fun n hn => protocolDispatchFindHandler_holds hr h hd ho hn,
    fun e he hk => ?_, fun hk => ?_, fun a => ?_⟩
  · have hl : lowerBound Node.index packetId.toNat t = some e :=
      (lowerBound_iff ho).mpr ⟨he, hk ▸ BitVec.le_refl _, fun _ _ hl => hk ▸ hl⟩
    rw [hl, Option.elim_some, Node.handlerDef, if_neg (hk ▸ BitVec.lt_irrefl _)]
  · cases hl : lowerBound Node.index packetId.toNat t
    case none   => rfl
    case some e =>
      have ⟨he, hle, _⟩ := (lowerBound_iff ho).mp hl
      have hlt : packetId < e.key := BitVec.lt_of_le_ne hle (hk e he).symm
      rw [Option.elim_some, Node.handlerDef, if_pos hlt]
  · rw [Option.map_eq_some_iff]
    simp only [lowerBound_iff ho]
    exact ⟨fun ⟨e, ⟨he, hle⟩, ha⟩ => ⟨e, he, ha, hle⟩, fun ⟨e, he, ha, hle⟩ => ⟨e, ⟨he, hle⟩, ha⟩⟩

open SearchTree in
-- A tree with the keys 20, 50 and 70.
theorem protocolDispatchFindHandler_correct_three_nodes :
    let m := ProcessMemory.ofDWords [(0x2000C, 0x30000),
      (0x30008, 0x30100), (0x3000C, 0x30200), (0x30010, 50), (0x30014, 0x40000),
      (0x30108, 0), (0x3010C, 0), (0x30110, 20), (0x30114, 0x40100),
      (0x30208, 0), (0x3020C, 0), (0x30210, 70), (0x30214, 0x40200)]
    protocolDispatchFindHandler m 20 2 0x20000 = some (0x40100, some 0x30100) ∧
    protocolDispatchFindHandler m 60 2 0x20000 = some (0, some 0x30200) := by
  intro m
  let leaf (e : Node) : BinaryTree Node := .node e .nil .nil
  let t : BinaryTree Node :=
    .node ⟨0x30000, 50, 0x40000⟩ (leaf ⟨0x30100, 20, 0x40100⟩) (leaf ⟨0x30200, 70, 0x40200⟩)
  have hr : m.safeReadValue 4 (0x20000 + 0x0c) = some 0x30000 := by decide
  have h : Holds m 0x30000 t := by
    refine ⟨rfl, by decide, by decide, by decide, ⟨0x30100, by decide, ?_⟩, ⟨0x30200, by decide, ?_⟩⟩
    all_goals exact ⟨rfl, by decide, by decide, by decide, ⟨0, by decide, rfl⟩, ⟨0, by decide, rfl⟩⟩
  have ho : Ordered Node.index t := by
    simp [t, leaf, Ordered, toList, Node.index]
  have hd : ∀ e ∈ toList t, e.addr ≠ 0x20000 + 0x08 := by
    simp [t, leaf, toList]
  obtain ⟨v₁, o₁, h₁, hv₁, _, ho₁⟩ := protocolDispatchFindHandler_correct m 20 0x20000 |>.left _ t hr h ho hd
  obtain ⟨v₂, o₂, h₂, _, hv₂, ho₂⟩ := protocolDispatchFindHandler_correct m 60 0x20000 |>.left _ t hr h ho hd
  have e₁ : v₁ = 0x40100 := hv₁ ⟨0x30100, 20, 0x40100⟩ (by simp [t, leaf, toList]) rfl
  have e₂ : v₂ = 0 := hv₂ <| by simp [t, leaf, toList]
  have n₁ : o₁ = some 0x30100 := (ho₁ _).mpr ⟨⟨0x30100, 20, 0x40100⟩, by simp [t, leaf, toList]⟩
  have n₂ : o₂ = some 0x30200 := (ho₂ _).mpr ⟨⟨0x30200, 70, 0x40200⟩, by simp [t, leaf, toList]⟩
  exact ⟨e₁ ▸ n₁ ▸ h₁ 2 (by decide), e₂ ▸ n₂ ▸ h₂ 2 (by decide)⟩

end CryGame.ProtocolDispatch
