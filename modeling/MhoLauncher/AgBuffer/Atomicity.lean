import MhoLauncher.AgBuffer.Runs

open Bytes

-- A heap that runs out of memory after `n` allocations.
def Heap.limited (n : Nat) : Heap :=
  fun k => if k < n then some fun _ => 0xCD else none

namespace AgBuffer

variable {σ : Platform} {b b' : AgBuffer} {w : List Byte} {n : Nat}

-- The operations that write to the block or change the length of the buffer.
def PublicOp.Writes : PublicOp → Prop
  | op (.writeU8 _) | op (.writeU16 _) | op (.writeU32 _) | op (.writeData _) => True
  | op (.writeRepeat ..) | op (.writeString _) | writeWstring _ | setLength _ => True
  | _                                                                         => False

-- The operation is a single request that the block has to grow for.
def PublicOp.Grows (b : AgBuffer) : PublicOp → Prop
  | op (.writeU8 _)     => b.realLength < sizeT (b.position + 1)
  | op (.writeData src) => src ≠ [] ∧ b.realLength < sizeT (b.position + src.length)
  | setLength n         => b.realLength < n.toNat
  | _                   => False

structure Unchanged (b b' : AgBuffer) : Prop where
  position      : b'.position = b.position
  virtualLength : b'.virtualLength = b.virtualLength
  realLength    : b'.realLength = b.realLength
  contents      : b'.contents = b.contents

-- No byte outside of the block is written, and if the growth for a request fails, then so does the request.
structure PublicOp.Atomic (σ : Platform) (b : AgBuffer) (o : PublicOp) : Prop where
  inside    : (execPublic σ o b).isSome
  unchanged : ∀ {out b'}, o.Grows b → σ.heap b.allocs = none →
    execPublic σ o b = some (out, b') → b.Unchanged b'

def PublicOp.AtomicWrite (σ : Platform) (b : AgBuffer) (o : PublicOp) : Prop :=
  o.Writes → o.Atomic σ b

-- The block has room for what is written, or all growths that make room for it succeed. A new length beyond
-- the block also requires a growth that succeeds.
def PublicOp.HasRoom (σ : Platform) (b : AgBuffer) : PublicOp → Prop
  | op (.writeU8 _)       => b.Room σ 1
  | op (.writeU16 _)      => b.RoomEach σ 2
  | op (.writeU32 _)      => b.RoomEach σ 4
  | op (.writeData src)   => src = [] ∨ b.Room σ src.length
  | op (.writeRepeat _ n) => b.RoomEach σ n.toNat
  | op (.writeString s)   => b.RoomEach σ (s.length + 1)
  | writeWstring s        => b.RoomEach σ (2 * s.length)
  | setLength n           => b.realLength < n.toNat → (σ.heap b.allocs).isSome ∨ n.toNat = b.virtualLength
  | _                     => True

namespace PublicOp

variable {o : PublicOp} {p : M Unit}

theorem not_room_of_grow_fails (h : b.Block) (hg : b.realLength < sizeT (b.position + n))
    (ha : σ.heap b.allocs = none) : ¬b.Room σ n := by
  have := h.length_le
  intro hr
  cases hr
  case inl hr =>
    rw [sizeT_eq <| by have := h.real_lt; omega] at hg
    omega
  case inr hr =>
    rw [ha] at hr
    exact absurd hr.right.left <| by simp

theorem atomic_iff_of_fails (ho : execPublic σ o = (fun _ => .unit) <$> p)
    (h : o.Grows b → σ.heap b.allocs = none → p b = none) : o.Atomic σ b ↔ (p b).isSome := by
  constructor
  case mp =>
    intro h
    have := h.inside
    rwa [ho, M.map_apply, Option.isSome_map] at this
  case mpr =>
    intro hs
    refine ⟨by rwa [ho, M.map_apply, Option.isSome_map], fun hg ha => ?_⟩
    rw [h hg ha] at hs
    contradiction

theorem atomic_iff_of_forM (h : b.Block) (ho : execPublic σ o = (fun _ => .unit) <$> p)
    (hp : p b = forM w (AgBuffer.writeU8 σ) b) (hg : ¬o.Grows b) : o.Atomic σ b ↔ b.RoomEach σ w.length := by
  rw [atomic_iff_of_fails ho fun h => absurd h hg, hp]
  by_cases hr : b.RoomEach σ w.length
  case neg => simp [h.forM_writeU8_fails hr, hr]
  case pos =>
    have ⟨_, he, _⟩ := h.forM_writeU8 hr
    simp [he, hr]

theorem atomic_iff_of_writeBlock (h : b.Block) (hw : w ≠ []) (ho : execPublic σ o = (fun _ => .unit) <$> p)
    (hp : p b = AgBuffer.writeBlock σ w b) (hg : o.Grows b → b.realLength < sizeT (b.position + w.length)) :
    o.Atomic σ b ↔ b.Room σ w.length := by
  rw [atomic_iff_of_fails ho
    fun hn ha => by rw [hp, h.writeBlock_fails <| not_room_of_grow_fails h (hg hn) ha], hp]
  by_cases hr : b.Room σ w.length
  case neg => simp [h.writeBlock_fails hr, hr]
  case pos =>
    have ⟨_, he, _⟩ := h.writeBlock hw hr
    simp [he, hr]

-- The length changes even if the growth for it fails.
theorem setLength_of_lt (hl : b.realLength < n) :
    AgBuffer.setLength σ n b = some ((), { b.grow σ (n - b.realLength) with virtualLength := n }) := by
  simp [AgBuffer.setLength, hl]

theorem atomic_setLength_iff {n : DWord} : (setLength n).Atomic σ b ↔ (setLength n).HasRoom σ b := by
  constructor
  case mp =>
    intro h hl
    cases ha : σ.heap b.allocs
    case some => exact .inl rfl
    case none => exact .inr (h.unchanged hl ha rfl).virtualLength
  case mpr =>
    intro h
    refine ⟨rfl, fun hl ha he => ?_⟩
    have hn := (h hl).resolve_left <| by simp [ha]
    rw [execPublic, M.map_apply, setLength_of_lt hl, grow_failed ha] at he
    cases he
    exact ⟨rfl, hn, rfl, by rw [contents, hn]; rfl⟩

theorem atomic_iff_hasRoom (h : b.Block) (hw : o.Writes) : o.Atomic σ b ↔ o.HasRoom σ b := by
  cases o
  case setLength n => exact atomic_setLength_iff
  case writeWstring str =>
    rw [HasRoom, ←flatMap_toLE_length]
    exact atomic_iff_of_forM h rfl (writeWstring_eq str) id
  case op o =>
    cases o <;> try contradiction
    case writeU8 v   =>
      exact atomic_iff_of_writeBlock (w := [v]) (p := AgBuffer.writeU8 σ v) h (by simp) rfl rfl id
    case writeU16 v  => exact atomic_iff_of_forM h rfl (writeU16_eq v) id
    case writeU32 v  => exact atomic_iff_of_forM h rfl (writeU32_eq v) id
    case writeRepeat v n =>
      refine (atomic_iff_of_forM (w := List.replicate n.toNat v) h rfl rfl id).trans ?_
      simp [HasRoom]
    case writeString str =>
      refine (atomic_iff_of_forM h rfl (writeString_eq str) id).trans ?_
      simp [HasRoom]
    case writeData src =>
      cases src
      case nil =>
        have hg : ¬(op <| .writeData []).Grows b := fun hg => hg.left rfl
        refine (atomic_iff_of_fails rfl fun h => absurd h hg).trans ?_
        simp [AgBuffer.writeData, HasRoom]
      case cons v src =>
        refine (atomic_iff_of_writeBlock (w := v :: src) h (by simp) rfl rfl And.right).trans ?_
        simp [HasRoom]

end PublicOp

-- In a run, all writes are atomic and inside of the block for as long as there is room for them. This is
-- the case for each write that follows a run, even one with writes that have failed.
theorem run_atomic_iff_hasRoom (σ : Platform) (init : Option (List Byte))
    (hi : ∀ src ∈ init, src.length < 2 ^ 32) (hb : create σ init = some b) (ops : List PublicOp) :
    ((execPublic σ).Along (PublicOp.AtomicWrite σ) b ops ↔
      (execPublic σ).Along (fun b o => o.Writes → o.HasRoom σ b) b ops) ∧
    ∀ os b', (execPublic σ).run ops b = some (os, b') →
      ∀ o : PublicOp, o.Writes → (o.Atomic σ b' ↔ o.HasRoom σ b') := by
  have h := (Block.kept σ).create (fun _ => malloc_block) hi hb
  have ht : (execPublic σ).Along (fun _ _ => True) b ops := .of_forall fun _ _ => trivial
  constructor
  case left =>
    refine ht.iff_of_invariant h (fun h _ => ?_) fun h _ _ => Block.execPublic _ _ _ _ h
    exact forall_congr' <| PublicOp.atomic_iff_hasRoom h
  case right =>
    intro os b' hr o
    exact PublicOp.atomic_iff_hasRoom <| Machine.run_invariant (fun h _ => Block.execPublic _ _ _ _ h) h ht hr

theorem run_atomic_iff_hasRoom_grown :
    (execPublic <| .windows <| .limited 2).Along (PublicOp.AtomicWrite <| .windows <| .limited 2)
      (new <| .windows <| .limited 2) [.setLength 2000, .op <| .writeU8 7] := by
  refine (run_atomic_iff_hasRoom (.windows <| .limited 2) none (by simp) rfl _).left.mpr ?_
  refine ⟨fun _ _ => .inl rfl, fun _ _ e => ?_⟩
  rw [execPublic, M.map_apply, PublicOp.setLength_of_lt (by simp [new, GROW_SIZE])] at e
  cases e
  have g := grow_allocated (σ := .windows <| .limited 2) (b := new <| .windows <| .limited 2)
    (n := (2000 : DWord).toNat - (new <| .windows <| .limited 2).realLength) rfl
  refine ⟨fun _ => .inl ?_, fun _ _ _ => trivial⟩
  rw [g.data_length, g.realLength, g.position]
  simp [new, sizeT, GROW_SIZE]

-- Without memory for a growth, `write_data` stores bytes outside of the block, and `set_length` sets a length
-- that exceeds the block.
theorem writes_not_atomic :
    ¬(PublicOp.op <| .writeData <| List.replicate 1025 0).Atomic (.windows <| .limited 1)
      (new <| .windows <| .limited 1) ∧
    ¬(PublicOp.setLength 2000).Atomic (.windows <| .limited 1) (new <| .windows <| .limited 1) := by
  have h : (new <| .windows <| .limited 1).Block := malloc_block (by simp [GROW_SIZE])
  constructor
  case left =>
    intro ha
    have hn := PublicOp.not_room_of_grow_fails (n := 1025) h (σ := .windows <| .limited 1)
      (by simp [new, GROW_SIZE, sizeT]) rfl
    have hr := ((PublicOp.atomic_iff_hasRoom h
      (o := .op <| .writeData _) trivial).mp ha).resolve_left (by simp)
    rw [List.length_replicate] at hr
    contradiction
  case right =>
    intro ha
    have := (ha.unchanged (by simp [PublicOp.Grows, new, GROW_SIZE]) rfl rfl).virtualLength
    simp [new] at this

end AgBuffer
