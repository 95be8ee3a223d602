import MhoLauncher.AgBuffer.Block

open Bytes

namespace AgBuffer

variable {σ : Platform} {b b' : AgBuffer} {w : List Byte}

-- All operations that callers can perform on a buffer.
inductive PublicOp
  | op (o : Op)
  | writeWstring (s : List Word)
  | setLength (length : DWord)

def execPublic (σ : Platform) : Machine PublicOp Out AgBuffer
  | .op o             => exec σ o
  | .writeWstring s   => (fun _ => .unit) <$> writeWstring σ s
  | .setLength length => (fun _ => .unit) <$> setLength σ length.toNat

-- The source of a `write_data` and the block of the buffer are different objects in a 32 bit address
-- space, and there is space left for the surplus of `grow`.
def PublicOp.RealSource (b : AgBuffer) : PublicOp → Prop
  | op (.writeData src) => b.realLength + src.length + GROW_SIZE < 2 ^ 32
  | _                   => True

-- The block reads check a range themselves and then copy it at once. All other operations access
-- the block by `write_u8`, `write_data` and `read_u8`.
def PublicOp.IsBlockRead : PublicOp → Prop
  | op (.readData ..) | op (.getData ..) | op (.getAllData ..) => True
  | _                                                          => False

-- Neither does an operation touch a byte outside of the block, nor does it break the invariant.
structure PublicOp.Safe (σ : Platform) (b : AgBuffer) (o : PublicOp) : Prop where
  inside   : ¬o.IsBlockRead → (execPublic σ o b).isSome
  capacity : ∀ {out b'}, execPublic σ o b = some (out, b') → b'.Capacity

-- The growth that an operation asks for does not wrap around.
def PublicOp.GrowthFits (b : AgBuffer) : PublicOp → Prop
  | op (.writeU8 _)       => b.FitsEach 1
  | op (.writeU16 _)      => b.FitsEach 2
  | op (.writeU32 _)      => b.FitsEach 4
  | op (.writeRepeat _ n) => b.FitsEach n.toNat
  | op (.writeString s)   => b.FitsEach (s.length + 1)
  | writeWstring s        => b.FitsEach (2 * s.length)
  | setLength n           => b.realLength < n.toNat → n.toNat + GROW_SIZE < 2 ^ 32
  | _                     => True

section Writes

-- If no allocation fails, then there is room unless a growth wraps around.
theorem Capacity.roomEach_iff {n : Nat} (c : b.Capacity) (hh : σ.heap.Total) :
    b.RoomEach σ n ↔ b.FitsEach n := by
  have := c.data_length
  have := c.position_le
  rw [AgBuffer.roomEach_iff c.block (by rw [Near]; omega) fun _ => c.position_le]
  exact and_iff_left fun _ _ => hh _

theorem Stored.capacity (s : b.Stored w b') (c : b.Capacity) (hw : w ≠ []) : b'.Capacity := by
  have := c.data_length
  have := c.virtual_le
  have := s.end_le hw
  have := s.length_le
  have hl := s.block.length_le
  have := List.length_pos_iff.mpr hw
  constructor
  case data_length => exact s.block.data_length.resolve_left <| List.ne_nil_of_length_pos <| by omega
  case real_lt     => exact s.block.real_lt
  case virtual_le  => rw [s.virtualLength, if_neg hw]; omega
  case position_le => rw [s.position]; omega

theorem Capacity.forM_writeU8 (c : b.Capacity) (hh : σ.heap.Total) (hf : b.FitsEach w.length) :
    ∃ b', forM w (writeU8 σ) b = some ((), b') ∧ b'.Capacity := by
  cases w
  case nil => exact ⟨b, rfl, c⟩
  case cons v w =>
    have ⟨b', h, s⟩ := c.block.forM_writeU8 <| (c.roomEach_iff hh).mpr hf
    exact ⟨b', h, s.capacity c <| by simp⟩

end Writes

section Reads

theorem Capacity.readU8 (c : b.Capacity) :
    ∃ v b', readU8 b = some (v, b') ∧ b'.Capacity ∧
      (v ≠ 0 → b.virtualLength - b.position = b'.virtualLength - b'.position + 1) := by
  have := c.data_length
  have := c.real_lt
  have := c.virtual_le
  by_cases h : b.position < b.virtualLength
  case neg => exact ⟨0, b, if_pos (by omega), c, by simp⟩
  case pos =>
    have hl : b.position < b.data.length := by omega
    have hs := sizeT_eq (n := b.position + 1) (by omega)
    refine ⟨b.data[b.position], { b with position := b.position + 1 }, ?_, c.moved (by omega), ?_⟩
    · simp [AgBuffer.readU8, Nat.not_le.mpr h, hl, hs]
    · simp; omega

theorem Capacity.readU16 (c : b.Capacity) : ∃ v b', readU16 σ b = some (v, b') ∧ b'.Capacity := by
  have ⟨_, _, h₁, c₁, _⟩ := c.readU8
  have ⟨_, _, h₂, c₂, _⟩ := c₁.readU8
  simp [AgBuffer.readU16, h₁, h₂, c₂]

theorem Capacity.readU32 (c : b.Capacity) : ∃ v b', readU32 σ b = some (v, b') ∧ b'.Capacity := by
  have ⟨_, _, h₁, c₁, _⟩ := c.readU8
  have ⟨_, _, h₂, c₂, _⟩ := c₁.readU8
  have ⟨_, _, h₃, c₃, _⟩ := c₂.readU8
  have ⟨_, _, h₄, c₄, _⟩ := c₃.readU8
  simp [AgBuffer.readU32, h₁, h₂, h₃, h₄, c₄]

theorem Capacity.readString_loop {fuel : Nat} (c : b.Capacity)
    (hf : b.virtualLength - b.position < fuel) :
    ∃ s b', readString.loop fuel b = some (s, b') ∧ b'.Capacity := by
  induction fuel generalizing b <;> simp only [readString.loop]
  case zero => contradiction
  case succ fuel hi =>
    obtain ⟨v, b₁, h₁, c₁, hd⟩ := c.readU8
    by_cases hz : v = 0#8
    case pos => exact ⟨[], b₁, by simp [h₁, hz], c₁⟩
    case neg =>
      obtain ⟨s, b₂, h₂, c₂⟩ := hi c₁ <| by have := hd hz; omega
      exact ⟨v :: s, b₂, by rw [M.bind_apply, h₁]; simp [if_neg hz, h₂], c₂⟩

theorem Capacity.readString (c : b.Capacity) : ∃ s b', readString b = some (s, b') ∧ b'.Capacity := by
  simp only [AgBuffer.readString, M.bind_apply, M.get_apply, Option.bind_some]
  exact c.readString_loop (Nat.lt_succ_self _)

-- A block read moves the cursor by at most as much as its range check has allowed.
theorem readData_moves {dst d : Dst} {n : Nat} (h : readData dst n b = some (d, b')) :
    b' = b ∨ ∃ p ≤ b.virtualLength, b' = { b with position := p } := by
  simp only [AgBuffer.readData] at h
  split at h
  · cases h; exact .inl rfl
  · split at h
    · cases h; exact .inl rfl
    · split at h
      · cases h; exact .inl rfl
      · rw [Option.bind_eq_bind, Option.bind_eq_some_iff] at h
        obtain ⟨_, _, h⟩ := h
        cases h
        exact .inr ⟨_, by omega, rfl⟩

theorem Capacity.readData {dst d : Dst} {n : Nat} (c : b.Capacity) (h : readData dst n b = some (d, b')) :
    b'.Capacity := by
  cases readData_moves h
  case inl h => exact h ▸ c
  case inr h =>
    have ⟨_, hp, h⟩ := h
    exact h ▸ c.moved (hp.trans c.virtual_le)

theorem getData_preserves {off n len : Nat} {dst d : Dst} (h : getData off n dst len b = some (d, b')) :
    b' = b := by
  simp only [getData] at h
  repeat' split at h
  all_goals try (rw [Option.bind_eq_bind, Option.bind_eq_some_iff] at h; obtain ⟨_, _, h⟩ := h)
  all_goals cases h; rfl

theorem getAllData_preserves {len : Nat} {dst d : Dst} (h : getAllData dst len b = some (d, b')) :
    b' = b := by
  simp only [getAllData] at h
  repeat' split at h
  all_goals try (rw [Option.bind_eq_bind, Option.bind_eq_some_iff] at h; obtain ⟨_, _, h⟩ := h)
  all_goals cases h; rfl

end Reads

theorem setLength_capacity_iff {n : Nat} (c : b.Capacity) (hh : σ.heap.Total) (hn : n < 2 ^ 32)
    (h : setLength σ n b = some ((), b')) :
    b'.Capacity ↔ (b.realLength < n → n + GROW_SIZE < 2 ^ 32) := by
  have := c.position_le
  simp only [setLength, M.modify_apply, Option.some.injEq, Prod.mk.injEq, true_and] at h
  by_cases hl : b.realLength < n
  case neg =>
    rw [if_neg hl] at h
    subst h
    exact ⟨fun _ => by omega, fun _ => ⟨c.data_length, c.real_lt, by simp; omega, c.position_le⟩⟩
  case pos =>
    have g := grow_grown (b := b) (n := n - b.realLength) hh
    have hr := g.realLength
    rw [show b.realLength + (n - b.realLength) + GROW_SIZE = n + GROW_SIZE by omega] at hr
    rw [if_pos hl] at h
    subst h
    constructor
    case mp =>
      intro c' _
      by_contra hw
      have := c'.virtual_le
      simp only [hr, sizeT, GROW_SIZE] at this hw
      omega
    case mpr =>
      intro hw
      have hs := sizeT_eq <| hw hl
      refine ⟨g.data_length, hr ▸ sizeT_lt _, ?_, ?_⟩ <;> simp only [g.position, hr, hs] <;> omega

namespace PublicOp

variable {o : PublicOp} {p : M α} {f : α → Out}

theorem safe_of_eq_some {a : α} (ho : execPublic σ o = f <$> p) (h : p b = some (a, b'))
    (c : b'.Capacity) : o.Safe σ b where
  inside _   := by simp [ho, h]
  capacity e := by
    rw [ho, M.map_apply, h] at e
    cases e
    exact c

theorem safe_of_isBlockRead (hb : o.IsBlockRead) (ho : execPublic σ o = f <$> p)
    (h : ∀ {a b'}, p b = some (a, b') → b'.Capacity) : o.Safe σ b where
  inside hn  := absurd hb hn
  capacity e := by
    rw [ho, M.map_apply, Option.map_eq_some_iff] at e
    obtain ⟨_, hp, he⟩ := e
    cases he
    exact h hp

theorem safe_iff_of_forM {p : M Unit} {f : Unit → Out} (hb : ¬o.IsBlockRead)
    (ho : execPublic σ o = f <$> p) (hp : p b = forM w (writeU8 σ) b) (c : b.Capacity)
    (hh : σ.heap.Total) : o.Safe σ b ↔ b.FitsEach w.length := by
  constructor
  case mp =>
    intro hs
    by_contra hf
    have := hs.inside hb
    simp [ho, hp, c.block.forM_writeU8_fails <| mt (c.roomEach_iff hh).mp hf] at this
  case mpr =>
    intro hf
    have ⟨_, h, c'⟩ := c.forM_writeU8 hh hf
    exact safe_of_eq_some ho (hp.trans h) c'

-- The reads and the operations that only change fields of a buffer are always safe.
theorem safe_iff (hs : o.RealSource b) (c : b.Capacity) (hh : σ.heap.Total) :
    o.Safe σ b ↔ o.GrowthFits b := by
  cases o
  case writeWstring str =>
    have hl : (str.flatMap <| toLE 2).length = 2 * str.length := by simp [List.length_flatMap]; omega
    rw [GrowthFits, ←hl]
    exact safe_iff_of_forM id rfl (writeWstring_eq str) c hh
  case setLength n =>
    have h : AgBuffer.setLength σ n.toNat b = some ((), _) := rfl
    rw [GrowthFits, ←setLength_capacity_iff c hh n.isLt h]
    exact ⟨fun s => s.capacity rfl, safe_of_eq_some rfl h⟩
  case op o =>
    cases o <;> simp only [GrowthFits, iff_true]
    case writeU8 v    => exact safe_iff_of_forM (w := [v]) id rfl (writeU8_eq v) c hh
    case writeU16 v   => exact (safe_iff_of_forM id rfl (writeU16_eq v) c hh).trans <| by rw [toLE_length]
    case writeU32 v   => exact (safe_iff_of_forM id rfl (writeU32_eq v) c hh).trans <| by rw [toLE_length]
    case writeRepeat v n =>
      simpa using safe_iff_of_forM (w := List.replicate n.toNat v) id rfl rfl c hh
    case writeString str =>
      simpa using safe_iff_of_forM (w := str ++ [0]) id rfl (writeString_eq str) c hh
    case writeData src =>
      cases src
      case nil => exact safe_of_eq_some rfl rfl c
      case cons v src =>
        have ⟨_, h, hw⟩ := c.writeBlock (w := v :: src) hh fun _ => hs
        exact safe_of_eq_some (p := AgBuffer.writeBlock σ (v :: src)) rfl h hw.capacity
    case seek p =>
      refine safe_of_eq_some rfl rfl (c.moved ?_)
      have := c.virtual_le
      split <;> omega
    case setEndianness e => exact safe_of_eq_some rfl rfl c.withEndianness
    case readU8          => have ⟨_, _, h, c', _⟩ := c.readU8; exact safe_of_eq_some rfl h c'
    case readU16         => have ⟨_, _, h, c'⟩ := c.readU16 (σ := σ); exact safe_of_eq_some rfl h c'
    case readU32         => have ⟨_, _, h, c'⟩ := c.readU32 (σ := σ); exact safe_of_eq_some rfl h c'
    case readString      => have ⟨_, _, h, c'⟩ := c.readString; exact safe_of_eq_some rfl h c'
    case readData        => exact safe_of_isBlockRead trivial rfl c.readData
    case getData         => exact safe_of_isBlockRead trivial rfl fun h => getData_preserves h ▸ c
    case getAllData      => exact safe_of_isBlockRead trivial rfl fun h => getAllData_preserves h ▸ c
    case getPosition     => exact safe_of_eq_some rfl rfl c
    case getLength       => exact safe_of_eq_some rfl rfl c
    case getAvailable    => exact safe_of_eq_some rfl rfl c

end PublicOp

-- As long as no growth wraps around, all states of a run satisfy the invariant and no byte outside of
-- the block is touched. The first growth that wraps around breaks this.
theorem run_safe_iff_growthFits (σ : Platform) (hh : σ.heap.Total) (init : Option (List Byte))
    (hi : ∀ src ∈ init, src.length < 2 ^ 32) :
    ∃ b, create σ init = some b ∧ b.Capacity ∧
      ∀ ops, (execPublic σ).Along PublicOp.RealSource b ops →
        ((execPublic σ).Along (PublicOp.Safe σ) b ops ↔ (execPublic σ).Along PublicOp.GrowthFits b ops) :=
  have ⟨b, hb, r⟩ := create_represents hh hi
  ⟨b, hb, r.capacity, fun _ a =>
    a.iff_of_invariant r.capacity (fun c hs => PublicOp.safe_iff hs c hh) fun _ _ hs e => hs.capacity e⟩

theorem run_safe_iff_growthFits_grown :
    ∃ b, create (.windows <| .filled 0xCD) none = some b ∧
      (execPublic <| .windows <| .filled 0xCD).Along (PublicOp.Safe <| .windows <| .filled 0xCD) b
        [.setLength 2000, .op <| .seek 1500, .op <| .writeU8 7] := by
  have ⟨b, hb, _, h⟩ :=
    run_safe_iff_growthFits (.windows <| .filled 0xCD) (Heap.filled_total _) none (by simp)
  have hr : (execPublic <| .windows <| .filled 0xCD).Along PublicOp.RealSource b
      [.setLength 2000, .op <| .seek 1500, .op <| .writeU8 7] :=
    ⟨trivial, fun _ _ _ => ⟨trivial, fun _ _ _ => ⟨trivial, fun _ _ _ => trivial⟩⟩⟩
  refine ⟨b, hb, (h _ hr).mpr ?_⟩
  cases hb
  refine ⟨fun _ => by simp [GROW_SIZE], fun _ _ e => ?_⟩
  cases e
  refine ⟨trivial, fun _ _ e => ?_⟩
  cases e
  refine ⟨?_, fun _ _ _ => trivial⟩
  simp [PublicOp.GrowthFits, FitsEach, GROW_SIZE, new, grow, sizeT, realloc, Platform.windows, Heap.filled]

-- The new length wraps around to 1023.
theorem setLength_breaks_capacity :
    ∃ b, (execPublic <| .windows <| .filled 0xCD).run [.setLength 0xFFFFFFFF]
      (new <| .windows <| .filled 0xCD) = some ([.unit], b) ∧ b.realLength = 1023 ∧ ¬b.Capacity := by
  refine ⟨_, rfl, rfl, fun c => ?_⟩
  have := c.virtual_le
  simp [grow, realloc, new, sizeT, GROW_SIZE, Platform.windows, Heap.filled] at this

end AgBuffer
