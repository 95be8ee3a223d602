import MhoLauncher.AgBuffer.Atomicity
import MhoLauncher.AgBuffer.Reads

open Bytes

namespace AgBuffer

-- A value that can be written and read back. The bytes of a block are read to a destination that holds `dst`
-- before.
inductive Item
  | u8 (v : Byte)
  | u16 (v : Word)
  | u32 (v : DWord)
  | string (s : List Byte) (nul_notMem : 0 ∉ s)
  | block (src dst : List Byte)

namespace Item

def writeOp : Item → Op
  | u8 v        => .writeU8 v
  | u16 v       => .writeU16 v
  | u32 v       => .writeU32 v
  | string s _  => .writeString s
  | block src _ => .writeData src

def readOp : Item → Op
  | u8 _          => .readU8
  | u16 _         => .readU16
  | u32 _         => .readU32
  | string ..     => .readString
  | block src dst => .readData (some dst) (BitVec.ofNat 32 src.length)

def value : Item → Out
  | u8 v          => .u8 v
  | u16 v         => .u16 v
  | u32 v         => .u32 v
  | string s _    => .string s
  | block src dst => .dst <| some <| src ++ dst.drop src.length

def bytes (σ : Platform) (e : Endianness) : Item → List Byte
  | u8 v        => [v]
  | u16 v       => toLE 2 <| swapEndianness16 σ v e
  | u32 v       => toLE 4 <| swapEndianness32 σ v e
  | string s _  => s ++ [0]
  | block src _ => src

variable {σ : Platform} {b : AgBuffer} {e : Endianness}

theorem forM_stored {p : M Unit} {w : List Byte} (hp : p b = forM w (writeU8 σ) b) (h : b.Block)
    (hr : b.RoomEach σ w.length) :
    ∃ b', ((fun _ => Out.unit) <$> p) b = some (.unit, b') ∧ b.Stored w b' := by
  have ⟨b', hb, s⟩ := h.forM_writeU8 hr
  exact ⟨b', by rw [M.map_apply, hp, hb]; rfl, s⟩

theorem write_stored (i : Item) (h : b.Block) (hr : (PublicOp.op i.writeOp).HasRoom σ b) :
    ∃ b', execPublic σ (.op i.writeOp) b = some (.unit, b') ∧ b.Stored (i.bytes σ b.endianness) b' := by
  cases i
  case u16 v      => exact forM_stored (writeU16_eq v) h <| by rw [bytes, toLE_length]; exact hr
  case u32 v      => exact forM_stored (writeU32_eq v) h <| by rw [bytes, toLE_length]; exact hr
  case string s _ => exact forM_stored (writeString_eq s) h <| by rw [bytes, List.length_append]; exact hr
  case u8 v =>
    obtain ⟨b', hb, s, _⟩ := h.writeBlock (w := [v]) (by simp) hr
    exact ⟨b', by simp [writeOp, execPublic, exec, writeU8, hb], s⟩
  case block src _ =>
    cases src
    case nil => exact ⟨b, rfl, .nil h⟩
    case cons v src =>
      obtain ⟨b', hb, s, _⟩ := h.writeBlock (w := v :: src) (by simp) <| Or.resolve_left hr <| by simp
      exact ⟨b', by simp [writeOp, execPublic, exec, writeData, hb], s⟩

theorem reads (i : Item) : Reads e (exec σ i.readOp) (i.bytes σ e) i.value := by
  cases i
  case u8 v        => exact .map <| .readU8 v
  case u16 v       => exact .map <| .readU16 v
  case u32 v       => exact .map <| .readU32 v
  case string s hs => exact .map <| .readString hs
  case block src dst =>
    intro b w' he ha
    have := ha.end_lt
    have hl : (BitVec.ofNat 32 src.length).toNat = src.length := by simp [bytes] at *; omega
    rw [readOp, exec, hl]
    exact (Reads.readData src dst).map he ha

end Item

-- The items with the byte order that is set before each of them.
abbrev Items := List (Endianness × Item)

namespace Items

def writeOps (items : Items) : List PublicOp :=
  items.flatMap fun (e, i) => [.op <| .setEndianness e, .op i.writeOp]

def readOps (items : Items) : List PublicOp :=
  items.flatMap fun (e, i) => [.op <| .setEndianness e, .op i.readOp]

def values (items : Items) : List Out :=
  items.flatMap fun (_, i) => [.unit, i.value]

def bytes (σ : Platform) (items : Items) : List Byte :=
  items.flatMap fun (e, i) => i.bytes σ e

variable {σ : Platform} {b : AgBuffer} {items : Items} {w : List Byte}

theorem run_writeOps (h : b.Block) (hr : (execPublic σ).Along (PublicOp.HasRoom σ) b items.writeOps) :
    ∃ os b', (execPublic σ).run items.writeOps b = some (os, b') ∧ b.Stored (items.bytes σ) b' := by
  induction items generalizing b
  case nil => exact ⟨[], b, rfl, .nil h⟩
  case cons item items hi =>
    have ⟨e, i⟩ := item
    have h₁ : execPublic σ (.op <| .setEndianness e) b = some (.unit, { b with endianness := e }) := rfl
    have hr₁ := hr.right _ _ h₁
    have ⟨b₂, h₂, s₂⟩ := i.write_stored (b := { b with endianness := e }) ⟨h.data_length, h.real_lt⟩ hr₁.left
    have ⟨os, b₃, h₃, s₃⟩ := hi s₂.block <| hr₁.right _ _ h₂
    have s₁ : b.Stored (i.bytes σ e) b₂ :=
      ⟨s₂.block, s₂.length_le, s₂.position, s₂.virtualLength, s₂.written, s₂.others⟩
    exact ⟨_, b₃, Machine.run_cons_some h₁ <| Machine.run_cons_some h₂ h₃, s₁.append s₃⟩

theorem run_readOps (a : b.Ahead (items.bytes σ ++ w)) :
    ∃ e, (execPublic σ).run items.readOps b =
      some (items.values, { b.skip (items.bytes σ).length with endianness := e }) := by
  induction items generalizing b
  case nil => exact ⟨b.endianness, rfl⟩
  case cons item items hi =>
    have ⟨e, i⟩ := item
    have h₁ : execPublic σ (.op <| .setEndianness e) b = some (.unit, { b with endianness := e }) := rfl
    have a₁ : Ahead { b with endianness := e } (i.bytes σ e ++ (bytes σ items ++ w)) := by
      rw [←List.append_assoc]
      exact ⟨a.bytes, a.data_le, a.virtual_le, a.end_lt⟩
    have h₂ : execPublic σ (.op i.readOp) { b with endianness := e } = some (i.value, _) := i.reads rfl a₁
    have ⟨e', h₃⟩ := hi a₁.skip
    refine ⟨e', (Machine.run_cons_some h₁ <| Machine.run_cons_some h₂ h₃).trans ?_⟩
    simp [bytes, values, skip, Nat.add_assoc]

end Items

-- The values that are read are those that have been written, and no other byte has changed.
theorem round_trip (σ : Platform) {b : AgBuffer} (hb : Reachable σ b) (items : Items)
    (hr : (execPublic σ).Along (PublicOp.HasRoom σ) b items.writeOps)
    (hp : items.bytes σ ≠ [] ∨ b.position ≤ b.virtualLength ∧ b.position ≤ b.data.length) :
    ∃ os b₁ b₂ b₃, (execPublic σ).run items.writeOps b = some (os, b₁) ∧ seek b.position b₁ = some ((), b₂) ∧
      (execPublic σ).run items.readOps b₂ = some (items.values, b₃) ∧ b₃.position = b₁.position ∧
      ∀ i < b.data.length, i < b.position ∨ b₁.position ≤ i → b₃.data[i]? = b.data[i]? := by
  have ⟨os, b₁, h₁, s⟩ := items.run_writeOps hb.block hr
  have ⟨hv, hd⟩ := s.range_le hp
  have a : Ahead { b₁ with position := b.position } (items.bytes σ ++ []) := by
    rw [List.append_nil]
    exact ⟨s.written, hd, hv, hd.trans_lt <| s.block.length_le.trans_lt s.block.real_lt⟩
  have ⟨e, h₃⟩ := Items.run_readOps a
  refine ⟨os, b₁, _, _, h₁, ?_, h₃, s.position.symm, fun i hi ho => s.others i hi <| s.position ▸ ho⟩
  rw [seek, M.modify_apply, if_neg (by omega)]

theorem round_trip_overwritten :
    ∃ b₀ b os b₁ b₂ b₃, create (.windows <| .filled 0xCD) (some [1, 2, 3, 4]) = some b₀ ∧
      seek 1 b₀ = some ((), b) ∧
      (execPublic <| .windows <| .filled 0xCD).run (Items.writeOps [(.big, .u16 0x0506), (.small, .u8 7)]) b =
        some (os, b₁) ∧ seek 1 b₁ = some ((), b₂) ∧
      (execPublic <| .windows <| .filled 0xCD).run (Items.readOps [(.big, .u16 0x0506), (.small, .u8 7)]) b₂ =
        some ([.unit, .u16 0x0506, .unit, .u8 7], b₃) := by
  have ⟨b₀, b, h₀, h, hb⟩ : ∃ b₀ b, create (.windows <| .filled 0xCD) (some [1, 2, 3, 4]) = some b₀ ∧
      seek 1 b₀ = some ((), b) ∧ Reachable (.windows <| .filled 0xCD) b ∧
      b = ⟨1, 4, 4, [1, 2, 3, 4], .small, 1⟩ := 
    ⟨_, _, rfl, rfl, ⟨some [1, 2, 3, 4], _, [.op <| .seek 1], _, by simp, rfl, rfl⟩, rfl⟩
  have hr : (execPublic <| .windows <| .filled 0xCD).Along (PublicOp.HasRoom <| .windows <| .filled 0xCD) b
      (Items.writeOps [(.big, .u16 0x0506), (.small, .u8 7)]) := by
    cases hb.right
    refine ⟨trivial, fun _ _ e => ?_⟩
    cases e
    refine ⟨.inr ⟨.inl <| by decide, by unfold FitsEach; decide, fun _ _ => rfl⟩, fun _ _ e => ?_⟩
    cases e
    refine ⟨trivial, fun _ _ e => ?_⟩
    cases e
    exact ⟨.inl <| by decide, fun _ _ _ => trivial⟩
  have ⟨os, b₁, b₂, b₃, h₁, h₂, h₃, _⟩ := round_trip (.windows <| .filled 0xCD) hb.left _ hr <|
    .inl <| by decide
  exact ⟨b₀, b, os, b₁, b₂, b₃, h₀, h, h₁, by rw [hb.right] at h₂; exact h₂, h₃⟩

-- A cursor behind the end is not restored, since `seek` does not go there, if nothing was written at it.
theorem seek_after_setLength :
    ∃ b₀ b, create (.windows <| .filled 0xCD) (some [1, 2]) = some b₀ ∧
      (execPublic <| .windows <| .filled 0xCD).run [.setLength 0] b₀ = some ([.unit], b) ∧ b.position = 2 ∧
      ∃ b₁ b₂ b₃, (execPublic <| .windows <| .filled 0xCD).run (Items.writeOps [(.small, .block [] [])]) b =
          some ([.unit, .unit], b₁) ∧ b₁.position = 2 ∧ seek b.position b₁ = some ((), b₂) ∧
        (execPublic <| .windows <| .filled 0xCD).run (Items.readOps [(.small, .block [] [])]) b₂ =
          some ([.unit, .dst <| some []], b₃) ∧ b₃.position = 0 := by
  exact ⟨_, _, rfl, rfl, rfl, _, _, _, rfl, rfl, rfl, rfl, rfl⟩

end AgBuffer
