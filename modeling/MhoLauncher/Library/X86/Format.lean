import Mathlib
import MhoLauncher.Library.X86.Decode

open Bytes

namespace X86

-- The sizes of an operand and of an address. They are four bytes each, unless a prefix makes them two.
structure Sizes where
  operand : Nat
  address : Nat

-- What follows the opcode and the address of an instruction.
inductive Imm
  | none
  | byte
  | word
  | enter
  | full
  | far
  | offset

def Imm.size (s : Sizes) : Imm → Nat
  | none   => 0
  | byte   => 1
  | word   => 2
  | enter  => 3
  | full   => s.operand
  | far    => s.operand + 2
  | offset => s.address

inductive OpMap
  | primary
  | secondary
  | extended
  deriving DecidableEq

-- The parts of an instruction that its effect on the `eip` depends on, and its number of bytes.
structure Format where
  map    : OpMap
  opcode : Byte
  modRM  : Option Byte
  length : Nat

def prefixes : List Byte :=
  [0xF0, 0xF2, 0xF3, 0x26, 0x2E, 0x36, 0x3E, 0x64, 0x65, 0x66, 0x67]

def displacementSize (mod : Nat) (s : Sizes) : Nat :=
  match mod with
  | 0 => 0
  | 1 => 1
  | _ => s.address

-- The number of bytes of a ModRM byte and of the SIB byte and the displacement behind it.
def modRMSize (s : Sizes) : List Byte → Option Nat
  | []      => none
  | b :: bs =>
    let mod := b.toNat / 64
    let rm  := b.toNat % 8
    if mod = 3 then
      some 1
    else if s.address = 2 then
      some <| 1 + if mod = 0 ∧ rm = 6 then 2 else displacementSize mod s
    else if rm = 4 then
      bs.head?.map fun sib => 2 + if mod = 0 ∧ sib.toNat % 8 = 5 then 4 else displacementSize mod s
    else
      some <| 1 + if mod = 0 ∧ rm = 5 then 4 else displacementSize mod s

-- An instruction whose first `n` bytes end with the opcode. The immediate operand may depend on the `reg`
-- field.
def instruction (s : Sizes) (map : OpMap) (n : Nat) (op : Byte) (hasModRM : Bool) (imm : Nat → Imm)
    (bs : List Byte) : Option Format :=
  if hasModRM then do
    let b ← bs.head?
    let k ← modRMSize s bs
    return ⟨map, op, b, n + k + (imm <| b.toNat / 8 % 8).size s⟩
  else
    some ⟨map, op, none, n + (imm 0).size s⟩

def primaryModRM (op : Nat) : Bool :=
  (op < 0x40 ∧ op % 8 < 4) ∨ (0x80 ≤ op ∧ op < 0x90) ∨ (0xD0 ≤ op ∧ op < 0xD4) ∨ (0xD8 ≤ op ∧ op < 0xE0) ∨
    op ∈ [0x62, 0x63, 0x69, 0x6B, 0xC0, 0xC1, 0xC4, 0xC5, 0xC6, 0xC7, 0xF6, 0xF7, 0xFE, 0xFF]

def primaryImm (op reg : Nat) : Imm :=
  if op < 0x40 then
    if op % 8 = 4 then .byte else if op % 8 = 5 then .full else .none
  else if (0xB8 ≤ op ∧ op < 0xC0) ∨ op ∈ [0x68, 0x69, 0x81, 0xA9, 0xC7, 0xE8, 0xE9] then
    .full
  else if (0x70 ≤ op ∧ op < 0x80) ∨ (0xB0 ≤ op ∧ op < 0xB8) ∨ (0xE0 ≤ op ∧ op < 0xE8) ∨
      op ∈ [0x6A, 0x6B, 0x80, 0x82, 0x83, 0xA8, 0xC0, 0xC1, 0xC6, 0xCD, 0xD4, 0xD5, 0xEB] then
    .byte
  else if op ∈ [0x9A, 0xEA] then
    .far
  else if 0xA0 ≤ op ∧ op < 0xA4 then
    .offset
  else if op ∈ [0xC2, 0xCA] then
    .word
  else if op = 0xC8 then
    .enter
  else if op = 0xF6 ∧ reg < 2 then
    .byte
  else if op = 0xF7 ∧ reg < 2 then
    .full
  else
    .none

def secondaryUndefined : List Nat :=
  [0x04, 0x0A, 0x0C, 0x24, 0x25, 0x26, 0x27, 0x36, 0x38, 0x39, 0x3A, 0x3B, 0x3C, 0x3D, 0x3E, 0x3F, 0x7A, 0x7B,
    0xA6, 0xA7]

-- The instructions that move control and debug registers have a byte that never stands for an address.
def secondaryModRM (op : Nat) : Bool :=
  ¬((0x20 ≤ op ∧ op < 0x24) ∨ (0x30 ≤ op ∧ op < 0x38) ∨ (0x80 ≤ op ∧ op < 0x90) ∨ (0xC8 ≤ op ∧ op < 0xD0) ∨
    op ∈ [0x05, 0x06, 0x07, 0x08, 0x09, 0x0B, 0x0E, 0x77, 0xA0, 0xA1, 0xA2, 0xA8, 0xA9, 0xAA])

def secondaryImm (op : Nat) : Imm :=
  if 0x80 ≤ op ∧ op < 0x90 then
    .full
  else if (0x20 ≤ op ∧ op < 0x24) ∨ (0x70 ≤ op ∧ op < 0x74) ∨
      op ∈ [0x0F, 0xA4, 0xAC, 0xBA, 0xC2, 0xC4, 0xC5, 0xC6] then
    .byte
  else
    .none

-- The opcodes behind 0F.
def secondary (s : Sizes) : List Byte → Option Format
  | 0x38 :: op :: bs => instruction s .extended 3 op true (fun _ => .none) bs
  | 0x3A :: op :: bs => instruction s .extended 3 op true (fun _ => .byte) bs
  | op :: bs         =>
    if op.toNat ∈ secondaryUndefined then none else
      instruction s .secondary 2 op (secondaryModRM op.toNat) (fun _ => secondaryImm op.toNat) bs
  | []               => none

-- The opcodes behind a VEX or EVEX prefix with `n` bytes. There are immediate operands in the third map,
-- and those of some opcodes in the first one.
def vector (s : Sizes) (n map : Nat) : List Byte → Option Format
  | op :: bs =>
    let imm := if map = 3 then .byte else if map = 1 then secondaryImm op.toNat else .none
    instruction s .extended (n + 1) op (¬(map = 1 ∧ op = 0x77)) (fun _ => imm) bs
  | []       => none

def vectorPrefix (s : Sizes) : List Byte → Option Format
  | 0xC5 :: _ :: bs           => vector s 2 1 bs
  | 0xC4 :: b :: _ :: bs      => vector s 3 (b.toNat % 32) bs
  | 0x62 :: b :: _ :: _ :: bs => vector s 4 (b.toNat % 8) bs
  | _                         => none

def opcode (s : Sizes) : List Byte → Option Format
  | []       => none
  | op :: bs =>
    if op = 0x0F then
      secondary s bs
    else if op ∈ [0x62, 0xC4, 0xC5] ∧ bs.head?.any (0xC0 ≤ ·) then
      vectorPrefix s <| op :: bs
    else
      instruction s .primary 1 op (primaryModRM op.toNat) (primaryImm op.toNat) bs

-- The first instruction of a sequence of bytes, in 32 bit mode.
def format (bs : List Byte) : Option Format := do
  let ps := bs.takeWhile (· ∈ prefixes)
  let s  := ⟨if 0x66 ∈ ps then 2 else 4, if 0x67 ∈ ps then 2 else 4⟩
  let f ← opcode s <| bs.drop ps.length
  let length := ps.length + f.length
  if length ≤ 15 then some { f with length } else none

namespace Format

-- `loop`, `loope`, `loopne` and `jecxz`
def isLoop (f : Format) : Bool :=
  f.map = .primary ∧ 0xE0 ≤ f.opcode ∧ f.opcode ≤ 0xE3

def isNearJcc (f : Format) : Bool :=
  f.map = .secondary ∧ 0x80 ≤ f.opcode ∧ f.opcode ≤ 0x8F

def isXBegin (f : Format) : Bool :=
  f.map = .primary ∧ f.opcode = 0xC7 ∧ f.modRM = some 0xF8

-- The operand is relative to the `eip`.
def isRelative (f : Format) : Bool :=
  f.isLoop ∨ f.isNearJcc ∨ f.isXBegin ∨
    f.map = .primary ∧ ((0x70 ≤ f.opcode ∧ f.opcode ≤ 0x7F) ∨ f.opcode ∈ [0xE8, 0xE9, 0xEB])

end Format

-- The bytes of an instruction.
structure Encoding where
  bytes     : List Byte
  format    : Format
  format_eq : X86.format bytes = some format
  length_eq : format.length = bytes.length

variable {s : Sizes} {bs : List Byte} {f : Format}

theorem instruction_opcode {map : OpMap} {n : Nat} {op : Byte} {hasModRM : Bool} {imm : Nat → Imm}
    (h : instruction s map n op hasModRM imm bs = some f) : f.opcode = op := by
  rw [instruction] at h
  cases hasModRM
  case false =>
    cases h
    rfl
  case true =>
    obtain ⟨b, _, h⟩ := Option.bind_eq_some_iff.mp h
    obtain ⟨k, _, h⟩ := Option.bind_eq_some_iff.mp h
    cases h
    rfl

theorem secondary_opcode (h : secondary s bs = some f) : f.opcode ∈ bs := by
  unfold secondary at h
  split at h
  case h_1 => simp [instruction_opcode h]
  case h_2 => simp [instruction_opcode h]
  case h_3 =>
    split at h
    case isTrue  => cases h
    case isFalse => simp [instruction_opcode h]
  case h_4 => cases h

theorem vector_opcode {n map : Nat} (h : vector s n map bs = some f) : f.opcode ∈ bs := by
  unfold vector at h
  split at h
  case h_1 => simp [instruction_opcode h]
  case h_2 => cases h

theorem vectorPrefix_opcode (h : vectorPrefix s bs = some f) : f.opcode ∈ bs := by
  unfold vectorPrefix at h
  split at h
  case h_1 => simp [vector_opcode h]
  case h_2 => simp [vector_opcode h]
  case h_3 => simp [vector_opcode h]
  case h_4 => cases h

theorem opcode_mem (h : opcode s bs = some f) : f.opcode ∈ bs := by
  cases bs
  case nil => cases h
  case cons op bs =>
    rw [opcode] at h
    split at h
    case isTrue => exact .tail _ <| secondary_opcode h
    case isFalse =>
      split at h
      case isTrue  => exact vectorPrefix_opcode h
      case isFalse => exact instruction_opcode h ▸ .head _

theorem format_opcode_mem (h : format bs = some f) : f.opcode ∈ bs := by
  obtain ⟨g, hg, h⟩ := Option.bind_eq_some_iff.mp h
  have hm := List.mem_of_mem_drop <| opcode_mem hg
  dsimp only at h
  split at h
  case isTrue  => cases h; exact hm
  case isFalse => cases h

theorem Encoding.opcode_mem (e : Encoding) : e.format.opcode ∈ e.bytes :=
  format_opcode_mem e.format_eq

section Decode

variable {op : Byte}

-- The sizes of an instruction without prefixes.
def Sizes.default : Sizes := ⟨4, 4⟩

theorem displacement_size {mod n : Nat} {d : DWord} (h : displacement mod bs = some (d, n)) :
    n = displacementSize mod .default := by
  unfold displacement at h
  split at h
  case h_1 => cases h; rfl
  case h_2 =>
    obtain ⟨_, _, he⟩ := Option.map_eq_some_iff.mp h
    cases he
    rfl
  case h_3 h₀ h₁ =>
    obtain ⟨_, _, he⟩ := Option.map_eq_some_iff.mp h
    cases he
    unfold displacementSize
    split <;> first | contradiction | rfl

theorem displacementSize_le (mod : Nat) : displacementSize mod .default ≤ 4 := by
  unfold displacementSize
  split <;> decide

theorem modRM_size {reg n : Nat} {o : Operand} (h : modRM bs = some (reg, o, n)) :
    ∃ b, bs.head? = some b ∧ reg = b.toNat / 8 % 8 ∧ modRMSize .default bs = some n ∧ n ≤ 6 := by
  cases bs
  case nil => cases h
  case cons b bs =>
    refine ⟨b, rfl, ?_⟩
    have hd := displacementSize_le (b.toNat / 64)
    have h2 : ¬Sizes.default.address = 2 := by decide
    simp only [modRM] at h
    simp only [modRMSize]
    split at h
    case isTrue hm => cases h; simp [hm]
    case isFalse hm =>
      rw [if_neg hm, if_neg h2]
      split at h
      case isTrue hr =>
        rw [if_pos hr]
        obtain ⟨⟨a, k⟩, hs, he⟩ := Option.map_eq_some_iff.mp h
        cases he
        cases bs
        case nil => cases hs
        case cons sb bs =>
          refine ⟨rfl, ?_⟩
          simp only [sib] at hs
          simp only [List.head?_cons, Option.map_some, Option.some_inj]
          split at hs
          case isTrue hb =>
            obtain ⟨_, _, he⟩ := Option.map_eq_some_iff.mp hs
            cases he
            rw [if_pos hb.symm]
            decide
          case isFalse hb =>
            obtain ⟨⟨_, _⟩, hp, he⟩ := Option.map_eq_some_iff.mp hs
            cases he
            rw [if_neg fun h => hb h.symm, displacement_size hp]
            omega
      case isFalse hr =>
        rw [if_neg hr]
        split at h
        case isTrue hb =>
          obtain ⟨_, _, he⟩ := Option.map_eq_some_iff.mp h
          cases he
          rw [if_pos hb.symm]
          simp
        case isFalse hb =>
          obtain ⟨⟨_, _⟩, hp, he⟩ := Option.map_eq_some_iff.mp h
          cases he
          rw [if_neg fun h => hb h.symm, displacement_size hp, Nat.add_comm]
          simp
          omega

theorem format_primary {f : Format} (hp : op ∉ 0x0F :: 0x62 :: 0xC4 :: 0xC5 :: prefixes)
    (hf : instruction .default .primary 1 op (primaryModRM op.toNat) (primaryImm op.toNat) bs = some f)
    (hl : f.length ≤ 15) : format (op :: bs) = some f := by
  have h : op ≠ 0x0F ∧ op ∉ [0x62, 0xC4, 0xC5] ∧ op ∉ prefixes := by simp_all
  have ht : (op :: bs).takeWhile (· ∈ prefixes) = [] :=
    List.takeWhile_cons_of_neg <| by simpa using h.right.right
  have ho : opcode .default (op :: bs) = some f := by
    rw [opcode, if_neg h.left, if_neg fun hv => h.right.left hv.left, hf]
  rw [format, ht]
  simp only [List.not_mem_nil, if_false, List.length_nil, List.drop_zero]
  rw [show (⟨4, 4⟩ : Sizes) = .default from rfl, ho]
  simp [hl]

def Instr.isRelative : Instr → Bool
  | callRel _ | jmpRel _ => true
  | _                    => false

-- An instruction with a ModRM byte whose immediate operand has `k` bytes.
theorem format_modRM (op : Byte) (k : Nat) {reg n : Nat} {o : Operand}
    (hp : op ∉ 0x0F :: 0x62 :: 0xC4 :: 0xC5 :: prefixes) (hm : primaryModRM op.toNat) (h : modRM bs = some (reg, o, n))
    (hk : (primaryImm op.toNat reg).size .default = k) (hl : k ≤ 4) :
    ∃ b, format (op :: bs) = some ⟨.primary, op, b, 1 + n + k⟩ := by
  obtain ⟨b, hb, hr, hs, hn⟩ := modRM_size h
  refine ⟨some b, format_primary hp ?_ <| by show 1 + n + k ≤ 15; omega⟩
  rw [instruction, if_pos hm, hb, hs, ←hk, hr]
  rfl

-- The upper five bits of the opcodes that contain a register, and the lengths of the instructions.
def registerForms : List (Nat × Nat) :=
  [(0x50 / 8, 1), (0x58 / 8, 1), (0xB8 / 8, 5)]

theorem registerForms_opcode : ∀ r ∈ registerForms, ∀ op : Byte, op.toNat / 8 = r.1 →
    op ∉ 0x0F :: 0x62 :: 0xC4 :: 0xC5 :: prefixes ∧ primaryModRM op.toNat = false ∧
    1 + (primaryImm op.toNat 0).size .default = r.2 ∧ r.2 ≤ 15 ∧
    (Format.mk .primary op none r.2).isRelative = false := by
  decide +kernel

theorem format_register {r : Nat × Nat} (hr : r ∈ registerForms) (h : op.toNat / 8 = r.1) :
    ∃ f, format (op :: bs) = some f ∧ f.length = r.2 ∧ f.isRelative = false := by
  obtain ⟨hp, hm, hn, hl, hi⟩ := registerForms_opcode r hr op h
  refine ⟨⟨.primary, op, none, r.2⟩, format_primary hp ?_ hl, rfl, hi⟩
  rw [instruction, hm, hn]
  rfl

theorem format_of_decode {i : Instr} {n : Nat} (h : decode bs = some (i, n)) :
    ∃ f, format bs = some f ∧ f.length = n ∧ f.isRelative = i.isRelative := by
  cases bs
  case nil => cases h
  case cons op bs =>
    have he {k : Nat} (h : op.toNat = k) : op = BitVec.ofNat 8 k := by
      rw [←h, BitVec.ofNat_toNat, BitVec.setWidth_eq]
    simp only [decode] at h
    split at h
    all_goals
      rename_i ho
      try obtain rfl := he ho
    case h_5 =>
      split at h
      case h_1 hm =>
        obtain ⟨_, _, h⟩ := Option.map_eq_some_iff.mp h
        cases h
        obtain ⟨b, hf⟩ := format_modRM 0x83 1 (by decide) rfl hm rfl (by decide)
        exact ⟨_, hf, by simp only; omega, rfl⟩
      case h_2 => cases h
    case h_6 =>
      obtain ⟨⟨_, _, _⟩, hm, h⟩ := Option.map_eq_some_iff.mp h
      cases h
      obtain ⟨b, hf⟩ := format_modRM 0x89 0 (by decide) rfl hm rfl (by decide)
      exact ⟨_, hf, Nat.add_comm 1 _, rfl⟩
    case h_7 =>
      obtain ⟨⟨_, _, _⟩, hm, h⟩ := Option.map_eq_some_iff.mp h
      cases h
      obtain ⟨b, hf⟩ := format_modRM 0x8B 0 (by decide) rfl hm rfl (by decide)
      exact ⟨_, hf, Nat.add_comm 1 _, rfl⟩
    case h_8 =>
      split at h
      case h_1 hm =>
        cases h
        obtain ⟨b, hf⟩ := format_modRM 0x8D 0 (by decide) rfl hm rfl (by decide)
        exact ⟨_, hf, Nat.add_comm 1 _, rfl⟩
      case h_2 => cases h
    case h_17 =>
      split at h
      case h_1 hm =>
        cases h
        obtain ⟨b, hf⟩ := format_modRM 0xFF 0 (by decide) rfl hm rfl (by decide)
        exact ⟨_, hf, Nat.add_comm 1 _, rfl⟩
      case h_2 hm =>
        cases h
        obtain ⟨b, hf⟩ := format_modRM 0xFF 0 (by decide) rfl hm rfl (by decide)
        exact ⟨_, hf, Nat.add_comm 1 _, rfl⟩
      case h_3 => cases h
    case h_18 =>
      -- The register is a part of these opcodes.
      split at h
      case isTrue hr =>
        cases h
        exact format_register (r := (0x50 / 8, 1)) (by decide) hr
      case isFalse =>
        split at h
        case isTrue hr =>
          cases h
          exact format_register (r := (0x58 / 8, 1)) (by decide) hr
        case isFalse =>
          split at h
          case isTrue hr =>
            obtain ⟨_, _, h⟩ := Option.map_eq_some_iff.mp h
            cases h
            exact format_register (r := (0xB8 / 8, 5)) (by decide) hr
          case isFalse => cases h
    all_goals
      first
      | cases h
      | obtain ⟨_, _, h⟩ := Option.map_eq_some_iff.mp h
        cases h
      exact ⟨_, format_primary (by decide) rfl (by decide), rfl, rfl⟩

-- The encoding of an instruction that the processor executes.
theorem Code.exists_encoding (c : Code) :
    ∃ e : Encoding, e.bytes = c.bytes ∧ e.format.isRelative = c.instr.isRelative := by
  have h := c.decode []
  rw [List.append_nil] at h
  obtain ⟨f, hf, hl, hr⟩ := format_of_decode h
  exact ⟨⟨c.bytes, f, hf, hl⟩, rfl, hr⟩

end Decode

end X86
