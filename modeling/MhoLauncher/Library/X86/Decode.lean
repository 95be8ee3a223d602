import MhoLauncher.Library.X86.Basic

open Bytes

namespace X86

def Reg.ofBits : Nat → Reg
  | 0 => .eax
  | 1 => .ecx
  | 2 => .edx
  | 3 => .ebx
  | 4 => .esp
  | 5 => .ebp
  | 6 => .esi
  | _ => .edi

def imm32 : List Byte → Option DWord
  | b₀ :: b₁ :: b₂ :: b₃ :: _ => ofLE 32 [b₀, b₁, b₂, b₃]
  | _                         => none

-- A byte sized immediate value is sign extended.
def imm8 : List Byte → Option DWord
  | b :: _ => b.signExtend 32
  | []     => none

-- The displacement of an address and its number of bytes, as determined by the `mod` field.
def displacement (mod : Nat) (bs : List Byte) : Option (DWord × Nat) :=
  match mod with
  | 0 => some (0, 0)
  | 1 => imm8 bs |>.map (·, 1)
  | _ => imm32 bs |>.map (·, 4)

-- The address that a SIB byte and the displacement behind it stand for.
def sib (mod : Nat) : List Byte → Option (Addr × Nat)
  | []      => none
  | b :: bs =>
    let base  := b.toNat % 8
    let i     := b.toNat / 8 % 8
    let index := if i = 4 then none else some (Reg.ofBits i, (1 : DWord) <<< (b.toNat / 64))
    if base = 5 ∧ mod = 0 then
      imm32 bs |>.map fun disp => (⟨none, index, disp⟩, 5)
    else
      displacement mod bs |>.map fun (disp, n) => (⟨some <| Reg.ofBits base, index, disp⟩, n + 1)

-- The `reg` field of a ModRM byte, the operand that it selects and the number of bytes.
def modRM : List Byte → Option (Nat × Operand × Nat)
  | []      => none
  | b :: bs =>
    let mod := b.toNat / 64
    let reg := b.toNat / 8 % 8
    let rm  := b.toNat % 8
    if mod = 3 then
      some (reg, .reg <| Reg.ofBits rm, 1)
    else if rm = 4 then
      sib mod bs |>.map fun (a, n) => (reg, .mem a, n + 1)
    else if rm = 5 ∧ mod = 0 then
      imm32 bs |>.map fun disp => (reg, .mem ⟨none, none, disp⟩, 5)
    else
      displacement mod bs |>.map fun (disp, n) => (reg, .mem ⟨some <| Reg.ofBits rm, none, disp⟩, n + 1)

-- The first instruction of a sequence of bytes and its number of bytes. This covers the one and two
-- operand forms without prefixes that are in use.
def decode : List Byte → Option (Instr × Nat)
  | []       => none
  | op :: bs =>
    match op.toNat with
    | 0x60 => some (.pushad, 1)
    | 0x61 => some (.popad, 1)
    | 0x68 => imm32 bs |>.map (.pushImm ·, 5)
    | 0x6A => imm8 bs |>.map (.pushImm ·, 2)
    | 0x83 =>
      match modRM bs with
      | some (0, dst, n) => imm8 (bs.drop n) |>.map (.addImm dst ·, n + 2)
      | _                => none
    | 0x89 => modRM bs |>.map fun (reg, dst, n) => (.mov dst (.reg <| Reg.ofBits reg), n + 1)
    | 0x8B => modRM bs |>.map fun (reg, src, n) => (.mov (.reg <| Reg.ofBits reg) src, n + 1)
    | 0x8D =>
      match modRM bs with
      | some (reg, .mem a, n) => some (.lea (Reg.ofBits reg) a, n + 1)
      | _                     => none
    | 0x90 => some (.nop, 1)
    | 0x9C => some (.pushfd, 1)
    | 0x9D => some (.popfd, 1)
    | 0xA1 => imm32 bs |>.map fun a => (.mov (.reg .eax) (.mem ⟨none, none, a⟩), 5)
    | 0xA3 => imm32 bs |>.map fun a => (.mov (.mem ⟨none, none, a⟩) (.reg .eax), 5)
    | 0xC3 => some (.ret, 1)
    | 0xE8 => imm32 bs |>.map (.callRel ·, 5)
    | 0xE9 => imm32 bs |>.map (.jmpRel ·, 5)
    | 0xFF =>
      match modRM bs with
      | some (2, target, n) => some (.call target, n + 1)
      | some (6, src, n)    => some (.push src, n + 1)
      | _                   => none
    | op =>
      if op / 8 = 0x50 / 8 then
        some (.push <| .reg <| Reg.ofBits <| op % 8, 1)
      else if op / 8 = 0x58 / 8 then
        some (.pop <| Reg.ofBits <| op % 8, 1)
      else if op / 8 = 0xB8 / 8 then
        imm32 bs |>.map (.movImm (Reg.ofBits <| op % 8) ·, 5)
      else
        none

theorem imm32_toLE (v : DWord) (bs : List Byte) : imm32 (toLE 4 v ++ bs) = some v := by
  have := ofLE_toLE (n := 4) v (by simp)
  rw [toLE_four] at *
  exact congrArg some this

-- An instruction together with its encoding, which does not depend on the bytes that follow.
structure Code where
  instr     : Instr
  bytes     : List Byte
  decode    : ∀ rest, X86.decode (bytes ++ rest) = some (instr, bytes.length)
  length_le : bytes.length ≤ 15 := by simp

namespace Code

def pushad : Code := ⟨.pushad, [0x60], fun _ => rfl, by simp⟩

def popad : Code := ⟨.popad, [0x61], fun _ => rfl, by simp⟩

def pushfd : Code := ⟨.pushfd, [0x9C], fun _ => rfl, by simp⟩

def popfd : Code := ⟨.popfd, [0x9D], fun _ => rfl, by simp⟩

def nop : Code := ⟨.nop, [0x90], fun _ => rfl, by simp⟩

def ret : Code := ⟨.ret, [0xC3], fun _ => rfl, by simp⟩

def popEax : Code := ⟨.pop .eax, [0x58], fun _ => rfl, by simp⟩

def pushEax : Code := ⟨.push <| .reg .eax, [0x50], fun _ => rfl, by simp⟩

def pushImm8 (v : Byte) : Code := ⟨.pushImm <| v.signExtend 32, [0x6A, v], fun _ => rfl, by simp⟩

def leaEaxEsp : Code := ⟨.lea .eax ⟨some .esp, none, 0⟩, [0x8D, 0x04, 0x24], fun _ => rfl, by simp⟩

def movEaxEsp : Code :=
  ⟨.mov (.reg .eax) (.mem ⟨some .esp, none, 0⟩), [0x8B, 0x04, 0x24], fun _ => rfl, by simp⟩

def movEaxEspAdd (disp : Byte) : Code where
  instr    := .mov (.reg .eax) (.mem ⟨some .esp, none, disp.signExtend 32⟩)
  bytes    := [0x8B, 0x44, 0x24, disp]
  decode _ := rfl

def addEsp (v : Byte) : Code :=
  ⟨.addImm (.reg .esp) (v.signExtend 32), [0x83, 0xC4, v], fun _ => rfl, by simp⟩

def callEax : Code := ⟨.call <| .reg .eax, [0xFF, 0xD0], fun _ => rfl, by simp⟩

section Imm32

variable (v : DWord)

def pushImm32 : Code where
  instr    := .pushImm v
  bytes    := 0x68 :: toLE 4 v
  decode _ := by simp [X86.decode, imm32_toLE]

def movEaxImm : Code where
  instr    := .movImm .eax v
  bytes    := 0xB8 :: toLE 4 v
  decode _ := by simp [X86.decode, imm32_toLE, Reg.ofBits]

def callRel : Code where
  instr    := .callRel v
  bytes    := 0xE8 :: toLE 4 v
  decode _ := by simp [X86.decode, imm32_toLE]

def jmpRel : Code where
  instr    := .jmpRel v
  bytes    := 0xE9 :: toLE 4 v
  decode _ := by simp [X86.decode, imm32_toLE]

def movMemEax : Code where
  instr    := .mov (.mem ⟨none, none, v⟩) (.reg .eax)
  bytes    := 0xA3 :: toLE 4 v
  decode _ := by simp [X86.decode, imm32_toLE]

def movMemEcx : Code where
  instr    := .mov (.mem ⟨none, none, v⟩) (.reg .ecx)
  bytes    := 0x89 :: 0x0D :: toLE 4 v
  decode _ := by simp [X86.decode, modRM, imm32_toLE, Reg.ofBits]

def movMemEdx : Code where
  instr    := .mov (.mem ⟨none, none, v⟩) (.reg .edx)
  bytes    := 0x89 :: 0x15 :: toLE 4 v
  decode _ := by simp [X86.decode, modRM, imm32_toLE, Reg.ofBits]

def movMemEsp : Code where
  instr    := .mov (.mem ⟨none, none, v⟩) (.reg .esp)
  bytes    := 0x89 :: 0x25 :: toLE 4 v
  decode _ := by simp [X86.decode, modRM, imm32_toLE, Reg.ofBits]

def callMem : Code where
  instr    := .call <| .mem ⟨none, none, v⟩
  bytes    := 0xFF :: 0x15 :: toLE 4 v
  decode _ := by simp [X86.decode, modRM, imm32_toLE]

def pushMem : Code where
  instr    := .push <| .mem ⟨none, none, v⟩
  bytes    := 0xFF :: 0x35 :: toLE 4 v
  decode _ := by simp [X86.decode, modRM, imm32_toLE]

end Imm32

end Code

end X86
