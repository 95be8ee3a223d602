import MhoLauncher.Library.Memory

namespace X86

inductive Reg
  | eax
  | ecx
  | edx
  | ebx
  | esp
  | ebp
  | esi
  | edi
  deriving DecidableEq

@[ext]
structure Regs where
  eax : DWord
  ecx : DWord
  edx : DWord
  ebx : DWord
  esp : DWord
  ebp : DWord
  esi : DWord
  edi : DWord

def Regs.get (r : Regs) : Reg → DWord
  | .eax => r.eax
  | .ecx => r.ecx
  | .edx => r.edx
  | .ebx => r.ebx
  | .esp => r.esp
  | .ebp => r.ebp
  | .esi => r.esi
  | .edi => r.edi

def Regs.set (r : Regs) (v : DWord) : Reg → Regs
  | .eax => { r with eax := v }
  | .ecx => { r with ecx := v }
  | .edx => { r with edx := v }
  | .ebx => { r with ebx := v }
  | .esp => { r with esp := v }
  | .ebp => { r with ebp := v }
  | .esi => { r with esi := v }
  | .edi => { r with edi := v }

-- The state of a processor in 32 bit user mode with a flat address space. The `eflags` are those
-- flags that a program can change.
@[ext]
structure State where
  regs   : Regs
  eip    : DWord
  eflags : DWord
  memory : Memory

structure Addr where
  base  : Option Reg
  index : Option (Reg × DWord)
  disp  : DWord

inductive Operand
  | reg (r : Reg)
  | mem (a : Addr)

inductive Instr
  | nop
  | pushad
  | popad
  | pushfd
  | popfd
  | push (src : Operand)
  | pushImm (v : DWord)
  | pop (dst : Reg)
  | mov (dst src : Operand)
  | movImm (dst : Reg) (v : DWord)
  | lea (dst : Reg) (src : Addr)
  | addImm (dst : Operand) (v : DWord)
  | call (target : Operand)
  | callRel (rel : DWord)
  | jmpRel (rel : DWord)
  | ret

def Addr.eval (r : Regs) : Addr → DWord
  | ⟨none,   none,            disp⟩ => disp
  | ⟨some b, none,            disp⟩ => r.get b + disp
  | ⟨none,   some (i, scale), disp⟩ => r.get i * scale + disp
  | ⟨some b, some (i, scale), disp⟩ => r.get b + r.get i * scale + disp

def Operand.load (s : State) : Operand → DWord
  | reg r => s.regs.get r
  | mem a => s.memory.dword <| a.eval s.regs

def Operand.store (s : State) (v : DWord) : Operand → State
  | reg r => { s with regs := s.regs.set v r }
  | mem a => { s with memory := s.memory.writeDWords (a.eval s.regs) [v] }

-- Pushes the values such that the first one ends up at the top of the stack.
def State.push (s : State) (vs : List DWord) : State :=
  let esp := s.regs.esp - BitVec.ofNat 32 (4 * vs.length)
  { s with regs := { s.regs with esp }, memory := s.memory.writeDWords esp vs }

-- The `i`-th double word of the stack.
def State.stack (s : State) (i : Nat) : DWord :=
  s.memory.dword <| s.regs.esp + BitVec.ofNat 32 (4 * i)

-- Removes the given number of bytes from the stack.
def State.drop (s : State) (n : DWord) : State :=
  { s with regs := { s.regs with esp := s.regs.esp + n } }

def setFlag (flags : DWord) (i : Nat) (b : Bool) : DWord :=
  let mask := (1 : DWord) <<< i
  if b then flags ||| mask else flags &&& ~~~mask

-- The carry, parity, auxiliary carry, zero, sign and overflow flags of a sum.
def addFlags (flags x y : DWord) : DWord :=
  let sum := x + y
  let parity := (List.range 8).foldl (fun p i => p ^^ sum.getLsbD i) true
  let flags := setFlag flags 0 (sum < x)
  let flags := setFlag flags 2 parity
  let flags := setFlag flags 4 ((x ^^^ y ^^^ sum).getLsbD 4)
  let flags := setFlag flags 6 (sum = 0)
  let flags := setFlag flags 7 sum.msb
  setFlag flags 11 (x.msb = y.msb ∧ sum.msb ≠ x.msb)

-- The effect of an instruction. The `eip` already points to the next one.
def Instr.exec (s : State) : Instr → State
  | nop      => s
  | pushad   =>
    let r := s.regs
    s.push [r.edi, r.esi, r.ebp, r.esp, r.ebx, r.edx, r.ecx, r.eax]
  | popad    =>
    let regs := {
      edi := s.stack 0, esi := s.stack 1, ebp := s.stack 2, esp := s.regs.esp + 32,
      ebx := s.stack 4, edx := s.stack 5, ecx := s.stack 6, eax := s.stack 7
    }
    { s with regs }
  | pushfd        => s.push [s.eflags]
  | popfd         => { s.drop 4 with eflags := s.stack 0 }
  | push src      => s.push [src.load s]
  | pushImm v     => s.push [v]
  | pop dst       => { s with regs := (s.drop 4).regs.set (s.stack 0) dst }
  | mov dst src   => dst.store s (src.load s)
  | movImm dst v  => { s with regs := s.regs.set v dst }
  | lea dst src   => { s with regs := s.regs.set (src.eval s.regs) dst }
  | addImm dst v  => { dst.store s (dst.load s + v) with eflags := addFlags s.eflags (dst.load s) v }
  | call target   => { s.push [s.eip] with eip := target.load s }
  | callRel rel   => { s.push [s.eip] with eip := s.eip + rel }
  | jmpRel rel    => { s with eip := s.eip + rel }
  | ret           => { s.drop 4 with eip := s.stack 0 }

end X86
