import Mathlib
import MhoLauncher.Library.X86.Decode

open Memory

namespace X86

-- Executes the instruction that `eip` points to. An instruction has at most 15 bytes.
def step (s : State) : Option State := do
  let (i, n) ← decode <| s.memory.read s.eip 15
  return i.exec { s with eip := s.eip + BitVec.ofNat 32 n }

-- The processor gets from one state to another, and all instructions that it executes on the way
-- start at the given addresses.
inductive Steps (p : Set DWord) : State → State → Prop
  | refl {s} : Steps p s s
  | head {s₁ s₂ s₃} : s₁.eip ∈ p → step s₁ = some s₂ → Steps p s₂ s₃ → Steps p s₁ s₃

-- The processor executes all instructions from one state on, until it leaves the given addresses.
inductive Runs (p : Set DWord) : State → State → Prop
  | exit {s} : s.eip ∉ p → Runs p s s
  | head {s₁ s₂ s₃} : s₁.eip ∈ p → step s₁ = some s₂ → Runs p s₂ s₃ → Runs p s₁ s₃

variable {s s₁ s₂ s₃ : State} {p : Set DWord} {c : Code} {cs ds : List Code}
    {vs ws : List DWord} {i k n : Nat}

theorem Steps.trans (h₁ : Steps p s₁ s₂) (h₂ : Steps p s₂ s₃) : Steps p s₁ s₃ := by
  induction h₁
  case refl            => exact h₂
  case head hp hs _ hi => exact .head hp hs <| hi h₂

theorem Steps.mono {q : Set DWord} (h : Steps p s₁ s₂) (hs : p ⊆ q) : Steps q s₁ s₂ := by
  induction h
  case refl             => exact .refl
  case head hp hs' _ hi => exact .head (hs hp) hs' hi

theorem Steps.runs (h : Steps p s₁ s₂) (he : s₂.eip ∉ p) : Runs p s₁ s₂ := by
  induction h
  case refl            => exact .exit he
  case head hp hs _ hi => exact .head hp hs <| hi he

theorem Runs.unique (h₁ : Runs p s s₁) (h₂ : Runs p s s₂) : s₁ = s₂ := by
  induction h₁
  case exit hn =>
    cases h₂
    case exit          => rfl
    case head hp _ _ _ => contradiction
  case head hp hs _ hi =>
    cases h₂
    case exit            => contradiction
    case head _ _ hs' hr => exact hi <| (Option.some.inj <| hs.symm.trans hs') ▸ hr

section Stack

-- The `n` bytes below an address.
def below (a : DWord) (n : Nat) : Set DWord :=
  range (a - BitVec.ofNat 32 n) n

theorem below_sub_subset (h : i + k ≤ n) (a : DWord) : below (a - BitVec.ofNat 32 i) k ⊆ below a n := by
  have ha : a - BitVec.ofNat 32 i - BitVec.ofNat 32 k =
    a - BitVec.ofNat 32 n + BitVec.ofNat 32 (n - (i + k)) := by
    have hn : BitVec.ofNat 32 n =
      BitVec.ofNat 32 (n - (i + k)) + (BitVec.ofNat 32 i + BitVec.ofNat 32 k) := by
      rw [←BitVec.ofNat_add, ←BitVec.ofNat_add, Nat.sub_add_cancel h]
    rw [hn]
    abel
  rw [below, below, ha]
  exact range_add_subset (by omega)

theorem below_subset (h : k ≤ n) (a : DWord) : below a k ⊆ below a n := by
  have := below_sub_subset (i := 0) (k := k) (n := n) (by omega) a
  simpa using this

theorem State.push_push (hl : 4 * (vs.length + ws.length) ≤ 2 ^ 32) :
    (s.push ws).push vs = s.push (vs ++ ws) := by
  have he : s.regs.esp - BitVec.ofNat 32 (4 * ws.length) - BitVec.ofNat 32 (4 * vs.length) =
      s.regs.esp - BitVec.ofNat 32 (4 * (vs ++ ws).length) := by
    rw [List.length_append, Nat.mul_add, BitVec.ofNat_add]
    abel
  have ha : s.regs.esp - BitVec.ofNat 32 (4 * ws.length) =
      s.regs.esp - BitVec.ofNat 32 (4 * (vs ++ ws).length) + BitVec.ofNat 32 (4 * vs.length) := by
    rw [←he]
    abel
  simp only [push, he]
  rw [ha, append_writeDWords hl]

theorem State.push_memory_eqOn (h : Disjoint p (below s.regs.esp <| 4 * vs.length)) :
    Set.EqOn (s.push vs).memory s.memory p :=
  writeDWords_eqOn h

theorem State.push_memory_eqOn_compl :
    Set.EqOn (s.push vs).memory s.memory (below s.regs.esp <| 4 * vs.length)ᶜ :=
  push_memory_eqOn disjoint_compl_left

-- An address that lies above the top of the stack does not lie below it.
theorem add_disjoint_below (h : i + k + n ≤ 2 ^ 32) (a : DWord) :
    Disjoint (range (a + BitVec.ofNat 32 i) k) (below a n) := by
  have h₁ : a + BitVec.ofNat 32 i = a - BitVec.ofNat 32 n + BitVec.ofNat 32 (n + i) := by
    rw [BitVec.ofNat_add]
    abel
  have h₂ : below a n = range (a - BitVec.ofNat 32 n + BitVec.ofNat 32 0) n := by simp [below]
  rw [h₁, h₂]
  exact (range_add_disjoint (by omega) (by omega)).symm

theorem State.stack_push {v : DWord} (h : vs[i]? = some v) (hl : 4 * vs.length ≤ 2 ^ 32) :
    (s.push vs).stack i = v :=
  dword_writeDWords h hl

-- The stack after its first `n` double words were removed.
theorem State.stack_add (he : s₂.regs.esp = s₁.regs.esp + BitVec.ofNat 32 (4 * n))
    (hm : Set.EqOn s₂.memory s₁.memory <| range (s₁.regs.esp + BitVec.ofNat 32 (4 * (n + i))) 4) :
    s₂.stack i = s₁.stack (n + i) := by
  have ha : s₂.regs.esp + BitVec.ofNat 32 (4 * i) = s₁.regs.esp + BitVec.ofNat 32 (4 * (n + i)) := by
    rw [he, Nat.mul_add, BitVec.ofNat_add, add_assoc]
  rw [stack, stack, ha]
  exact dword_congr hm

end Stack

section Block

namespace Code

-- The state after an instruction.
def next (c : Code) (s : State) : State :=
  c.instr.exec { s with eip := s.eip + BitVec.ofNat 32 c.bytes.length }

end Code

def bytes (cs : List Code) : List Byte :=
  cs.flatMap Code.bytes

@[simp]
theorem bytes_append : bytes (cs ++ ds) = bytes cs ++ bytes ds :=
  List.flatMap_append

def exec (cs : List Code) (s : State) : State :=
  cs.foldl (fun s c => c.next s) s

theorem exec_append : exec (cs ++ ds) s = exec ds (exec cs s) :=
  List.foldl_append

-- The instructions are executed one after the other, and none of them but the last one changes
-- memory at the given addresses.
def Keeps (p : Set DWord) : List Code → State → Prop
  | [],           _ => True
  | [_],          _ => True
  | c :: c' :: cs, s =>
    (c.next s).eip = s.eip + BitVec.ofNat 32 c.bytes.length ∧ Set.EqOn (c.next s).memory s.memory p ∧
    Keeps p (c' :: cs) (c.next s)

theorem Keeps.of_forall
    (h : ∀ c ∈ cs, ∀ s, (c.next s).eip = s.eip + BitVec.ofNat 32 c.bytes.length ∧
      Set.EqOn (c.next s).memory s.memory p) :
    Keeps p cs s := by
  induction cs generalizing s
  case nil => trivial
  case cons c cs hi =>
    have ⟨he, hm⟩ := h c (List.mem_cons_self ..) s
    cases cs
    case nil    => trivial
    case cons _ => exact ⟨he, hm, hi fun c hc => h c <| List.mem_cons_of_mem _ hc⟩

theorem Code.length_pos (c : Code) : 0 < c.bytes.length := by
  by_contra hn
  have h := c.decode []
  simp [List.eq_nil_of_length_eq_zero (Nat.eq_zero_of_not_pos hn), X86.decode] at h

theorem Code.decode_read {m : Memory} {a : DWord} (h : m.Loaded a c.bytes) :
    X86.decode (m.read a 15) = some (c.instr, c.bytes.length) := by
  have hr : m.read a 15 = c.bytes ++ m.read (a + BitVec.ofNat 32 c.bytes.length) (15 - c.bytes.length) := by
    conv => lhs; rw [←Nat.add_sub_cancel' c.length_le, read_add]
    rw [h]
  rw [hr, c.decode]

theorem Code.step (h : s.memory.Loaded s.eip c.bytes) : X86.step s = some (c.next s) := by
  rw [X86.step, Code.decode_read h]
  rfl

-- A jump whose displacement is relative to the end of the instruction.
theorem step_jmpRel {target : DWord} (h : s.memory.Loaded s.eip (Code.jmpRel <| target - (s.eip + 5)).bytes) :
    X86.step s = some { s with eip := target } := by
  have ht : s.eip + 5 + (target - (s.eip + 5)) = target := add_sub_cancel ..
  rw [Code.step h]
  exact congrArg (fun eip => some { s with eip }) ht

theorem Steps.block (hl : s.memory.Loaded s.eip <| bytes cs) (hp : range s.eip (bytes cs).length ⊆ p)
    (hk : Keeps p cs s) : Steps p s (exec cs s) := by
  induction cs generalizing s
  case nil => exact .refl
  case cons c cs hi =>
    have hb : bytes (c :: cs) = c.bytes ++ bytes cs := rfl
    rw [hb] at hl hp
    have ⟨h₁, h₂⟩ := loaded_append.mp hl
    have he : s.eip ∈ p := hp <| by
      have := c.length_pos
      simp [mem_range]
      omega
    refine .head he (Code.step h₁) ?_
    cases cs
    case nil => exact .refl
    case cons c' cs =>
      have ⟨h, hm, hk⟩ := hk
      have hr : range (c.next s).eip (bytes <| c' :: cs).length ⊆ p :=
        h ▸ (range_add_subset (by simp)).trans hp
      exact hi (h ▸ h₂.congr (hm.mono <| h ▸ hr)) hr hk

theorem Steps.part {a : DWord} {bs : List Byte} (hp : Part s.eip (bytes cs) a bs) (hl : s.memory.Loaded a bs)
    (hk : Keeps (range a bs.length) cs s) : Steps (range a bs.length) s (exec cs s) :=
  .block (hp.loaded hl) hp.range_subset hk

end Block

section Call

-- A function that was entered in state `s` returns in state `s'`, and has removed `n` bytes of
-- arguments from the stack.
structure Returns (n : DWord) (s s' : State) : Prop where
  eip : s'.eip = s.stack 0
  esp : s'.regs.esp = s.regs.esp + 4 + n

-- The function follows the `cdecl` convention and does not change memory at the given addresses.
structure Cdecl (p : Set DWord) (s s' : State) : Prop extends Returns 0 s s' where
  ebx    : s'.regs.ebx = s.regs.ebx
  ebp    : s'.regs.ebp = s.regs.ebp
  esi    : s'.regs.esi = s.regs.esi
  edi    : s'.regs.edi = s.regs.edi
  memory : Set.EqOn s'.memory s.memory p

-- The state after a function has returned at once.
def State.ret (s : State) : State :=
  { s.drop 4 with eip := s.stack 0 }

theorem cdecl_ret (p : Set DWord) (s : State) : Cdecl p s s.ret :=
  ⟨⟨rfl, (add_zero _).symm⟩, rfl, rfl, rfl, rfl, fun _ _ => rfl⟩

end Call

end X86
