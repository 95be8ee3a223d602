import MhoLauncher.HookTable.Basic
import MhoLauncher.Library.X86.Run

open Bytes Memory X86

namespace HookTable

variable (m : Memory) (code returnAddr : DWord) (stolen : List Byte) (callback : DWord)

-- The instructions before and after the call of the callback.
def prologue : List Code :=
  [.pushad, .leaEaxEsp, .pushEax, .movEaxImm callback, .callEax]

def epilogue : List Code :=
  [.addEsp 4, .popad]

def epilogueAddr : DWord :=
  code + 12

def stolenAddr : DWord :=
  code + 16

def jmpAddr : DWord :=
  stolenAddr code + BitVec.ofNat 32 stolen.length

def jmpBack : Code :=
  .jmpRel <| returnAddr - (jmpAddr code stolen + 5)

def trampoline : List Byte :=
  bytes (prologue callback) ++ bytes epilogue ++ stolen ++ (jmpBack code returnAddr stolen).bytes

theorem trampoline_length : (trampoline code returnAddr stolen callback).length = 21 + stolen.length := by
  simp [trampoline, bytes, prologue, epilogue, jmpBack, Code.pushad, Code.leaEaxEsp, Code.pushEax,
    Code.movEaxImm, Code.callEax, Code.addEsp, Code.popad, Code.jmpRel]
  omega

theorem writeTrampoline_emits (h : 21 + stolen.length ≤ 2 ^ 32) :
    Emits code 0 (writeTrampoline code returnAddr stolen callback)
      (trampoline code returnAddr stolen callback) := by
  apply Emits.of_eq
  case h =>
    iterate 15 apply Emits.cons
    exact .emitRel
    all_goals simp <;> omega
  case he =>
    have ha (n : DWord) : code + (16#32 + n + 1#32) + 4#32 = code + 16#32 + n + 5#32 := by bv_omega
    simp [trampoline, bytes, prologue, epilogue, jmpBack, Code.pushad, Code.leaEaxEsp, Code.pushEax,
      Code.movEaxImm, Code.callEax, Code.addEsp, Code.popad, Code.jmpRel, jmpAddr, stolenAddr, ha]

theorem generateTrampoline_eq (h : 21 + stolen.length ≤ 2 ^ 32) :
    generateTrampoline m (some code) returnAddr stolen callback =
    (m.write code (trampoline code returnAddr stolen callback), code) := by
  have he := writeTrampoline_emits code returnAddr stolen callback h m
  rw [add_zero] at he
  rw [generateTrampoline, StateT.run, he]

section Execution

variable {s : State}

-- The values that the prologue leaves on the stack.
def frame (s : State) : List DWord :=
  let r := s.regs
  [s.eip + 12, r.esp - 32, r.edi, r.esi, r.ebp, r.esp, r.ebx, r.edx, r.ecx, r.eax]

theorem exec_prologue : exec (prologue callback) s = {
    regs   := { s.regs with esp := (s.push <| frame s).regs.esp, eax := callback }
    eip    := callback
    eflags := s.eflags
    memory := (s.push <| frame s).memory
  } := by
  have he : s.eip + 12 = s.eip + 1 + 3 + 1 + 5 + 2 := by simp [add_assoc]
  have hc : s.regs.esp - 32 = s.regs.esp - 32 + 0 := (add_zero _).symm
  have hs : s.push (frame s) =
      ((s.push <| (frame s).drop 2).push [s.regs.esp - 32 + 0]).push [s.eip + 1 + 3 + 1 + 5 + 2] := by
    rw [State.push_push (by simp), State.push_push (by simp [frame]), ←he, ←hc]
    rfl
  rw [hs]
  rfl

theorem keeps_prologue {p : Set DWord} (h : Disjoint p (below s.regs.esp 40)) :
    Keeps p (prologue callback) s := by
  refine ⟨rfl, ?_, rfl, fun _ _ => rfl, rfl, ?_, rfl, fun _ _ => rfl, trivial⟩
  · exact State.push_memory_eqOn <| h.mono_right <| below_subset (by simp) _
  · exact State.push_memory_eqOn <| h.mono_right <| below_sub_subset (by simp) _

-- The processor enters the callback, which has not changed anything yet.
structure EntersCallback (code callback : DWord) (s s₁ : State) : Prop where
  eip     : s₁.eip = callback
  ret     : s₁.stack 0 = epilogueAddr code
  context : HookContext.load s₁.memory (s₁.stack 1) = {
    edi := s.regs.edi, esi := s.regs.esi, ebp := s.regs.ebp, _esp := s.regs.esp,
    ebx := s.regs.ebx, edx := s.regs.edx, ecx := s.regs.ecx, eax := s.regs.eax
  }
  addr    : ∀ k, hookStack (s₁.stack 1) k = s.regs.esp + BitVec.ofNat 32 (4 * k)
  stack   : ∀ k, 4 * k + 44 ≤ 2 ^ 32 → s₁.memory.dword (hookStack (s₁.stack 1) k) = s.stack k
  memory  : Set.EqOn s₁.memory s.memory (below s.regs.esp 40)ᶜ

-- The processor reaches the stolen bytes, after the callback has returned in state `s₂`. The
-- registers have the values of the context, except for `esp`.
structure EntersStolen (code ctx : DWord) (s s₂ s₃ : State) : Prop where
  eip    : s₃.eip = stolenAddr code
  regs   : s₃.regs =
    let c := HookContext.load s₂.memory ctx
    { edi := c.edi, esi := c.esi, ebp := c.ebp, esp := s.regs.esp, ebx := c.ebx, edx := c.edx,
      ecx := c.ecx, eax := c.eax }
  memory : s₃.memory = s₂.memory

theorem exec_epilogue :
    exec epilogue s = {
      regs   :=
        let c := HookContext.load s.memory (s.regs.esp + 4)
        { edi := c.edi, esi := c.esi, ebp := c.ebp, esp := s.regs.esp + 4 + 32, ebx := c.ebx,
          edx := c.edx, ecx := c.ecx, eax := c.eax }
      eip    := s.eip + 3 + 1
      eflags := addFlags s.eflags s.regs.esp 4
      memory := s.memory
    } :=
  rfl

theorem prologue_entersCallback (he : s.eip = code) :
    EntersCallback code callback s (exec (prologue callback) s) := by
  have hf {i v} (h : (frame s)[i]? = some v) : (exec (prologue callback) s).stack i = v := by
    rw [exec_prologue]
    exact State.stack_push h (by simp [frame])
  have hc : (exec (prologue callback) s).stack 1 = s.regs.esp - 32 := hf rfl
  have hm : Set.EqOn (exec (prologue callback) s).memory s.memory (below s.regs.esp 40)ᶜ := by
    rw [exec_prologue]
    exact State.push_memory_eqOn_compl
  have ha (k : Nat) : hookStack (s.regs.esp - 32) k = s.regs.esp + BitVec.ofNat 32 (4 * k) := by
    rw [hookStack, sub_add_cancel]
  constructor
  case eip     => rw [exec_prologue]
  case ret     => exact (hf rfl).trans <| congrArg (· + 12) he
  case context =>
    have hd {k v} (h : (frame s)[k + 2]? = some v) :
        (exec (prologue callback) s).memory.dword (s.regs.esp - 32 + BitVec.ofNat 32 (4 * k)) = v := by
      rw [←hf h, State.stack, exec_prologue]
      have hk : BitVec.ofNat 32 (4 * (k + 2)) = BitVec.ofNat 32 (4 * k) + 8 := by
        simp [Nat.mul_add, BitVec.ofNat_add]
      have hl : s.regs.esp - 32 = s.regs.esp - 40 + 8 := by bv_omega
      rw [hk, hl, add_assoc, add_comm 8]
      rfl
    simp only [hc, HookContext.load, HookContext.mk.injEq]
    exact ⟨hd rfl, hd rfl, hd rfl, hd rfl, hd rfl, hd rfl, hd rfl, hd rfl⟩
  case addr    => exact hc ▸ ha
  case stack   =>
    intro k hk
    rw [hc, ha]
    refine dword_congr <| hm.mono ?_
    exact Set.subset_compl_iff_disjoint_right.mpr <| add_disjoint_below (by omega) _
  case memory  => exact hm

theorem epilogue_entersStolen {s₁ s₂ : State} {p : Set DWord} (hc : EntersCallback code callback s s₁)
    (hr : Cdecl p s₁ s₂) (hs : s₁.regs.esp = s.regs.esp - 40) :
    EntersStolen code (s₁.stack 1) s s₂ (exec epilogue s₂) := by
  have he : s₂.regs.esp = s.regs.esp - 36 := by rw [hr.esp, hs]; bv_omega
  have hx : s₁.stack 1 = s.regs.esp - 32 := by
    have := hc.addr 0
    simpa [hookStack, ←eq_sub_iff_add_eq] using this
  rw [exec_epilogue]
  constructor
  case eip    => simp only [hr.eip, hc.ret, epilogueAddr, stolenAddr]; bv_omega
  case memory => rfl
  case regs   =>
    have h₁ : s.regs.esp - 36 + 4 = s.regs.esp - 32 := by bv_omega
    simp only [he, hx, h₁, sub_add_cancel]

end Execution

section Loaded

variable {m : Memory} {code returnAddr : DWord} {stolen : List Byte} {callback : DWord}
    (hl : m.Loaded code <| trampoline code returnAddr stolen callback)
include hl

theorem loaded_parts :
    m.Loaded code (bytes <| prologue callback) ∧ m.Loaded (epilogueAddr code) (bytes epilogue) ∧
    m.Loaded (stolenAddr code) stolen ∧
      m.Loaded (jmpAddr code stolen) (jmpBack code returnAddr stolen).bytes := by
  have ⟨h₁, h₄⟩ := loaded_append.mp hl
  have ⟨h₁, h₃⟩ := loaded_append.mp h₁
  have ⟨h₁, h₂⟩ := loaded_append.mp h₁
  refine ⟨h₁, h₂, h₃, ?_⟩
  rwa [List.length_append, BitVec.ofNat_add, ←add_assoc] at h₄

end Loaded

-- The trampoline consists of exactly as many bytes as were allocated. It calls the callback once,
-- with the registers and the stack of the hook site, and then runs the stolen bytes with the
-- registers of the context. The stolen bytes are followed by a jump to the return address.
theorem generateTrampoline_transparent (m : Memory) (code returnAddr callback : DWord) (stolen : List Byte)
    (h : 21 + stolen.length ≤ 2 ^ 32) :
    ∃ bs : List Byte, bs.length = 21 + stolen.length ∧
      generateTrampoline m (some code) returnAddr stolen callback = (m.write code bs, code) ∧
      (m.write code bs).Loaded code bs ∧
      ∀ s : State, s.memory.Loaded code bs →
        (s.eip = code → Disjoint (range code bs.length) (below s.regs.esp 40) →
          ∃ s₁, Steps (range code 12) s s₁ ∧ EntersCallback code callback s s₁ ∧
            ∀ s₂, Cdecl (range code bs.length) s₁ s₂ →
              ∃ s₃, Steps (range (epilogueAddr code) 4) s₂ s₃ ∧ EntersStolen code (s₁.stack 1) s s₂ s₃ ∧
                s₃.memory.Loaded (stolenAddr code) stolen) ∧
        (s.eip = jmpAddr code stolen → step s = some { s with eip := returnAddr }) := by
  have hn := trampoline_length code returnAddr stolen callback
  refine ⟨_, hn, generateTrampoline_eq m code returnAddr stolen callback h,
    loaded_write (hn.trans_le h), fun s hl => ⟨?_, ?_⟩⟩
  · intro he hd
    have hs := hd.mono_left (range_subset (a := code) (k := 12) (by omega))
    refine ⟨exec (prologue callback) s, ?_, prologue_entersCallback code callback he, fun s₂ hr => ?_⟩
    · rw [←he] at hs ⊢
      exact .block (he ▸ (loaded_parts hl).left) subset_rfl (keeps_prologue callback hs)
    · have hc := prologue_entersCallback code callback he
      have hl₁ : (exec (prologue callback) s).memory.Loaded code
        (trampoline code returnAddr stolen callback) :=
        hl.congr <| hc.memory.mono <| Set.subset_compl_iff_disjoint_right.mpr hd
      have ⟨_, h₂, h₃, _⟩ := loaded_parts <| hl₁.congr hr.memory
      have he₂ : s₂.eip = epilogueAddr code := hr.eip.trans hc.ret
      refine ⟨exec epilogue s₂, ?_,
        epilogue_entersStolen code callback hc hr (by rw [exec_prologue]; rfl), h₃⟩
      rw [←he₂] at h₂ ⊢
      exact .block h₂ subset_rfl ⟨rfl, fun _ _ => rfl, trivial⟩
  · intro he
    have ⟨_, _, _, h₄⟩ := loaded_parts hl
    rw [jmpBack, ←he] at h₄
    exact step_jmpRel h₄

theorem generateTrampoline_transparent_prolog :
    ∃ bs : List Byte, bs.length = 26 ∧
      generateTrampoline (fun _ => 0) (some 0x10000) 0x400105 [0x55, 0x8B, 0xEC, 0x6A, 0xFF] 0x600000 =
        (Memory.write (fun _ => 0) 0x10000 bs, 0x10000) ∧
      let s : State := ⟨⟨1, 2, 3, 4, 0x200000, 6, 7, 8⟩, 0x10000, 0x202, Memory.write (fun _ => 0) 0x10000 bs⟩
      ∃ s₁, Steps (range 0x10000 12) s s₁ ∧ EntersCallback 0x10000 0x600000 s s₁ ∧
        let s₂ := { s₁.drop 4 with eip := s₁.stack 0 }
        ∃ s₃, Steps (range (epilogueAddr 0x10000) 4) s₂ s₃ ∧ EntersStolen 0x10000 (s₁.stack 1) s s₂ s₃ ∧
          s₃.memory.Loaded (stolenAddr 0x10000) [0x55, 0x8B, 0xEC, 0x6A, 0xFF] := by
  obtain ⟨bs, hn, hg, hl, h⟩ := generateTrampoline_transparent (fun _ => 0) 0x10000 0x400105 0x600000
    [0x55, 0x8B, 0xEC, 0x6A, 0xFF] (by simp)
  refine ⟨bs, hn, hg, ?_⟩
  intro s
  have hd : Disjoint (range 0x10000 bs.length) (below s.regs.esp 40) := by
    rw [hn, Set.disjoint_left]
    intro x hx hb
    simp only [below, mem_range, s, List.length_cons, List.length_nil] at hx hb
    bv_omega
  obtain ⟨s₁, h₁, hc, h⟩ := (h s hl).left rfl hd
  exact ⟨s₁, h₁, hc, h _ ⟨⟨rfl, (add_zero _).symm⟩, rfl, rfl, rfl, rfl, fun _ _ => rfl⟩⟩

end HookTable
