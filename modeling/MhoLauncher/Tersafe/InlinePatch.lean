import Mathlib
import MhoLauncher.Library.X86.Format
import MhoLauncher.Library.X86.Run

open Bytes Memory X86

namespace Tersafe

-- The bytes that must not occur among the first five.
def isRejected (b : Byte) : Bool :=
  b = 0xE8 ∨ b = 0xE9 ∨ b = 0xEB ∨ (0x70 ≤ b ∧ b ≤ 0x7F) ∨ b = 0xC3 ∨ b = 0xC2

def safeToHotpatch (bytes : List Byte) : Bool :=
  bytes.take 5 |>.all (!isRejected ·)

-- What is logged about a patch.
inductive Report
  | notRelocatable (bytes : List Byte)
  | allocFailed
  | protectFailed
  | patched (target hook tramp : DWord)

structure Patched where
  memory : Memory
  result : DWord
  report : Report

-- Writes the first bytes of the target and a jump behind them to the trampoline.
def writeInlineTrampoline (target tramp : DWord) (m : Memory) : Memory :=
  let m := m.write tramp <| List.replicate 0x1000 0xCC
  let m := m.write tramp <| m.read target 5
  let m := m.write (tramp + 5) [0xE9]
  m.write (tramp + 6) <| toLE 4 <| target + 5 - (tramp + 5 + 5)

def writeHotpatch (target hook : DWord) (m : Memory) : Memory :=
  let m := m.write target [0xE9]
  m.write (target + 1) <| toLE 4 <| hook - (target + 5)

-- The allocation returns the address of the trampoline, and `protect` is whether the protection can be changed.
def inlinePatch (m : Memory) (alloc : Option DWord) (protect : Bool) (target hook : DWord) : Patched :=
  let bytes := m.read target 5
  if ¬safeToHotpatch bytes then ⟨m, 0, .notRelocatable bytes⟩ else
    match alloc with
    | none       => ⟨m, 0, .allocFailed⟩
    | some tramp =>
      let m := writeInlineTrampoline target tramp m
      if ¬protect then ⟨m, 0, .protectFailed⟩ else
        ⟨writeHotpatch target hook m, tramp, .patched target hook tramp⟩

-- The bytes of a sequence of instructions.
def code (es : List Encoding) : List Byte :=
  es.flatMap Encoding.bytes

-- The allocated memory does not overlap the function.
def Fresh (tramp target : DWord) (es : List Encoding) : Prop :=
  Disjoint (range target (code es).length) (range tramp 0x1000)

-- The function starts with a jump to the hook, and nothing else is different outside of the trampoline.
structure IsPatched (m m' : Memory) (target hook tramp : DWord) : Prop where
  jmp    : ∀ s : State, s.memory = m' → s.eip = target → step s = some { s with eip := hook }
  others : Set.EqOn m' m (range target 5 ∪ range tramp 0x1000)ᶜ

-- The trampoline consists of whole instructions of the function, none of which is relative to the `eip`,
-- and goes on behind the jump that replaces them.
def ExecutesOriginal (m' : Memory) (tramp target : DWord) (es : List Encoding) : Prop :=
  ∃ ds, ds <+: es ∧ (code ds).length = 5 ∧ m'.Loaded tramp (code ds) ∧ (∀ e ∈ ds, ¬e.format.isRelative) ∧
    ∀ s : State, s.memory = m' → s.eip = tramp + 5 → step s = some { s with eip := target + 5 }

-- An instruction ends behind the first five bytes, and none of those before it is one of the relative
-- instructions that the check does not know.
def Relocatable (es : List Encoding) : Prop :=
  ∃ ds, ds <+: es ∧ (code ds).length = 5 ∧
    ∀ e ∈ ds, ¬(e.format.isLoop ∨ e.format.isNearJcc ∨ e.format.isXBegin)

variable {m : Memory} {target hook tramp : DWord} {es ds : List Encoding} {e : Encoding}

theorem safeToHotpatch_iff {bytes : List Byte} (h : bytes.length = 5) :
    safeToHotpatch bytes ↔ ∀ b ∈ bytes, ¬isRejected b := by
  rw [safeToHotpatch, List.take_of_length_le h.le]
  simp

theorem isRelative_iff (h : ∀ b ∈ e.bytes, ¬isRejected b) :
    e.format.isRelative ↔ e.format.isLoop ∨ e.format.isNearJcc ∨ e.format.isXBegin := by
  have ho := h _ e.opcode_mem
  simp only [isRejected, decide_eq_true_eq, not_or] at ho
  obtain ⟨h₁, h₂, h₃, hj, _⟩ := ho
  simp only [Format.isRelative, decide_eq_true_eq]
  constructor
  case mpr => exact fun h => h.elim .inl fun h => .inr <| h.elim .inl fun h => .inr <| .inl h
  case mp =>
    rintro (h | h | h | ⟨_, h | h⟩)
    · exact .inl h
    · exact .inr <| .inl h
    · exact .inr <| .inr h
    · exact absurd h hj
    · have hr : e.format.opcode ∉ ([0xE8, 0xE9, 0xEB] : List Byte) := by
        simp only [List.mem_cons, List.not_mem_nil, or_false, not_or]
        exact ⟨h₁, h₂, h₃⟩
      exact absurd h hr

theorem code_append {fs : List Encoding} : code (es ++ fs) = code es ++ code fs :=
  List.flatMap_append

-- An instruction has at least one byte.
theorem eq_of_prefix (hp : ds <+: es) (hn : (code ds).length = (code es).length) : ds = es := by
  obtain ⟨fs, rfl⟩ := hp
  cases fs
  case nil       => rw [List.append_nil]
  case cons f fs =>
    have hf := List.length_pos_of_mem f.opcode_mem
    have hc : code (f :: fs) = f.bytes ++ code fs := rfl
    rw [code_append, hc, List.length_append, List.length_append] at hn
    omega

-- Whole instructions that have five bytes are the first five bytes.
theorem code_eq_read (hl : m.Loaded target (code es)) (hp : ds <+: es) (h : (code ds).length = 5) :
    code ds = m.read target 5 := by
  obtain ⟨fs, rfl⟩ := hp
  rw [code_append] at hl
  rw [←h]
  exact (loaded_append.mp hl).left.symm

theorem write_jmpRel (m : Memory) (a : DWord) (bs : List Byte) (v : DWord) (h : bs.length + 5 ≤ 2 ^ 32) :
    ((m.write a bs).write (a + BitVec.ofNat 32 bs.length) [0xE9]).write
      (a + BitVec.ofNat 32 (bs.length + 1)) (toLE 4 v) = m.write a (bs ++ (Code.jmpRel v).bytes) := by
  have hb : bs ++ (Code.jmpRel v).bytes = (bs ++ [0xE9]) ++ toLE 4 v := by simp [Code.jmpRel]
  rw [hb, ←write_append (by simp; omega), ←write_append (by simp; omega), List.length_append,
    List.length_singleton]

theorem writeHotpatch_eq :
    writeHotpatch target hook m = m.write target (Code.jmpRel <| hook - (target + 5)).bytes := by
  have h := write_jmpRel m target [] (hook - (target + 5)) (by simp)
  rw [write_nil, List.length_nil, BitVec.add_zero] at h
  exact h

theorem writeInlineTrampoline_eq (hd : Disjoint (range target 5) (range tramp 0x1000)) :
    writeInlineTrampoline target tramp m =
      (m.write tramp <| List.replicate 0x1000 0xCC).write tramp
        (m.read target 5 ++ (Code.jmpRel <| target + 5 - (tramp + 5 + 5)).bytes) := by
  have hr : (m.write tramp <| List.replicate 0x1000 0xCC).read target 5 = m.read target 5 :=
    read_congr <| write_eqOn <| by rwa [List.length_replicate]
  have hn : (m.read target 5).length = 5 := read_length
  rw [writeInlineTrampoline, hr, ←write_jmpRel _ _ _ _ (by simp [hn]), hn]
  rfl

-- The outcome if the check and the system calls succeed.
theorem inlinePatch_eq (hs : safeToHotpatch (m.read target 5)) :
    inlinePatch m (some tramp) true target hook =
      ⟨writeHotpatch target hook <| writeInlineTrampoline target tramp m, tramp,
        .patched target hook tramp⟩ := by
  simp [inlinePatch, hs]

section Patched

variable (hf : Fresh tramp target es) (h₅ : 5 ≤ (code es).length)
include hf h₅

theorem Fresh.disjoint : Disjoint (range target 5) (range tramp 0x1000) :=
  hf.mono_left <| range_subset h₅

theorem Fresh.eqOn_inline :
    Set.EqOn (writeInlineTrampoline target tramp m) m (range tramp 0x1000)ᶜ := by
  rw [writeInlineTrampoline_eq <| hf.disjoint h₅]
  have hn : (m.read target 5 ++ (Code.jmpRel <| target + 5 - (tramp + 5 + 5)).bytes).length = 10 := by
    simp [Code.jmpRel]
  have hs : range tramp 10 ⊆ range tramp 0x1000 := range_subset <| by decide
  refine Set.EqOn.trans (write_eqOn ?_) (write_eqOn ?_)
  · exact hn ▸ disjoint_compl_left.mono_right hs
  · exact List.length_replicate (α := Byte) ▸ disjoint_compl_left

theorem Fresh.loaded_inline :
    (writeInlineTrampoline target tramp m).Loaded tramp
      (m.read target 5 ++ (Code.jmpRel <| target + 5 - (tramp + 5 + 5)).bytes) := by
  rw [writeInlineTrampoline_eq <| hf.disjoint h₅]
  exact loaded_write <| by simp [Code.jmpRel]

theorem Fresh.isPatched :
    IsPatched m (writeHotpatch target hook <| writeInlineTrampoline target tramp m) target hook tramp := by
  rw [writeHotpatch_eq]
  constructor
  case jmp =>
    intro s hm he
    have hl : s.memory.Loaded s.eip (Code.jmpRel <| hook - (s.eip + 5)).bytes := by
      rw [hm, he]
      exact loaded_write <| by simp [Code.jmpRel]
    exact step_jmpRel hl
  case others =>
    refine Set.EqOn.trans (write_eqOn ?_) <| (hf.eqOn_inline h₅).mono ?_
    · exact disjoint_compl_left.mono_right Set.subset_union_left
    · exact Set.compl_subset_compl.mpr Set.subset_union_right

theorem Fresh.loaded (m : Memory) (hook : DWord) :
    (writeHotpatch target hook <| writeInlineTrampoline target tramp m).Loaded tramp
      (m.read target 5 ++ (Code.jmpRel <| target + 5 - (tramp + 5 + 5)).bytes) := by
  rw [writeHotpatch_eq]
  refine (hf.loaded_inline h₅).congr <| write_eqOn ?_
  have hn : (m.read target 5 ++ (Code.jmpRel <| target + 5 - (tramp + 5 + 5)).bytes).length = 10 := by
    simp [Code.jmpRel]
  have hs : range tramp 10 ⊆ range tramp 0x1000 := range_subset <| by decide
  exact hn ▸ (hf.disjoint h₅).symm.mono_left hs

theorem Fresh.executesOriginal_iff (hl : m.Loaded target (code es)) (hs : safeToHotpatch (m.read target 5)) :
    ExecutesOriginal (writeHotpatch target hook <| writeInlineTrampoline target tramp m) tramp target es ↔
    Relocatable es := by
  have hr {ds : List Encoding} (hp : ds <+: es) (h : (code ds).length = 5) :
      ∀ e ∈ ds, e.format.isRelative ↔ e.format.isLoop ∨ e.format.isNearJcc ∨ e.format.isXBegin := by
    intro e he
    refine isRelative_iff fun b hb => (safeToHotpatch_iff read_length).mp hs b ?_
    rw [←code_eq_read hl hp h]
    exact List.mem_flatMap.mpr ⟨e, he, hb⟩
  constructor
  case mp =>
    rintro ⟨ds, hp, hn, _, hd, _⟩
    exact ⟨ds, hp, hn, fun e he => (hr hp hn e he).not.mp <| hd e he⟩
  case mpr =>
    rintro ⟨ds, hp, hn, hd⟩
    have ⟨h₁, h₂⟩ := loaded_append.mp <| hf.loaded h₅ m hook
    refine ⟨ds, hp, hn, code_eq_read hl hp hn ▸ h₁, fun e he => (hr hp hn e he).not.mpr <| hd e he, ?_⟩
    intro s hm he
    rw [read_length] at h₂
    refine step_jmpRel ?_
    rw [hm, he]
    exact h₂

-- The outcome if the check or a system call fails.
theorem Fresh.inlinePatch_fails {protect : Bool} (hl : m.Loaded target (code es))
    (h : ¬safeToHotpatch (m.read target 5) ∨ protect = false) :
    (inlinePatch m (some tramp) protect target hook).result = 0 ∧
      (inlinePatch m (some tramp) protect target hook).memory.Loaded target (code es) := by
  by_cases hs : safeToHotpatch (m.read target 5)
  case neg =>
    rw [inlinePatch, if_pos hs]
    exact ⟨rfl, hl⟩
  case pos =>
    obtain rfl : protect = false := by simpa [hs] using h
    rw [inlinePatch, if_neg <| not_not_intro hs]
    exact ⟨rfl, hl.congr <| (hf.eqOn_inline h₅).mono <| Set.subset_compl_iff_disjoint_right.mpr hf⟩

end Patched

theorem inlinePatch_of_not_alloc {protect : Bool} :
    (inlinePatch m none protect target hook).result = 0 ∧
    (inlinePatch m none protect target hook).memory = m := by
  rw [inlinePatch]
  split <;> exact ⟨rfl, rfl⟩

theorem inlinePatch_iff (m : Memory) (target hook : DWord) (es : List Encoding) (hl : m.Loaded target (code es))
    (h₅ : 5 ≤ (code es).length) :
    (∀ alloc protect, (∀ tramp ∈ alloc, Fresh tramp target es) →
      (¬safeToHotpatch (m.read target 5) ∨ alloc = none ∨ protect = false) →
        let r := inlinePatch m alloc protect target hook
        r.result = 0 ∧ r.memory.Loaded target (code es)) ∧
    (∀ tramp, Fresh tramp target es → safeToHotpatch (m.read target 5) →
      let r := inlinePatch m (some tramp) true target hook
      r.result = tramp ∧ IsPatched m r.memory target hook tramp ∧
        (ExecutesOriginal r.memory tramp target es ↔ Relocatable es)) := by
  constructor
  case left =>
    rintro (_ | tramp) protect hf h
    · exact ⟨inlinePatch_of_not_alloc.left, inlinePatch_of_not_alloc.right ▸ hl⟩
    · exact (hf tramp rfl).inlinePatch_fails h₅ hl <| by simpa using h
  case right =>
    intro tramp hf hs
    rw [inlinePatch_eq hs]
    exact ⟨rfl, hf.isPatched h₅, hf.executesOriginal_iff h₅ hl hs⟩

-- Instructions that the decoder knows are whole instructions of the function.
theorem exists_code (cs : List Code) (hr : ∀ c ∈ cs, ¬c.instr.isRelative) :
    ∃ es, code es = X86.bytes cs ∧ ∀ e ∈ es, ¬e.format.isRelative := by
  induction cs
  case nil => exact ⟨[], rfl, nofun⟩
  case cons c cs hi =>
    have ⟨hc, hr⟩ := List.forall_mem_cons.mp hr
    have ⟨e, hb, he⟩ := c.exists_encoding
    have ⟨es, hbs, hes⟩ := hi hr
    refine ⟨e :: es, ?_, List.forall_mem_cons.mpr ⟨he ▸ hc, hes⟩⟩
    have hs : code (e :: es) = e.bytes ++ code es := rfl
    rw [hs, hb, hbs]
    rfl

-- None of the relative instructions that the check does not know is one that the decoder knows.
theorem exists_relocatable (cs : List Code) (hn : (X86.bytes cs).length = 5)
    (hr : ∀ c ∈ cs, ¬c.instr.isRelative) : ∃ es, code es = X86.bytes cs ∧ Relocatable es := by
  have ⟨es, hb, hs⟩ := exists_code cs hr
  refine ⟨es, hb, es, List.prefix_rfl, hb ▸ hn, fun e he hl => hs e he ?_⟩
  simp only [Format.isRelative, decide_eq_true_eq]
  exact hl.imp_right <| Or.imp_right .inl

-- `mov edi, edi`, `push ebp` and `mov ebp, esp`
def prolog : List Code := [
  ⟨.mov (.reg .edi) (.reg .edi), [0x8B, 0xFF], fun _ => rfl, by simp⟩,
  ⟨.push <| .reg .ebp, [0x55], fun _ => rfl, by simp⟩,
  ⟨.mov (.reg .ebp) (.reg .esp), [0x8B, 0xEC], fun _ => rfl, by simp⟩]

theorem inlinePatch_iff_prolog :
    let m := Memory.write (fun _ => 0xC3) 0x400000 (X86.bytes prolog)
    let r := inlinePatch m (some 0x10000) true 0x400000 0x600000
    ∃ es, code es = X86.bytes prolog ∧ r.result = 0x10000 ∧ IsPatched m r.memory 0x400000 0x600000 0x10000 ∧
      ExecutesOriginal r.memory 0x10000 0x400000 es := by
  intro m r
  have ⟨es, hc, hr⟩ := exists_relocatable prolog rfl (by simp [prolog, Instr.isRelative])
  have hl : m.Loaded 0x400000 (code es) := hc ▸ loaded_write (by decide)
  have hn : (code es).length = 5 := hc ▸ rfl
  have hf : Fresh 0x10000 0x400000 es := (range_disjoint (by decide) (by rw [hn]; decide)).symm
  have hs : safeToHotpatch (m.read 0x400000 5) := by
    rw [show m.read 0x400000 5 = X86.bytes prolog from loaded_write (by decide)]
    decide
  have ⟨ht, hp, he⟩ := (inlinePatch_iff m 0x400000 0x600000 es hl hn.ge).right 0x10000 hf hs
  exact ⟨es, hc, ht, hp, he.mpr hr⟩

-- A function that starts with `jecxz`, `xor eax, eax` and `inc eax`.
theorem inlinePatch_not_relocatable :
    ¬∀ (m : Memory) (target hook tramp : DWord) (es : List Encoding), m.Loaded target (code es) →
      5 ≤ (code es).length → Fresh tramp target es → safeToHotpatch (m.read target 5) →
        ExecutesOriginal (inlinePatch m (some tramp) true target hook).memory tramp target es := by
  intro h
  let es : List Encoding := [⟨[0xE3, 0x05], _, rfl, rfl⟩, ⟨[0x33, 0xC0], _, rfl, rfl⟩, ⟨[0x40], _, rfl, rfl⟩]
  let m := Memory.write (fun _ => 0xC3) 0x400000 (code es)
  have hl : m.Loaded 0x400000 (code es) := loaded_write <| by decide
  have hf : Fresh 0x10000 0x400000 es := (range_disjoint (by decide) (by decide)).symm
  have hs : safeToHotpatch (m.read 0x400000 5) := by rw [show m.read 0x400000 5 = code es from hl]; decide
  obtain ⟨ds, hp, hn, _, hd, _⟩ := h m 0x400000 0x600000 0x10000 es hl (by decide) hf hs
  obtain rfl : ds = es := eq_of_prefix hp hn
  exact hd _ (List.mem_cons_self ..) rfl

end Tersafe
