import MhoLauncher.Tersafe.Trampoline

open Bytes HookTable Memory X86

namespace Tersafe.Trampoline

variable (t : Trampoline) {s s₁ s₂ s₃ s₄ s₅ s₆ s₇ : State} {m : Memory} {p q : Set DWord} {k : DWord}

def addrs : Set DWord :=
  range t.tramp t.code.length

-- The part of a slot state that the trampoline writes.
def captures : Set DWord :=
  range t.slot SlotState.CAPTURE_SIZE

-- The memory that the trampoline relies on.
def own : Set DWord :=
  t.addrs ∪ t.captures ∪ range t.real 4

-- The slot state overlaps neither the code nor the pointer to the real method.
structure Placed : Prop where
  addrs : Disjoint t.addrs t.captures
  real  : Disjoint (range t.real 4) t.captures

-- The trampoline was called. The stack overlaps nothing that the trampoline relies on.
structure IsCalled (s : State) : Prop where
  eip    : s.eip = t.tramp
  loaded : s.memory.Loaded t.tramp t.code
  args   : Disjoint (range (s.regs.esp + 4) 32) t.captures
  stack  : Disjoint t.own (below (s.regs.esp + 4) 44)

-- The real method has returned to the trampoline.
structure IsReturned (s : State) : Prop where
  eip    : s.eip = t.resultAddr
  loaded : s.memory.Loaded t.tramp t.code
  stack  : Disjoint t.own (below s.regs.esp 44)

-- The values that were captured when the trampoline was called.
structure Captures (s : State) (c : SlotState) : Prop where
  caller  : c.caller = s.stack 0
  thisPtr : c.thisPtr = s.regs.ecx
  edx     : c.edx = s.regs.edx
  args    : c.args = (List.range MAX_ARGS |>.map fun i => s.stack (1 + i))

-- The processor enters the first observer.
structure EntersBefore (s s₁ : State) : Prop where
  eip      : s₁.eip = t.before
  arg      : s₁.stack 1 = t.arg
  captures : Captures s <| SlotState.load t.slot s₁.memory

-- The processor enters the real method. The memory at the given addresses did not change, except for
-- the captured values and what lies below the arguments.
structure EntersReal (p : Set DWord) (s s₃ : State) : Prop where
  eip       : s₃.eip = s.memory.dword t.real
  ret       : s₃.stack 0 = t.resultAddr
  regs      : s₃.regs = { s.regs with eax := s₃.regs.eax }
  eflags    : s₃.eflags = s.eflags
  captures  : Captures s <| SlotState.load t.slot s₃.memory
  espBefore : (SlotState.load t.slot s₃.memory).espBefore = s.regs.esp + 4
  args      : ∀ i, 4 * i + 48 ≤ 2 ^ 32 → range (s.regs.esp + 4 + BitVec.ofNat 32 (4 * i)) 4 ⊆ p \ t.captures →
    s₃.stack (1 + i) = s.stack (1 + i)
  memory    : Set.EqOn s₃.memory s.memory <| p \ (t.captures ∪ below (s.regs.esp + 4) 44)

-- The processor enters the second observer, after the real method has returned in state `s₄`.
structure EntersAfter (s₄ s₅ : State) : Prop where
  eip      : s₅.eip = t.after
  arg      : s₅.stack 1 = t.arg
  retval   : (SlotState.load t.slot s₅.memory).retval = s₄.regs.eax
  espAfter : (SlotState.load t.slot s₅.memory).espAfter = s₄.regs.esp
  memory   : Set.EqOn s₅.memory s₄.memory
    (range (SlotState.retvalAddr t.slot) 4 ∪ range (SlotState.espAfterAddr t.slot) 4 ∪ below s₄.regs.esp 44)ᶜ

-- The processor returns to the saved address in the state that the real method has returned in.
structure Leaves (p : Set DWord) (s₄ s₇ : State) : Prop where
  eip    : s₇.eip = s₄.memory.dword (SlotState.callerAddr t.slot)
  regs   : s₇.regs = s₄.regs
  eflags : s₇.eflags = s₄.eflags
  memory : Set.EqOn s₇.memory s₄.memory <| p \
    (range (SlotState.retvalAddr t.slot) 4 ∪ range (SlotState.espAfterAddr t.slot) 4 ∪ below s₄.regs.esp 44)

variable {t}

theorem addrs_subset : t.addrs ⊆ t.own :=
  Set.subset_union_left.trans Set.subset_union_left

theorem captures_subset : t.captures ⊆ t.own :=
  Set.subset_union_right.trans Set.subset_union_left

theorem real_subset : range t.real 4 ⊆ t.own :=
  Set.subset_union_right

theorem captures_range_subset {i n : Nat} (h : i + n ≤ SlotState.CAPTURE_SIZE) :
    range (t.slot + BitVec.ofNat 32 i) n ⊆ t.captures :=
  range_add_subset h

-- What the trampoline relies on does not change where it is neither a captured value nor on the stack.
theorem subset_diff {r : Set DWord} {a : DWord} (hr : r ⊆ t.own) (hp : t.own ∪ below a 40 ⊆ p)
    (hc : Disjoint r t.captures) (hd : Disjoint t.own (below a 44)) : r ⊆ p \ (t.captures ∪ below a 44) := by
  refine Set.subset_sdiff.mpr ⟨hr.trans <| Set.subset_union_left.trans hp, ?_⟩
  exact Set.disjoint_union_right.mpr ⟨hc, hd.mono_left hr⟩

section Capture

theorem capture_eqOn : Set.EqOn (t.capture s MAX_ARGS).memory s.memory t.capturesᶜ := by
  refine writeDWords_eqOn <| disjoint_compl_left.mono_right ?_
  rw [captured_length]
  exact range_subset <| show 44 ≤ 56 by simp

theorem captures_capture (h : Set.EqOn m (t.capture s MAX_ARGS).memory (range t.slot 44)) :
    Captures s <| SlotState.load t.slot m := by
  have hd {i v} (hv : (captured s MAX_ARGS)[i]? = some v) :
    m.dword (t.slot + BitVec.ofNat 32 (4 * i)) = v := by
    have ⟨hi, _⟩ := List.getElem?_eq_some_iff.mp hv
    rw [captured_length, MAX_ARGS] at hi
    rw [dword_congr <| h.mono <| range_add_subset (by omega)]
    exact dword_writeDWords hv (by rw [captured_length, MAX_ARGS]; simp)
  constructor
  case caller  => have := hd (i := 0) rfl; rwa [BitVec.add_zero] at this
  case thisPtr => exact hd (i := 1) rfl
  case edx     => exact hd (i := 2) rfl
  case args    =>
    refine List.map_congr_left fun i hi => ?_
    have := hd <| captured_arg <| List.mem_range.mp hi
    rwa [Nat.mul_add] at this

end Capture

section Enter

theorem enters_before (h : t.Placed) (hs : t.IsCalled s) :
    Steps t.addrs s (t.observerEntry t.before <| t.capture s MAX_ARGS) := by
  have hc : Steps t.addrs s (t.capture s MAX_ARGS) := by
    rw [←exec_capture le_rfl hs.args, addrs]
    exact .part (hs.eip ▸ t.part_capture) hs.loaded <| keeps_capture le_rfl h.addrs
  have he : (t.capture s MAX_ARGS).eip = t.beforeAddr := congrArg (· + 89) hs.eip
  refine hc.trans <| observe_enters ?_ ?_ ?_
  · exact hs.loaded.congr <| capture_eqOn.mono <| Set.subset_compl_iff_disjoint_right.mpr h.addrs
  · exact he ▸ t.part_before
  · exact hs.stack.mono_left <| Set.subset_union_left.trans Set.subset_union_left

-- The memory while the first observer runs.
theorem enters_eqOn (hm : Set.EqOn m (t.observerEntry t.before <| t.capture s MAX_ARGS).memory p) :
    Set.EqOn m s.memory <| p \ (t.captures ∪ below (s.regs.esp + 4) 44) := by
  have hb : Set.EqOn (t.observerEntry t.before <| t.capture s MAX_ARGS).memory (t.capture s MAX_ARGS).memory
      (below (s.regs.esp + 4) 44)ᶜ := observerEntry_eqOn t.before
  intro x ⟨hp, hx⟩
  have ⟨hc, hx⟩ := not_or.mp hx
  exact (hm hp).trans <| (hb hx).trans <| capture_eqOn hc

theorem entersBefore (hd : Disjoint t.own (below (s.regs.esp + 4) 44)) :
    t.EntersBefore s (t.observerEntry t.before <| t.capture s MAX_ARGS) where
  eip      := rfl
  arg      := observerEntry_stack rfl
  captures := by
    refine captures_capture <|
      (observerEntry_eqOn _).mono <| Set.subset_compl_iff_disjoint_right.mpr <| hd.mono_left ?_
    exact (range_subset <| by simp [SlotState.CAPTURE_SIZE]).trans captures_subset

-- The state in which the real method is entered, if the first observer returns with the given memory.
def realEntry (t : Trampoline) (s : State) (m : Memory) : State :=
  exec t.callReal { t.capture s MAX_ARGS with eip := t.enterAddr + 5, memory := m }

-- The memory while the real method is called.
def realMemory (t : Trampoline) (s : State) (m : Memory) : Memory :=
  m.writeDWords (SlotState.espBeforeAddr t.slot) [s.regs.esp + 4]

theorem realEntry_eq : t.realEntry s m =
    { { t.capture s MAX_ARGS with memory := t.realMemory s m }.push [t.resultAddr] with
      eip := (t.realMemory s m).dword t.real } := by
  rw [realEntry, exec_callReal, resultAddr, add_assoc t.enterAddr 5 12]
  rfl

theorem realMemory_eqOn : Set.EqOn (t.realMemory s m) m t.capturesᶜ :=
  writeDWords_eqOn <| disjoint_compl_left.mono_right <|
    captures_range_subset (i := 48) (n := 4) <| by simp [SlotState.CAPTURE_SIZE]

theorem realEntry_memory_eqOn :
    Set.EqOn (t.realEntry s m).memory (t.realMemory s m) (below (s.regs.esp + 4) 4)ᶜ := by
  rw [realEntry_eq]
  exact State.push_memory_eqOn_compl

theorem enters_real (h : t.Placed) (hs : t.IsCalled s)
    (hr : Cdecl p (t.observerEntry t.before <| t.capture s MAX_ARGS) s₂)
    (hp : t.own ∪ below (s.regs.esp + 4) 40 ⊆ p) : Steps t.addrs s₂ (t.realEntry s s₂.memory) := by
  have he : (t.capture s MAX_ARGS).eip = t.beforeAddr := congrArg (· + 89) hs.eip
  have ha : s₂.eip = t.enterAddr := (observe_eip hr).trans <| congrArg (· + (7 + t.pushLength)) he
  have hl : s₂.memory.Loaded t.tramp t.code :=
    hs.loaded.congr <| (enters_eqOn hr.memory).mono <| subset_diff addrs_subset hp h.addrs hs.stack
  have hc : exec (restore ++ t.callReal) s₂ = t.realEntry s s₂.memory := by
    rw [exec_append, observe_returns hr <| Set.subset_union_right.trans hp, he]
    rfl
  rw [←hc]
  refine .part (ha ▸ t.part_enter) hl
    ⟨rfl, fun _ _ => rfl, rfl, fun _ _ => rfl, rfl, fun _ _ => rfl, rfl, ?_, trivial⟩
  refine writeDWords_eqOn <| h.addrs.mono_right ?_
  exact captures_range_subset (i := 48) (n := 4) (by simp [SlotState.CAPTURE_SIZE])

theorem entersReal (h : t.Placed) (hs : t.IsCalled s)
    (hm : Set.EqOn m (t.observerEntry t.before <| t.capture s MAX_ARGS).memory p)
    (hp : t.own ∪ below (s.regs.esp + 4) 40 ⊆ p) : t.EntersReal p s (t.realEntry s m) := by
  have hb : below (s.regs.esp + 4) 4 ⊆ below (s.regs.esp + 4) 44 := below_subset (by simp) _
  have hc : Set.EqOn (t.realEntry s m).memory (t.realMemory s m) t.captures :=
    realEntry_memory_eqOn.mono <| Set.subset_compl_iff_disjoint_right.mpr <| hs.stack.mono captures_subset hb
  have he : Set.EqOn m s.memory <| p \ (t.captures ∪ below (s.regs.esp + 4) 44) := enters_eqOn hm
  have hd : Set.EqOn (t.realEntry s m).memory s.memory <| p \ (t.captures ∪ below (s.regs.esp + 4) 44) := by
    intro x hx
    have ⟨h₁, h₂⟩ := not_or.mp hx.right
    exact (realEntry_memory_eqOn <| Set.notMem_subset hb h₂).trans <| (realMemory_eqOn h₁).trans <| he hx
  have hs' : (t.realEntry s m).regs = { s.regs with eax := s.stack MAX_ARGS } := by
    rw [realEntry_eq]
    exact Regs.ext rfl rfl rfl rfl (add_sub_cancel_right s.regs.esp 4) rfl rfl rfl
  constructor
  case eip       =>
    rw [realEntry_eq]
    refine dword_congr <|
      (realMemory_eqOn.mono <| Set.subset_compl_iff_disjoint_right.mpr h.real).trans <| he.mono ?_
    exact subset_diff real_subset hp h.real hs.stack
  case ret       =>
    rw [realEntry_eq]
    exact State.stack_push (s := { t.capture s MAX_ARGS with memory := t.realMemory s m }) rfl (by simp)
  case regs      => rw [hs']
  case eflags    => rw [realEntry_eq]; rfl
  case captures  =>
    have hr : range t.slot 44 ⊆ t.captures := range_subset <| by simp [SlotState.CAPTURE_SIZE]
    have hw : Set.EqOn (t.realMemory s m) m (range t.slot 44) := by
      refine writeDWords_eqOn ?_
      have := range_add_disjoint (a := t.slot) (i := 0) (n := 44) (k := 48) (l := 4) (by simp) (by simp)
      rwa [BitVec.add_zero] at this
    refine captures_capture <| (hc.mono hr).trans <| hw.trans <| (hm.mono ?_).trans <|
      (observerEntry_eqOn _).mono ?_
    · exact hr.trans <| captures_subset.trans <| Set.subset_union_left.trans hp
    · exact Set.subset_compl_iff_disjoint_right.mpr <| hs.stack.mono_left <| hr.trans captures_subset
  case espBefore =>
    have hr : range (SlotState.espBeforeAddr t.slot) 4 ⊆ t.captures :=
      captures_range_subset (i := 48) (n := 4) (by simp [SlotState.CAPTURE_SIZE])
    exact (dword_congr <| hc.mono hr).trans <| dword_writeDWords_head (by simp)
  case args      =>
    intro i hi hr
    have ha : s.regs.esp + BitVec.ofNat 32 (4 * (1 + i)) = s.regs.esp + 4 + BitVec.ofNat 32 (4 * i) := by
      rw [Nat.mul_add, BitVec.ofNat_add, ←add_assoc]
      rfl
    rw [State.stack, State.stack, hs', ha]
    refine dword_congr <| hd.mono <| Set.subset_sdiff.mpr ⟨hr.trans Set.sdiff_subset, ?_⟩
    exact Set.disjoint_union_right.mpr ⟨(Set.subset_sdiff.mp hr).right, add_disjoint_below (by omega) _⟩
  case memory    => exact hd

end Enter

section Leave

-- The state after the result was saved.
def result (t : Trampoline) (s : State) : State :=
  exec t.saveResult s

theorem result_regs : (t.result s).regs = s.regs := by
  rw [result, exec_saveResult]

theorem result_eqOn : Set.EqOn (t.result s).memory s.memory
    (range (SlotState.retvalAddr t.slot) 4 ∪ range (SlotState.espAfterAddr t.slot) 4)ᶜ := by
  intro x hx
  have ⟨hr, he⟩ := not_or.mp hx
  rw [result, exec_saveResult]
  exact (writeDWords_eqOn disjoint_compl_left hr).trans <| writeDWords_eqOn disjoint_compl_left he

theorem results_subset :
    range (SlotState.retvalAddr t.slot) 4 ∪ range (SlotState.espAfterAddr t.slot) 4 ⊆ t.captures :=
  Set.union_subset (captures_range_subset (i := 44) (n := 4) <| by simp [SlotState.CAPTURE_SIZE])
    (captures_range_subset (i := 52) (n := 4) <| by simp [SlotState.CAPTURE_SIZE])

theorem result_eqOn_captures : Set.EqOn (t.result s).memory s.memory t.capturesᶜ :=
  result_eqOn.mono <| Set.compl_subset_compl.mpr results_subset

theorem enters_after (h : t.Placed) (hs : t.IsReturned s) :
    Steps t.addrs s (t.observerEntry t.after <| t.result s) := by
  have hc : Steps t.addrs s (t.result s) := by
    refine .part (hs.eip ▸ t.part_result) hs.loaded ⟨rfl, writeDWords_eqOn <| h.addrs.mono_right ?_, trivial⟩
    exact captures_range_subset (i := 52) (n := 4) (by simp [SlotState.CAPTURE_SIZE])
  have he : (t.result s).eip = t.resultAddr + 11 := by
    rw [result, exec_saveResult, hs.eip]
  refine hc.trans <| observe_enters ?_ ?_ ?_
  · exact hs.loaded.congr <| result_eqOn_captures.mono <| Set.subset_compl_iff_disjoint_right.mpr h.addrs
  · exact he ▸ t.part_after
  · have := hs.stack.mono_left addrs_subset
    rwa [←result_regs (t := t)] at this

-- The memory when the second observer is entered.
theorem afterEntry_eqOn :
    Set.EqOn (t.observerEntry t.after <| t.result s).memory (t.result s).memory (below s.regs.esp 44)ᶜ := by
  have := observerEntry_eqOn (t := t) (s := t.result s) t.after
  rwa [result_regs] at this

theorem entersAfter (hs : t.IsReturned s) : t.EntersAfter s (t.observerEntry t.after <| t.result s) := by
  have hc : Set.EqOn (t.observerEntry t.after <| t.result s).memory (t.result s).memory t.captures :=
    afterEntry_eqOn.mono <| Set.subset_compl_iff_disjoint_right.mpr <| hs.stack.mono_left captures_subset
  have hr : range (SlotState.retvalAddr t.slot) 4 ⊆ t.captures :=
    captures_range_subset (i := 44) (n := 4) (by simp [SlotState.CAPTURE_SIZE])
  have he : range (SlotState.espAfterAddr t.slot) 4 ⊆ t.captures :=
    captures_range_subset (i := 52) (n := 4) (by simp [SlotState.CAPTURE_SIZE])
  have hd : Disjoint (range (SlotState.retvalAddr t.slot) 4) (range (SlotState.espAfterAddr t.slot) 4) :=
    range_add_disjoint (by simp) (by simp)
  constructor
  case eip      => rfl
  case arg      => exact observerEntry_stack rfl
  case retval   =>
    refine (dword_congr <| hc.mono hr).trans ?_
    rw [result, exec_saveResult]
    exact dword_writeDWords_head (by simp)
  case espAfter =>
    refine (dword_congr <| hc.mono he).trans ?_
    rw [result, exec_saveResult]
    exact (dword_congr <| writeDWords_eqOn hd.symm).trans <| dword_writeDWords_head (by simp)
  case memory   =>
    intro x hx
    have ⟨h₁, h₂⟩ := not_or.mp hx
    exact (afterEntry_eqOn h₂).trans <| result_eqOn h₁

theorem leaves_eqOn (hm : Set.EqOn m (t.observerEntry t.after <| t.result s).memory p) :
    Set.EqOn m s.memory <| p \
      (range (SlotState.retvalAddr t.slot) 4 ∪ range (SlotState.espAfterAddr t.slot) 4 ∪
        below s.regs.esp 44) := by
  intro x ⟨hp, hx⟩
  have ⟨hc, hx⟩ := not_or.mp hx
  exact (hm hp).trans <| (afterEntry_eqOn hx).trans <| result_eqOn hc

-- The state in which the trampoline returns, if the second observer returns with the given memory.
def leave (t : Trampoline) (s : State) (m : Memory) : State :=
  exec t.returnToCaller { t.result s with eip := t.leaveAddr + 5, memory := m }

theorem leave_eq : t.leave s m =
    let caller := m.dword <| SlotState.callerAddr t.slot
    { s with eip := caller, memory := m.writeDWords (s.regs.esp - 4) [caller] } := by
  rw [leave, exec_returnToCaller, result, exec_saveResult]

theorem leaves_caller (h : t.Placed) (hs : t.IsReturned s)
    (hr : Cdecl p (t.observerEntry t.after <| t.result s) s₂)
    (hp : t.own ∪ below s.regs.esp 40 ⊆ p) : Steps t.addrs s₂ (t.leave s s₂.memory) := by
  have he : (t.result s).eip = t.resultAddr + 11 := by
    rw [result, exec_saveResult, hs.eip]
  have ha : s₂.eip = t.leaveAddr := (observe_eip hr).trans <| congrArg (· + (7 + t.pushLength)) he
  have hl : s₂.memory.Loaded t.tramp t.code :=
    hs.loaded.congr <| (leaves_eqOn hr.memory).mono <| (subset_diff addrs_subset hp h.addrs hs.stack).trans <|
      Set.sdiff_subset_sdiff_right <| Set.union_subset_union_left _ results_subset
  have hx := observe_returns hr <| result_regs (t := t) ▸ Set.subset_union_right.trans hp
  have hc : exec (restore ++ t.returnToCaller) s₂ = t.leave s s₂.memory := by
    rw [exec_append, hx, he]
    rfl
  have hw : Set.EqOn (Code.pushMem (SlotState.callerAddr t.slot) |>.next <| exec restore s₂).memory
      (exec restore s₂).memory t.addrs := by
    refine State.push_memory_eqOn <| (hs.stack.mono addrs_subset ?_)
    rw [hx, result_regs]
    exact below_subset (by simp) _
  rw [←hc]
  exact .part (ha ▸ t.part_leave) hl
    ⟨rfl, fun _ _ => rfl, rfl, fun _ _ => rfl, rfl, fun _ _ => rfl, rfl, hw, trivial⟩

theorem leaves (hs : t.IsReturned s) (hm : Set.EqOn m (t.observerEntry t.after <| t.result s).memory p)
    (hp : t.own ∪ below s.regs.esp 40 ⊆ p) : t.Leaves p s (t.leave s m) := by
  have hr : range (SlotState.callerAddr t.slot) 4 ⊆ t.captures :=
    range_subset <| by simp [SlotState.CAPTURE_SIZE]
  have hw {v : DWord} : Set.EqOn (m.writeDWords (s.regs.esp - 4) [v]) m (below s.regs.esp 4)ᶜ :=
    writeDWords_eqOn disjoint_compl_left
  rw [leave_eq]
  constructor
  case eip    =>
    have hd {i : Nat} (h : 4 ≤ i) (hi : i + 4 ≤ SlotState.CAPTURE_SIZE) :
        Disjoint (range t.slot 4) (range (t.slot + BitVec.ofNat 32 i) 4) := by
      rw [SlotState.CAPTURE_SIZE] at hi
      have := range_add_disjoint (a := t.slot) (i := 0) (n := 4) (k := i) (l := 4) (by omega) (by omega)
      rwa [BitVec.add_zero] at this
    refine dword_congr <| (hm.mono ?_).trans <| (afterEntry_eqOn.mono ?_).trans <| result_eqOn.mono ?_
    · exact hr.trans <| captures_subset.trans <| Set.subset_union_left.trans hp
    · exact Set.subset_compl_iff_disjoint_right.mpr <| hs.stack.mono_left <| hr.trans captures_subset
    · refine Set.subset_compl_iff_disjoint_right.mpr <| Set.disjoint_union_right.mpr ⟨?_, ?_⟩
      · exact hd (i := 44) (by simp) (by simp [SlotState.CAPTURE_SIZE])
      · exact hd (i := 52) (by simp) (by simp [SlotState.CAPTURE_SIZE])
  case regs   => rfl
  case eflags => rfl
  case memory =>
    intro x hx
    have ⟨_, h₂⟩ := not_or.mp hx.right
    have h₃ : x ∈ (below s.regs.esp 4)ᶜ := Set.notMem_subset (below_subset (by simp) _) h₂
    exact (hw h₃).trans <| leaves_eqOn hm hx

end Leave

theorem Captures.congr {m₁ m₂ : Memory} (h : Captures s <| SlotState.load t.slot m₁)
    (hm : Set.EqOn m₂ m₁ <| range t.slot 44) : Captures s <| SlotState.load t.slot m₂ := by
  have hd {i : Nat} (hi : i + 4 ≤ 44) :
    m₂.dword (t.slot + BitVec.ofNat 32 i) = m₁.dword (t.slot + BitVec.ofNat 32 i) :=
    dword_congr <| hm.mono <| range_add_subset hi
  constructor
  case caller  => exact (dword_congr <| hm.mono <| range_subset <| by simp).trans h.caller
  case thisPtr => exact (hd (i := 4) <| by simp).trans h.thisPtr
  case edx     => exact (hd (i := 8) <| by simp).trans h.edx
  case args    =>
    rw [←h.args]
    refine List.map_congr_left fun i hi => hd ?_
    rw [List.mem_range, MAX_ARGS] at hi
    omega

-- The values that were saved before the real method was called are not changed when its result is saved.
theorem EntersAfter.eqOn {i n : Nat} (h : t.EntersAfter s₄ s₅) (hs : Disjoint t.own (below s₄.regs.esp 44))
    (hi : i + n ≤ 44 ∨ 48 ≤ i ∧ i + n ≤ 52) :
    Set.EqOn s₅.memory s₄.memory <| range (t.slot + BitVec.ofNat 32 i) n := by
  refine h.memory.mono <| Set.subset_compl_iff_disjoint_right.mpr ?_
  refine Set.disjoint_union_right.mpr ⟨Set.disjoint_union_right.mpr ⟨?_, ?_⟩, ?_⟩
  · cases hi
    case inl hi => exact range_add_disjoint hi (by simp)
    case inr hi => exact (range_add_disjoint hi.left (by omega)).symm
  · exact range_add_disjoint (k := 52) (by omega) (by simp)
  · refine hs.mono_left <| (captures_range_subset ?_).trans captures_subset
    rw [SlotState.CAPTURE_SIZE]
    omega

-- A call of the trampoline has the effect of a call of the real method, which the two observers see. The
-- observers do not change the given memory, and the real method does not change what the trampoline has
-- written.
def Transparent (t : Trampoline) : Prop :=
  ∀ s p, t.IsCalled s → t.own ∪ below (s.regs.esp + 4) 40 ⊆ p →
    ∃ s₁, Steps t.addrs s s₁ ∧ t.EntersBefore s s₁ ∧
      ∀ s₂, Cdecl p s₁ s₂ → ∃ s₃, Steps t.addrs s₂ s₃ ∧ t.EntersReal p s s₃ ∧
        ∀ k s₄ q, Returns k s₃ s₄ → Set.EqOn s₄.memory s₃.memory (t.addrs ∪ t.captures) →
          Disjoint t.own (below s₄.regs.esp 44) → t.own ∪ below s₄.regs.esp 40 ⊆ q →
          ∃ s₅, Steps t.addrs s₄ s₅ ∧ t.EntersAfter s₄ s₅ ∧ (let c := SlotState.load t.slot s₅.memory
            Captures s c ∧ c.espAfter - c.espBefore = k) ∧
            ∀ s₆, Cdecl q s₅ s₆ → ∃ s₇, Steps t.addrs s₆ s₇ ∧ t.Leaves q s₄ s₇ ∧
              s₇.eip = s.stack 0 ∧ s₇.regs.esp = s.regs.esp + 4 + k

theorem transparent (h : t.Placed) : t.Transparent := by
  intro s p hs hp
  refine ⟨_, enters_before h hs, entersBefore hs.stack, fun s₂ hr => ?_⟩
  have he := entersReal h hs hr.memory hp
  refine ⟨_, enters_real h hs hr hp, he, fun k s₄ q hk hm hd hq => ?_⟩
  have hs₄ : t.IsReturned s₄ := by
    refine ⟨hk.eip.trans he.ret, ?_, hd⟩
    refine hs.loaded.congr <| (hm.mono Set.subset_union_left).trans <| he.memory.mono ?_
    exact subset_diff addrs_subset hp h.addrs hs.stack
  have hc : Captures s <| SlotState.load t.slot s₄.memory :=
    he.captures.congr <| hm.mono <|
      Set.subset_union_of_subset_right (range_subset <| by simp [SlotState.CAPTURE_SIZE]) _
  let s₅ := t.observerEntry t.after <| t.result s₄
  have ha : t.EntersAfter s₄ s₅ := entersAfter hs₄
  refine ⟨s₅, enters_after h hs₄, ha, ⟨?_, ?_⟩, fun s₆ hr => ?_⟩
  · have := ha.eqOn (i := 0) (n := 44) hd (by simp)
    exact hc.congr <| by rwa [BitVec.add_zero] at this
  · have hb : (SlotState.load t.slot s₄.memory).espBefore = s.regs.esp + 4 := by
      refine Eq.trans (dword_congr <| hm.mono ?_) he.espBefore
      refine Set.subset_union_of_subset_right (captures_range_subset (i := 48) (n := 4) ?_) _
      simp [SlotState.CAPTURE_SIZE]
    have hb₅ : (SlotState.load t.slot s₅.memory).espBefore = s.regs.esp + 4 :=
      (dword_congr <| ha.eqOn (i := 48) (n := 4) hd (by simp)).trans hb
    rw [ha.espAfter, hb₅, hk.esp, he.regs]
    exact add_sub_cancel_left ..
  · have hl := leaves hs₄ hr.memory hq
    refine ⟨_, leaves_caller h hs₄ hr hq, hl, hl.eip.trans hc.caller, ?_⟩
    rw [hl.regs, hk.esp, he.regs]

end Tersafe.Trampoline

namespace Tersafe

variable (g : Globals) (tramp : DWord)

def vtTrampoline (slot : Nat) : Trampoline where
  tramp  := tramp
  slot   := g.slotAt slot
  arg    := (BitVec.ofNat 8 slot).signExtend 32
  push   := .pushImm8 <| BitVec.ofNat 8 slot
  before := g.observerBefore
  after  := g.observerAfter
  real   := g.realVtAt slot
  instr  := rfl
  length := by simp [Code.pushImm8]

def subTrampoline (sub slot : Nat) : Trampoline where
  tramp  := tramp
  slot   := g.subSlotAt sub slot
  arg    := BitVec.ofNat 32 (sub <<< 8 ||| slot)
  push   := .pushImm32 <| BitVec.ofNat 32 (sub <<< 8 ||| slot)
  before := g.subObserverBefore
  after  := g.subObserverAfter
  real   := g.realSubAt sub slot
  instr  := rfl
  length := by simp [Code.pushImm32]

theorem writeTrampoline_loaded {t : Trampoline} {pushArg : Emitter Unit}
    (hp : ∀ {p}, Emits 0 p pushArg t.push.bytes)
    (m : Memory) :
    (writeTrampoline t.tramp (emitTrampoline t.slot pushArg t.before t.after t.real) m).Loaded
      t.tramp t.code := by
  have hc := t.code_length
  have hl := t.length
  have he := Trampoline.emitTrampoline_emits hp (m.write t.tramp <| List.replicate 0x1000 0xCC)
  rw [zero_add] at he
  rw [writeTrampoline, StateT.run, he]
  exact loaded_write (by omega)

theorem vtTrampoline_loaded (slot : Nat) (m : Memory) :
    let t := vtTrampoline g tramp slot
    (writeTrampoline tramp (emitVtTrampoline g slot) m).Loaded tramp t.code :=
  writeTrampoline_loaded (t := vtTrampoline g tramp slot) (.of_eq (.cons .emit <| by simp) rfl) m

theorem subTrampoline_loaded (sub slot : Nat) (m : Memory) :
    let t := subTrampoline g tramp sub slot
    (writeTrampoline tramp (emitSubTrampoline g sub slot) m).Loaded tramp t.code :=
  writeTrampoline_loaded (t := subTrampoline g tramp sub slot) (.of_eq (.cons .emit <| by simp) rfl) m

theorem vtTrampoline_observed {slot : Nat} (h : slot < NUM_SLOTS) :
    g.observed (vtTrampoline g tramp slot).arg = some (vtTrampoline g tramp slot).slot := by
  rw [NUM_SLOTS] at h
  interval_cases slot <;> rfl

theorem encoded_sub : ∀ sub < NUM_SUBS, ∀ slot < SUB_SLOTS,
    (BitVec.ofNat 32 (sub <<< 8 ||| slot)).sshiftRight 8 &&& 0xFF = BitVec.ofNat 32 sub := by
  decide

theorem encoded_slot : ∀ sub < NUM_SUBS, ∀ slot < SUB_SLOTS,
    BitVec.ofNat 32 (sub <<< 8 ||| slot) &&& 0xFF = BitVec.ofNat 32 slot := by
  decide

theorem subTrampoline_observed {sub slot : Nat} (hb : sub < NUM_SUBS) (hs : slot < SUB_SLOTS) :
    g.subObserved (subTrampoline g tramp sub slot).arg = some (subTrampoline g tramp sub slot).slot := by
  simp only [subTrampoline, Globals.subObserved, encoded_sub sub hb slot hs, encoded_slot sub hb slot hs]
  rw [NUM_SUBS] at hb
  rw [SUB_SLOTS] at hs
  interval_cases sub <;> interval_cases slot <;> rfl

-- The emitted trampolines are transparent, and the observers use the slot state that the trampoline
-- writes.
theorem trampolines_transparent (g : Globals) (tramp : DWord) (m : Memory) :
    (∀ slot < NUM_SLOTS,
      let t := vtTrampoline g tramp slot
      (writeTrampoline tramp (emitVtTrampoline g slot) m).Loaded tramp t.code ∧
      g.observed t.arg = some t.slot ∧ (t.Placed → t.Transparent)) ∧
    (∀ sub < NUM_SUBS, ∀ slot < SUB_SLOTS,
      let t := subTrampoline g tramp sub slot
      (writeTrampoline tramp (emitSubTrampoline g sub slot) m).Loaded tramp t.code ∧
      g.subObserved t.arg = some t.slot ∧ (t.Placed → t.Transparent)) :=
  ⟨fun slot h =>
      ⟨vtTrampoline_loaded g tramp slot m, vtTrampoline_observed g tramp h, Trampoline.transparent⟩,
    fun sub hb slot hs =>
      ⟨subTrampoline_loaded g tramp sub slot m, subTrampoline_observed g tramp hb hs,
        Trampoline.transparent⟩⟩

-- Observers that return at once, and a real method that removes 8 bytes of arguments and returns 7.
theorem trampolines_transparent_stdcall :
    let g : Globals := ⟨0x700000, 0x710000, 0x720000, 0x730000, 0x600000, 0x601000, 0x602000, 0x603000⟩
    let ret (s : State) (k : DWord) : State := { (s.drop 4).drop k with eip := s.stack 0 }
    let method (s : State) : State := { ret s 8 with regs := { (ret s 8).regs with eax := 7 } }
    let returns (t : Trampoline) (m : Memory) :=
      let s : State := ⟨⟨1, 2, 3, 4, 0x200000, 6, 7, 8⟩, t.tramp, 0x202, m⟩
      ∃ s₁ s₃ s₅ s₇, Steps t.addrs s s₁ ∧ t.EntersBefore s s₁ ∧ Steps t.addrs (ret s₁ 0) s₃ ∧
        t.EntersReal Set.univ s s₃ ∧ Steps t.addrs (method s₃) s₅ ∧ t.EntersAfter (method s₃) s₅ ∧
        Steps t.addrs (ret s₅ 0) s₇ ∧ s₇.eip = s.stack 0 ∧ s₇.regs.esp = s.regs.esp + 12
    returns (vtTrampoline g 0x10000 3) (writeTrampoline 0x10000 (emitVtTrampoline g 3) fun _ => 0x40) ∧
    returns (subTrampoline g 0x10000 1 5)
      (writeTrampoline 0x10000 (emitSubTrampoline g 1 5) fun _ => 0x40) := by
  intro g ret method returns
  have hr {t : Trampoline} {m : Memory} (hl : m.Loaded t.tramp t.code) (ht : t.Placed → t.Transparent)
      (ha : t.tramp = 0x10000) (hs : 0x700000 ≤ t.slot.toNat ∧ t.slot.toNat + 56 ≤ 0x720000)
      (hp : 0x720000 ≤ t.real.toNat ∧ t.real.toNat + 4 ≤ 0x740000) : returns t m := by
    have hn : t.tramp.toNat + t.code.length ≤ 0x100000 := by
      have := t.length
      have ha : t.tramp.toNat = 0x10000 := congrArg BitVec.toNat ha
      rw [ha, t.code_length]
      omega
    have hd {a : DWord} {n : Nat} (h : 0x100000 ≤ a.toNat) (h' : a.toNat + n ≤ 0x700000) :
      Disjoint t.own (range a n) :=
      Set.disjoint_union_left.mpr ⟨Set.disjoint_union_left.mpr ⟨range_disjoint (by omega) (by omega),
        (range_disjoint (h'.trans hs.left) (by rw [SlotState.CAPTURE_SIZE]; omega)).symm⟩,
          (range_disjoint (by omega) (by omega)).symm⟩
    have hd₁ : Disjoint t.own (below 0x200004 44) := hd (by simp) (by simp)
    have hd₂ : Disjoint t.own (below 0x20000C 44) := hd (by simp) (by simp)
    have hd₃ : Disjoint t.own (range 0x200004 32) := hd (by simp) (by simp)
    have hc {s} : Cdecl Set.univ s (ret s 0) := ⟨⟨rfl, rfl⟩, rfl, rfl, rfl, rfl, fun _ _ => rfl⟩
    have hp : t.Placed := by
      have hc : SlotState.CAPTURE_SIZE = 56 := rfl
      exact ⟨range_disjoint (by omega) (by omega), (range_disjoint (by omega) (by omega)).symm⟩
    let s : State := ⟨⟨1, 2, 3, 4, 0x200000, 6, 7, 8⟩, t.tramp, 0x202, m⟩
    have ⟨s₁, h₁, he₁, h⟩ := ht hp s Set.univ
      ⟨rfl, hl, (hd₃.mono_left Trampoline.captures_subset).symm, hd₁⟩ (Set.subset_univ _)
    have ⟨s₃, h₃, he₃, h⟩ := h _ hc
    have hs₄ : (method s₃).regs.esp = 0x20000C := by
      have hx : (method s₃).regs.esp = s₃.regs.esp + 4 + 8 := rfl
      rw [hx, he₃.regs]
      rfl
    have ⟨s₅, h₅, he₅, _, h⟩ :=
      h 8 (method s₃) Set.univ ⟨rfl, rfl⟩ (fun _ _ => rfl) (hs₄ ▸ hd₂) (Set.subset_univ _)
    have ⟨s₇, h₇, _, hr, he⟩ := h _ hc
    exact ⟨s₁, s₃, s₅, s₇, h₁, he₁, h₃, he₃, h₅, he₅, h₇, hr, he⟩
  have ⟨hv, hs⟩ := trampolines_transparent g 0x10000 fun _ => 0x40
  have ⟨hl, _, ht⟩ := hv 3 (by decide)
  have ⟨hl', _, ht'⟩ := hs 1 (by decide) 5 (by decide)
  exact ⟨hr hl ht rfl (by decide) (by decide), hr hl' ht' rfl (by decide) (by decide)⟩

end Tersafe
