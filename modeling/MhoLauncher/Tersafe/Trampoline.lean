import MhoLauncher.Tersafe.Code

open Bytes HookTable Memory X86

namespace Tersafe.Trampoline

variable {t : Trampoline} {s s₁ s₂ : State} {p : Set DWord}

theorem push_next : t.push.next s = { s.push [t.arg] with eip := s.eip + t.pushLength } := by
  rw [Code.next, t.instr]
  rfl

section Observe

-- The values that are on the stack when an observer is entered.
def observerFrame (t : Trampoline) (s : State) : List DWord :=
  let r := s.regs
  [s.eip + (7 + t.pushLength), t.arg, s.eflags, r.edi, r.esi, r.ebp, r.esp, r.ebx, r.edx, r.ecx, r.eax]

theorem exec_callObserver (observer : DWord) :
    exec (t.callObserver s.eip observer) s = { s.push (t.observerFrame s) with eip := observer } := by
  have hr : s.eip + 1 + 1 + t.pushLength + 5 = s.eip + (7 + t.pushLength) := by
    generalize t.pushLength = n
    bv_omega
  have hs : s.push (t.observerFrame s) =
      (((s.push <| (t.observerFrame s).drop 3).push [s.eflags]).push [t.arg]).push
        [s.eip + 1 + 1 + t.pushLength + 5] := by
    rw [State.push_push (by simp), State.push_push (by simp), State.push_push (by simp [observerFrame]), hr]
    rfl
  have he : exec (t.callObserver s.eip observer) s =
      Code.next (.callRel <| observer - (s.eip + (7 + t.pushLength)))
        (t.push.next <| Code.pushfd.next <| Code.pushad.next s) := rfl
  rw [he, push_next, hs, ←hr]
  refine State.ext rfl ?_ rfl rfl
  exact add_sub_cancel ..

theorem keeps_callObserver (h : Disjoint p (below s.regs.esp 44)) (observer : DWord) :
    Keeps p (t.callObserver s.eip observer) s := by
  refine ⟨rfl, ?_, rfl, ?_, ?_, ?_, trivial⟩
  · exact State.push_memory_eqOn <| h.mono_right <| below_subset (by simp) _
  · exact State.push_memory_eqOn <| h.mono_right <| below_sub_subset (by simp) _
  · rw [push_next]; rfl
  · rw [push_next]
    refine State.push_memory_eqOn <| h.mono_right <|
      subset_trans ?_ (below_sub_subset (i := 32) (k := 8) (by simp) _)
    exact below_sub_subset (i := 4) (by simp) _

theorem exec_restore :
    exec restore s = {
      regs   := {
        edi := s.stack 2, esi := s.stack 3, ebp := s.stack 4, esp := s.regs.esp + 40,
        ebx := s.stack 6, edx := s.stack 7, ecx := s.stack 8, eax := s.stack 9
      }
      eip    := s.eip + 5
      eflags := s.stack 1
      memory := s.memory
    } := by
  have hf {i} : (Code.addEsp 4 |>.next s).stack i = s.stack (1 + i) := State.stack_add rfl fun _ _ => rfl
  have hp {i} : (Code.popfd.next <| Code.addEsp 4 |>.next s).stack i = s.stack (2 + i) := by
    refine State.stack_add ?_ fun _ _ => rfl
    exact add_assoc s.regs.esp 4 4
  refine State.ext (Regs.ext hp hp hp hp ?_ hp hp hp) ?_ hf rfl
  · exact (congrArg (· + 32) <| add_assoc s.regs.esp 4 4).trans <| add_assoc ..
  · exact (congrArg (· + 1) <| add_assoc s.eip 3 1).trans <| add_assoc ..

-- The state in which an observer is entered.
def observerEntry (t : Trampoline) (observer : DWord) (s : State) : State :=
  { s.push (t.observerFrame s) with eip := observer }

theorem observerEntry_stack {observer v : DWord} {i : Nat} (h : (t.observerFrame s)[i]? = some v) :
    (t.observerEntry observer s).stack i = v :=
  State.stack_push h (by simp [observerFrame])

theorem observerEntry_eqOn (observer : DWord) :
    Set.EqOn (t.observerEntry observer s).memory s.memory (below s.regs.esp 44)ᶜ :=
  State.push_memory_eqOn_compl

theorem observe_enters {observer : DWord} (hl : s.memory.Loaded t.tramp t.code)
    (hp : Part s.eip (bytes <| t.callObserver s.eip observer) t.tramp t.code)
    (hd : Disjoint (range t.tramp t.code.length) (below s.regs.esp 44)) :
    Steps (range t.tramp t.code.length) s (t.observerEntry observer s) := by
  rw [observerEntry, ←exec_callObserver]
  exact .part hp hl <| keeps_callObserver hd observer

theorem observe_eip {observer : DWord} (hr : Cdecl p (t.observerEntry observer s₁) s₂) :
    s₂.eip = s₁.eip + (7 + t.pushLength) :=
  hr.eip.trans <| observerEntry_stack rfl

-- An observer that returns has no effect but the one on the memory.
theorem observe_returns {observer : DWord} (hr : Cdecl p (t.observerEntry observer s₁) s₂)
    (hp : below s₁.regs.esp 40 ⊆ p) :
    exec restore s₂ = { s₁ with eip := s₁.eip + (7 + t.pushLength) + 5, memory := s₂.memory } := by
  have hs {i v} (h : (t.observerFrame s₁)[1 + i]? = some v) : s₂.stack i = v := by
    have hv : (t.observerEntry observer s₁).stack (1 + i) = v := observerEntry_stack h
    rw [←hv]
    refine State.stack_add (hr.esp.trans <| add_zero _) <| hr.memory.mono <| subset_trans ?_ hp
    have hi : 1 + i < 11 := (List.getElem?_eq_some_iff.mp h).choose
    have ha : s₁.regs.esp - 44 + BitVec.ofNat 32 (4 * (1 + i)) =
      s₁.regs.esp - 40 + BitVec.ofNat 32 (4 * i) := by
      rw [Nat.mul_add, BitVec.ofNat_add]
      generalize BitVec.ofNat 32 (4 * i) = n
      bv_omega
    exact ha ▸ range_add_subset (by omega)
  have hx : s₂.regs.esp + 40 = s₁.regs.esp := by
    have he : s₂.regs.esp = s₁.regs.esp - 44 + 4 + 0 := hr.esp
    rw [he]
    bv_omega
  rw [exec_restore, observe_eip hr, hs rfl, hs rfl, hs rfl, hs rfl, hs rfl, hs rfl, hs rfl, hs rfl, hx]

end Observe

section Capture

-- The values that are saved before the real method is called, if `n` arguments are copied.
def captured (s : State) (n : Nat) : List DWord :=
  [s.stack 0, s.regs.ecx, s.regs.edx] ++ (List.range n |>.map fun i => s.stack (1 + i))

-- The state after the values were saved.
def capture (t : Trampoline) (s : State) (n : Nat) : State where
  regs   := { s.regs with esp := s.regs.esp + 4, eax := s.stack n }
  eip    := s.eip + BitVec.ofNat 32 (bytes <| t.save ++ t.copyArgs n).length
  eflags := s.eflags
  memory := s.memory.writeDWords t.slot <| captured s n

@[simp]
theorem captured_length (s : State) (n : Nat) : (captured s n).length = 3 + n := by
  simp [captured]
  omega

theorem captured_arg {i n : Nat} (h : i < n) : (captured s n)[3 + i]? = some (s.stack <| 1 + i) := by
  rw [captured, List.getElem?_append_right (by simp)]
  simp [h]

theorem exec_save : exec t.save s = t.capture s 0 := by
  refine State.ext rfl ?_ rfl ?_
  case refine_1 =>
    have he : (exec t.save s).eip = s.eip + 1 + 5 + 6 + 6 := rfl
    rw [he, add_assoc, add_assoc, add_assoc]
    rfl
  case refine_2 =>
    have h {m : Memory} {vs ws : List DWord} (hl : 4 * (vs.length + ws.length) ≤ 2 ^ 32) :=
      writeDWords_append (m := m) (a := t.slot) hl
    have h₁ := h (m := s.memory) (show 4 * ([s.stack 0].length + [s.regs.ecx].length) ≤ 2 ^ 32 by simp)
    have h₂ := h (m := s.memory)
      (show 4 * ([s.stack 0, s.regs.ecx].length + [s.regs.edx].length) ≤ 2 ^ 32 by simp)
    exact (congrArg (fun m : Memory => m.writeDWords (t.slot + 8) [s.regs.edx]) h₁).trans h₂

theorem exec_copyArg {n : Nat} (hn : n < MAX_ARGS) :
    exec (t.copyArg n) s = {
      regs   := { s.regs with eax := s.stack n }
      eip    := s.eip + BitVec.ofNat 32 (bytes <| t.copyArg n).length
      eflags := s.eflags
      memory := s.memory.writeDWords (SlotState.argAddr t.slot n) [s.stack n]
    } := by
  rw [MAX_ARGS] at hn
  interval_cases n <;> exact State.ext rfl (add_assoc ..) rfl rfl

theorem exec_copyArg_capture {n : Nat} (hn : n < MAX_ARGS)
    (hd : Disjoint (range (s.regs.esp + 4) 32) (range t.slot SlotState.CAPTURE_SIZE)) :
    exec (t.copyArg n) (t.capture s n) = t.capture s (n + 1) := by
  rw [exec_copyArg hn]
  rw [MAX_ARGS] at hn
  have hs : (t.capture s n).stack n = s.stack (1 + n) := by
    refine State.stack_add rfl <| writeDWords_eqOn <| hd.mono ?_ ?_
    · rw [Nat.mul_add, BitVec.ofNat_add, ←add_assoc]
      exact range_add_subset (by omega)
    · rw [captured_length]
      exact range_subset <| show _ ≤ 56 by omega
  have hc : captured s (n + 1) = captured s n ++ [s.stack (1 + n)] := by
    simp [captured, List.range_succ]
  have hl : 12 + 4 * n = 4 * (captured s n).length := by
    rw [captured_length]
    omega
  rw [hs]
  refine State.ext ?_ ?_ rfl ?_
  · rw [capture, capture, Nat.add_comm]
  · simp only [capture, copyArgs, List.range_succ, List.flatMap_append, List.flatMap_singleton, bytes_append,
      List.length_append, BitVec.ofNat_add, add_assoc]
  · simp only [capture, SlotState.argAddr, hc, hl]
    exact writeDWords_append (by rw [captured_length, List.length_singleton]; omega)

theorem exec_capture {n : Nat} (hn : n ≤ MAX_ARGS)
    (hd : Disjoint (range (s.regs.esp + 4) 32) (range t.slot SlotState.CAPTURE_SIZE)) :
    exec (t.save ++ t.copyArgs n) s = t.capture s n := by
  induction n
  case zero      => exact exec_save
  case succ n hi =>
    have he : t.save ++ t.copyArgs (n + 1) = (t.save ++ t.copyArgs n) ++ t.copyArg n := by
      simp [copyArgs, List.range_succ]
    rw [he, exec_append, hi (Nat.le_of_lt hn), exec_copyArg_capture hn hd]

-- An instruction that saves a value goes on with the next instruction, and writes only to the slot state.
theorem next_of_mem_capture {n : Nat} {c : Code} (hn : n ≤ MAX_ARGS)
    (hc : c ∈ t.save ++ t.copyArgs n) (s : State) :
    (c.next s).eip = s.eip + BitVec.ofNat 32 c.bytes.length ∧
    Set.EqOn (c.next s).memory s.memory (range t.slot SlotState.CAPTURE_SIZE)ᶜ := by
  rw [MAX_ARGS] at hn
  have hw {m : Memory} {v : DWord} {i : Nat} (hi : i + 4 ≤ 56) :
      Set.EqOn (m.writeDWords (t.slot + BitVec.ofNat 32 i) [v]) m (range t.slot SlotState.CAPTURE_SIZE)ᶜ :=
    writeDWords_eqOn <| disjoint_compl_left.mono_right <| range_add_subset hi
  cases List.mem_append.mp hc
  case inl hc =>
    simp only [save, List.mem_cons, List.not_mem_nil, or_false] at hc
    obtain rfl | rfl | rfl | rfl := hc
    · exact ⟨rfl, fun _ _ => rfl⟩
    · have := hw (m := s.memory) (v := s.regs.eax) (i := 0) (by simp)
      exact ⟨rfl, by rwa [BitVec.add_zero] at this⟩
    · exact ⟨rfl, hw (i := 4) (by simp)⟩
    · exact ⟨rfl, hw (i := 8) (by simp)⟩
  case inr hc =>
    obtain ⟨i, hi, hc⟩ := List.mem_flatMap.mp hc
    rw [List.mem_range] at hi
    simp only [copyArg, List.mem_cons, List.not_mem_nil, or_false] at hc
    obtain rfl | rfl := hc
    · split <;> exact ⟨rfl, fun _ _ => rfl⟩
    · exact ⟨rfl, hw (by omega)⟩

theorem keeps_capture {n : Nat} (hn : n ≤ MAX_ARGS) (hd : Disjoint p (range t.slot SlotState.CAPTURE_SIZE)) :
    Keeps p (t.save ++ t.copyArgs n) s := by
  refine .of_forall fun c hc s => ?_
  have ⟨he, hm⟩ := next_of_mem_capture hn hc s
  exact ⟨he, hm.mono <| Set.subset_compl_iff_disjoint_right.mpr hd⟩

end Capture

section Call

theorem exec_callReal :
    exec t.callReal s =
      let m := s.memory.writeDWords (SlotState.espBeforeAddr t.slot) [s.regs.esp]
      { { s with memory := m }.push [s.eip + 12] with eip := m.dword t.real } := by
  have he : exec t.callReal s =
      let m := s.memory.writeDWords (SlotState.espBeforeAddr t.slot) [s.regs.esp]
      { { s with memory := m }.push [s.eip + 6 + 6] with eip := m.dword t.real } := rfl
  rw [he, add_assoc]
  rfl

theorem exec_saveResult :
    exec t.saveResult s = {
      s with
      eip    := s.eip + 11
      memory := s.memory.writeDWords (SlotState.espAfterAddr t.slot) [s.regs.esp]
        |>.writeDWords (SlotState.retvalAddr t.slot) [s.regs.eax]
    } :=
  State.ext rfl (add_assoc s.eip 6 5) rfl rfl

theorem exec_returnToCaller :
    exec t.returnToCaller s =
      let caller := s.memory.dword <| SlotState.callerAddr t.slot
      { s with eip := caller, memory := s.memory.writeDWords (s.regs.esp - 4) [caller] } := by
  refine State.ext ?_ ?_ rfl rfl
  · exact Regs.ext rfl rfl rfl rfl (sub_add_cancel s.regs.esp 4) rfl rfl rfl
  · exact State.stack_push (s := s) (i := 0) rfl (by simp)

end Call

end Tersafe.Trampoline
