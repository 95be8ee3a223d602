import MhoLauncher.Tersafe.Nesting

open Bytes HookTable Memory X86

namespace Tersafe

-- The slots that can be hooked.
inductive Slot
  | vt  (slot : Fin NUM_SLOTS)
  | sub (sub : Fin NUM_SUBS) (slot : Fin SUB_SLOTS)

-- The trampolines of all slots.
def hooks (g : Globals) (tramp : Slot → DWord) : Slot → Trampoline
  | .vt slot      => vtTrampoline g (tramp <| .vt slot) slot
  | .sub sub slot => subTrampoline g (tramp <| .sub sub slot) sub slot

-- The arrays `g_slot` and `g_sub_slot`.
def Globals.states (g : Globals) : Set DWord :=
  range g.slot (SlotState.SIZE * NUM_SLOTS) ∪ range g.subSlot (SlotState.SIZE * (SUB_SLOTS * NUM_SUBS))

-- The arrays `g_real_vt` and `g_real_sub`.
def Globals.reals (g : Globals) : Set DWord :=
  range g.realVt (4 * NUM_SLOTS) ∪ range g.realSub (4 * (SUB_SLOTS * NUM_SUBS))

def Globals.observers (g : Globals) : Set DWord :=
  { g.observerBefore, g.observerAfter, g.subObserverBefore, g.subObserverAfter }

-- The global variables and the allocated memory do not overlap.
structure Globals.Placed (g : Globals) (tramp : Slot → DWord) : Prop where
  slots     : Disjoint (range g.slot <| SlotState.SIZE * NUM_SLOTS)
    (range g.subSlot <| SlotState.SIZE * (SUB_SLOTS * NUM_SUBS))
  reals     : Disjoint g.reals g.states
  pages     : ∀ i, Disjoint (range (tramp i) 0x1000) g.states
  observers : ∀ i, Disjoint (range (tramp i) 0x1000) g.observers

section Hooks

variable {g : Globals} {tramp : Slot → DWord} (h : g.Placed tramp)

theorem hooks_addrs_subset (i : Slot) : (hooks g tramp i).addrs ⊆ range (tramp i) 0x1000 := by
  have hl := (hooks g tramp i).length
  have hc := (hooks g tramp i).code_length
  have ht : (hooks g tramp i).tramp = tramp i := by cases i <;> rfl
  rw [Trampoline.addrs, ht]
  exact range_subset (by omega)

theorem hooks_state_subset (i : Slot) : (hooks g tramp i).state ⊆ g.states := by
  cases i
  case vt i    =>
    exact Set.subset_union_of_subset_left (range_add_subset <| by simp [SlotState.SIZE, NUM_SLOTS]; omega) _
  case sub b i =>
    refine Set.subset_union_of_subset_right (range_add_subset ?_) _
    simp [SlotState.SIZE, NUM_SUBS, SUB_SLOTS]
    omega

theorem hooks_real_subset (i : Slot) : range (hooks g tramp i).real 4 ⊆ g.reals := by
  cases i
  case vt i    => exact Set.subset_union_of_subset_left (range_add_subset <| by simp [NUM_SLOTS]; omega) _
  case sub b i =>
    refine Set.subset_union_of_subset_right (range_add_subset ?_) _
    simp [NUM_SUBS, SUB_SLOTS]
    omega

include h

theorem hooks_state_disjoint {i j : Slot} (hn : i ≠ j) :
    Disjoint (hooks g tramp i).state (hooks g tramp j).state := by
  have hd {a : DWord} {k l : Nat} (hk : k < 32) (hl : l < 32) (hn : k ≠ l) :
      Disjoint (range (a + BitVec.ofNat 32 (900 * k)) 900) (range (a + BitVec.ofNat 32 (900 * l)) 900) := by
    cases Nat.lt_or_gt_of_ne hn
    case inl hn => exact range_add_disjoint (by omega) (by omega)
    case inr hn => exact (range_add_disjoint (by omega) (by omega)).symm
  have hs {k : Nat} (hk : k < NUM_SLOTS) :
      range (g.slotAt k) SlotState.SIZE ⊆ range g.slot (SlotState.SIZE * NUM_SLOTS) :=
    range_add_subset <| by rw [SlotState.SIZE]; omega
  have hb {k l : Nat} (hk : k < NUM_SUBS) (hl : l < SUB_SLOTS) :
      range (g.subSlotAt k l) SlotState.SIZE ⊆ range g.subSlot (SlotState.SIZE * (SUB_SLOTS * NUM_SUBS)) :=
    range_add_subset <| by rw [SlotState.SIZE, SUB_SLOTS] at *; omega
  cases i <;> cases j
  case vt.vt i j        =>
    have hi : i.val < 6 := i.isLt
    have hj : j.val < 6 := j.isLt
    exact hd (by omega) (by omega) fun he => hn <| congrArg _ <| Fin.ext he
  case vt.sub i b j     => exact h.slots.mono (hs i.isLt) (hb b.isLt j.isLt)
  case sub.vt b i j     => exact (h.slots.mono (hs j.isLt) (hb b.isLt i.isLt)).symm
  case sub.sub b i c j =>
    have hb : b.val < 2 := b.isLt
    have hi : i.val < 16 := i.isLt
    have hc : c.val < 2 := c.isLt
    have hj : j.val < 16 := j.isLt
    refine hd (k := 16 * b + i) (l := 16 * c + j) (by omega) (by omega) fun he => hn ?_
    rw [Fin.ext (show b.val = c.val by omega), Fin.ext (show i.val = j.val by omega)]

theorem hooks_placement : Nesting.Placement (hooks g tramp) where
  addrs i j := (h.pages i).mono (hooks_addrs_subset i) (hooks_state_subset j)
  real i j  := h.reals.mono (hooks_real_subset i) (hooks_state_subset j)
  state _ _ := hooks_state_disjoint h
  before i  := by
    refine fun hn => Set.disjoint_left.mp (h.observers i) (hooks_addrs_subset i hn) ?_
    cases i <;> simp [hooks, vtTrampoline, subTrampoline, Globals.observers]
  after i   := by
    refine fun hn => Set.disjoint_left.mp (h.observers i) (hooks_addrs_subset i hn) ?_
    cases i <;> simp [hooks, vtTrampoline, subTrampoline, Globals.observers]

end Hooks

open Nesting in
-- In every run in which no slot is called while an earlier call through it is open, every call returns
-- to its own caller, and the second observer reads what was captured for this call.
theorem hooks_return_to_caller (g : Globals) (tramp : Slot → DWord) (h : g.Placed tramp) (c₀ c : Config Slot)
    (h₀ : c₀.frames = [])
    (hr : Relation.ReflTransGen (fun c c' => Step (hooks g tramp) c c' ∧ c'.Nonreentrant) c₀ c)
    (f : Frame Slot) (fs : List (Frame Slot)) (s₁ s₂ s₃ : State) (hf : c.frames = f :: fs)
    (he : Exits (hooks g tramp) f.slot f.method c.state s₁ s₂ s₃) : Correct (hooks g tramp) f s₁ s₃ :=
  correct_of_run (hooks_placement h) h₀ hr hf he

section Example

open Nesting

def exampleGlobals : Globals :=
  ⟨0x700000, 0x710000, 0x720000, 0x730000, 0x600000, 0x601000, 0x602000, 0x603000⟩

def exampleTramp : Slot → DWord
  | .vt slot      => 0x10000 + BitVec.ofNat 32 (0x1000 * slot)
  | .sub sub slot => 0x20000 + BitVec.ofNat 32 (0x1000 * (SUB_SLOTS * sub + slot))

abbrev exampleHooks : Slot → Trampoline :=
  hooks exampleGlobals exampleTramp

-- The slot `Tick`.
def tick : Slot :=
  .vt ⟨4, by decide⟩

-- The trampoline of `Tick` is called from `0x401000`. The real method is at `0x40404040`.
def exampleState : State where
  regs   := ⟨1, 2, 3, 4, 0x200000, 6, 7, 8⟩
  eip    := (exampleHooks tick).tramp
  eflags := 0x202
  memory := Memory.write (fun _ => 0x40) (exampleHooks tick).tramp (exampleHooks tick).code
    |>.writeDWords 0x200000 [0x401000]

theorem exampleTramp_le (i : Slot) : (exampleTramp i).toNat + 0x1000 ≤ 0x100000 := by
  cases i
  case vt i    => exact (by decide : ∀ i, (exampleTramp <| .vt i).toNat + 0x1000 ≤ 0x100000) i
  case sub b i => exact (by decide : ∀ b i, (exampleTramp <| .sub b i).toNat + 0x1000 ≤ 0x100000) b i

theorem example_placed : exampleGlobals.Placed exampleTramp where
  slots       := range_disjoint (by decide) (by decide)
  reals       := by
    refine Set.disjoint_union_left.mpr ⟨?_, ?_⟩ <;> refine Set.disjoint_union_right.mpr ⟨?_, ?_⟩ <;>
      exact (range_disjoint (by decide) (by decide)).symm
  pages i     := by
    have := exampleTramp_le i
    refine Set.disjoint_union_right.mpr ⟨range_disjoint ?_ (by decide), range_disjoint ?_ (by decide)⟩
    · exact this.trans <| show 0x100000 ≤ 0x700000 by simp
    · exact this.trans <| show 0x100000 ≤ 0x710000 by simp
  observers i := by
    have ho {x : DWord} (hx : 0x100000 ≤ x.toNat) : x ∉ range (exampleTramp i) 0x1000 := by
      have := exampleTramp_le i
      refine Set.disjoint_right.mp (range_disjoint (c := x) (l := 1) (by omega) (by omega)) ?_
      simp [mem_range]
    refine Set.disjoint_right.mpr fun x hx => ?_
    obtain rfl | rfl | rfl | rfl := hx <;> exact ho (by decide)

-- The globals do not overlap the stack.
theorem example_stack {a : DWord} {n : Nat} (ha : 0x100000 ≤ a.toNat) (hn : a.toNat + n ≤ 0x600000) :
    Disjoint (globals exampleHooks) (range a n) := by
  have hs {c : DWord} {k : Nat} (hc : 0x700000 ≤ c.toNat) (hk : c.toNat + k ≤ 2 ^ 32) :
    Disjoint (range c k) (range a n) :=
    (range_disjoint (by omega) hk).symm
  rw [Set.disjoint_left]
  intro x ⟨i, hx⟩ hr
  cases hx
  case inl hx =>
    cases hx
    case inl hx =>
      have := exampleTramp_le i
      exact Set.disjoint_left.mp (range_disjoint (by omega) (by omega)) (hooks_addrs_subset i hx) hr
    case inr hx =>
      cases hooks_state_subset i hx
      case inl hx => exact Set.disjoint_left.mp (hs (by decide) (by decide)) hx hr
      case inr hx => exact Set.disjoint_left.mp (hs (by decide) (by decide)) hx hr
  case inr hx =>
    cases hooks_real_subset i hx
    case inl hx => exact Set.disjoint_left.mp (hs (by decide) (by decide)) hx hr
    case inr hx => exact Set.disjoint_left.mp (hs (by decide) (by decide)) hx hr

theorem example_not_mem {x : DWord} (h : 0x100000 ≤ x.toNat) (i : Slot) : x ∉ (exampleHooks i).addrs := by
  intro hx
  have := exampleTramp_le i
  refine Set.disjoint_right.mp (range_disjoint (c := x) (l := 1) (by omega) (by omega)) ?_
    (hooks_addrs_subset _ hx)
  simp [mem_range]

-- A call gets to the real method if the observer returns at once.
theorem example_enters {i : Slot} {s : State} (he : s.eip = (exampleHooks i).tramp)
    (hl : s.memory.Loaded (exampleHooks i).tramp (exampleHooks i).code)
    (hs : 0x180000 ≤ s.regs.esp.toNat ∧ s.regs.esp.toNat ≤ 0x280000)
    (hm : 0x100000 ≤ (s.memory.dword (exampleHooks i).real).toNat) (hr : 0x100000 ≤ (s.stack 0).toNat) :
    ∃ s₁ s₂ s₃, Enters exampleHooks i s s₁ s₂ s₃ := by
  have hd : Disjoint (globals exampleHooks) (below (s.regs.esp + 4) 44) :=
    example_stack (by bv_omega) (by bv_omega)
  have ha : Disjoint (globals exampleHooks) (range (s.regs.esp + 4) 32) :=
    example_stack (by bv_omega) (by bv_omega)
  have hc : (exampleHooks i).IsCalled s :=
    ⟨he, hl, (ha.mono_left <| Trampoline.captures_subset.trans <| own_subset _).symm,
      hd.mono_left <| own_subset _⟩
  have ⟨s₁, h⟩ := enters_exists (hooks_placement example_placed) hc hd (example_not_mem hm i)
    (example_not_mem hr i)
  have ⟨s₃, h⟩ := h s₁.ret <| cdecl_ret ..
  exact ⟨s₁, s₁.ret, s₃, h⟩

-- A call returns if the observer does so at once.
theorem example_exits {f : Frame Slot} {method s : State}
    (hr : method.stack 0 = (exampleHooks f.slot).resultAddr) (ho : Open exampleHooks s.memory f)
    (hk : ∃ k, Returns k method s) (hs : 0x180000 ≤ s.regs.esp.toNat ∧ s.regs.esp.toNat ≤ 0x280000) :
    ∃ s₁ s₂ s₃, Exits exampleHooks f.slot method s s₁ s₂ s₃ := by
  have hd : Disjoint (globals exampleHooks) (below s.regs.esp 44) := example_stack (by bv_omega) (by bv_omega)
  have ⟨s₁, h⟩ := exits_exists (hooks_placement example_placed) hr ho hk hd
  have ⟨s₃, h⟩ := h s₁.ret <| cdecl_ret ..
  exact ⟨s₁, s₁.ret, s₃, h⟩

theorem exampleState_stack : exampleState.stack 0 = 0x401000 := by
  have h : [(0x401000 : DWord)][0]? = some 0x401000 := rfl
  exact dword_writeDWords h (by simp)

theorem exampleState_eqOn : Set.EqOn exampleState.memory
    (Memory.write (fun _ => 0x40) (exampleHooks tick).tramp (exampleHooks tick).code)
      (globals exampleHooks) :=
  writeDWords_eqOn <| example_stack (by decide) (by decide)

theorem exampleState_loaded :
    exampleState.memory.Loaded (exampleHooks tick).tramp (exampleHooks tick).code := by
  have hc := (exampleHooks tick).code_length
  have hl := (exampleHooks tick).length
  exact (loaded_write (by omega)).congr <| exampleState_eqOn.mono <| addrs_subset tick

theorem example_real_disjoint (i j : Slot) :
    Disjoint (range (exampleHooks i).real 4) (exampleHooks j).addrs := by
  have hj := exampleTramp_le j
  have hr : Disjoint (range (exampleTramp j) 0x1000) exampleGlobals.reals := by
    refine Set.disjoint_union_right.mpr ⟨range_disjoint ?_ (by decide), range_disjoint ?_ (by decide)⟩
    · exact hj.trans <| show 0x100000 ≤ 0x720000 by simp
    · exact hj.trans <| show 0x100000 ≤ 0x730000 by simp
  exact (hr.mono (hooks_addrs_subset j) (hooks_real_subset i)).symm

theorem exampleState_real (i : Slot) : exampleState.memory.dword (exampleHooks i).real = 0x40404040 := by
  have hw : Set.EqOn (Memory.write (fun _ => 0x40) (exampleHooks tick).tramp (exampleHooks tick).code)
      (fun _ => 0x40) (range (exampleHooks i).real 4) := write_eqOn <| example_real_disjoint i tick
  have hr : Memory.read (fun _ => 0x40) (exampleHooks i).real 4 = [0x40, 0x40, 0x40, 0x40] := rfl
  rw [dword_congr <| (exampleState_eqOn.mono <| real_subset i).trans hw, Memory.dword, hr]
  decide

theorem exampleState_enters : ∃ s₁ s₂ s₃, Enters exampleHooks tick exampleState s₁ s₂ s₃ := by
  have hr : 0x100000 ≤ (exampleState.memory.dword (exampleHooks tick).real).toNat := by
    rw [exampleState_real]
    decide
  have hs : 0x100000 ≤ (exampleState.stack 0).toNat := by
    rw [exampleState_stack]
    decide
  exact example_enters rfl exampleState_loaded (by decide) hr hs

-- The real method of `Tick` calls another method, or itself.
def reentry (i : Slot) (s : State) : State :=
  { s.push [0x40404050] with eip := (exampleHooks i).tramp }

section Reentry

variable {i : Slot} {s s₁ s₂ s₃ : State} (he : Enters exampleHooks tick s s₁ s₂ s₃)
  (hs : s.regs.esp = 0x200000)
include he hs

theorem example_esp : s₃.regs.esp = 0x200000 := by
  rw [(he.entersReal <| hooks_placement example_placed).regs, hs]

theorem reentry_esp : (reentry i s₃).regs.esp = 0x1FFFFC := by
  have h : (reentry i s₃).regs.esp = s₃.regs.esp - 4 := rfl
  rw [h, example_esp he hs]
  rfl

omit he hs in
theorem reentry_stack (s : State) : (reentry i s).stack 0 = 0x40404050 :=
  State.stack_push (s := s) rfl (by simp)

theorem reentry_eqOn : Set.EqOn (reentry i s₃).memory s₃.memory (globals exampleHooks) := by
  refine State.push_memory_eqOn ?_
  rw [example_esp he hs]
  exact example_stack (by decide) (by decide)

theorem reentry_enters (hl : s.memory.Loaded (exampleHooks i).tramp (exampleHooks i).code)
    (hr : s.memory.dword (exampleHooks i).real = 0x40404040) :
    ∃ s₄ s₅ s₆, Enters exampleHooks i (reentry i s₃) s₄ s₅ s₆ := by
  have hp := hooks_placement example_placed
  have hk := he.keeps_code hp i
  refine example_enters rfl ?_ (by rw [reentry_esp he hs]; decide) ?_ (by rw [reentry_stack]; decide)
  · exact (hl.congr <| hk.mono Set.subset_union_left).congr <|
      (reentry_eqOn he hs).mono <| addrs_subset i
  · rw [dword_congr <| (reentry_eqOn he hs).mono <| real_subset i,
      dword_congr <| hk.mono Set.subset_union_right, hr]
    decide

-- The outer call returns after the inner one.
def returned (method inner : State) : State :=
  { inner.drop 4 with eip := method.stack 0 }

theorem inner_exits {s₄ s₅ s₆ : State} (hi : Enters exampleHooks i (reentry i s₃) s₄ s₅ s₆) :
    ∃ t₁ t₂ t₃, Exits exampleHooks i s₆ s₆.ret t₁ t₂ t₃ ∧ t₃.regs.esp = 0x200000 := by
  have hp := hooks_placement example_placed
  have ho := hi.opens hp
  have e : s₆.ret.regs.esp = 0x200000 := by
    have h : s₆.ret.regs.esp = s₆.regs.esp + 4 := rfl
    rw [h, (hi.entersReal hp).regs, reentry_esp he hs]
    rfl
  have ⟨t₁, t₂, t₃, x⟩ := example_exits (f := ⟨i, reentry i s₃, s₆⟩) (s := s₆.ret) ho.ret ho
    ⟨0, (cdecl_ret Set.univ _).toReturns⟩ (e ▸ by decide)
  exact ⟨t₁, t₂, t₃, x, by rw [(x.leaves hp ho.ret ho).regs, e]⟩

theorem outer_exits {f : Frame Slot} {t₃ : State} (hf : f.slot = tick)
    (ho : Open exampleHooks (returned s₃ t₃).memory f) (ht : t₃.regs.esp = 0x200000) :
    ∃ u₁ u₂ u₃, Exits exampleHooks f.slot s₃ (returned s₃ t₃) u₁ u₂ u₃ := by
  have e : (returned s₃ t₃).regs.esp = 0x200004 := by
    have h : (returned s₃ t₃).regs.esp = t₃.regs.esp + 4 := rfl
    rw [h, ht]
    rfl
  refine example_exits ?_ ho ⟨0, rfl, by rw [e, example_esp he hs]; rfl⟩ (e ▸ by decide)
  exact hf ▸ (he.opens <| hooks_placement example_placed).ret

-- The run up to the return of the inner call, and up to that of the outer one.
theorem nested_runs {s₄ s₅ s₆ t₁ t₂ t₃ : State} (hi : Enters exampleHooks i (reentry i s₃) s₄ s₅ s₆)
    (x : Exits exampleHooks i s₆ s₆.ret t₁ t₂ t₃) {P : Config Slot → Prop}
    (h₁ : ∀ u, P ⟨u, [⟨tick, s, s₃⟩]⟩) (h₂ : ∀ u, P ⟨u, [⟨i, reentry i s₃, s₆⟩, ⟨tick, s, s₃⟩]⟩) :
    Relation.ReflTransGen (fun c c' => Step exampleHooks c c' ∧ P c') ⟨s, []⟩
      ⟨s₆.ret, [⟨i, reentry i s₃, s₆⟩, ⟨tick, s, s₃⟩]⟩ ∧
    Relation.ReflTransGen (fun c c' => Step exampleHooks c c' ∧ P c') ⟨s, []⟩
      ⟨returned s₃ t₃, [⟨tick, s, s₃⟩]⟩ := by
  have m₁ : Set.EqOn s₆.ret.memory s₆.memory (globals exampleHooks) := fun _ _ => rfl
  have m₂ : Set.EqOn (returned s₃ t₃).memory t₃.memory (globals exampleHooks) := fun _ _ => rfl
  have r : Relation.ReflTransGen (fun c c' => Step exampleHooks c c' ∧ P c') ⟨s, []⟩ _ :=
    .single ⟨.call he, h₁ _⟩
  have r := r.tail ⟨.own <| reentry_eqOn (i := i) he hs, h₁ _⟩
  have r := r.tail ⟨.call hi, h₂ _⟩
  have r := r.tail ⟨.own m₁, h₂ _⟩
  exact ⟨r, (r.tail ⟨.ret (f := ⟨i, reentry i s₃, s₆⟩) x, h₁ _⟩).tail ⟨.own m₂, h₁ _⟩⟩

end Reentry

-- A slot of the first sub-object.
def subSlot : Slot :=
  .sub ⟨0, by decide⟩ ⟨2, by decide⟩

-- The trampoline of this slot is in memory, too.
def nestedState : State :=
  { exampleState with
    memory := exampleState.memory.write (exampleHooks subSlot).tramp (exampleHooks subSlot).code }

theorem example_addrs_disjoint : Disjoint (exampleHooks tick).addrs (exampleHooks subSlot).addrs :=
  (range_disjoint (by decide) (by decide)).mono (hooks_addrs_subset tick) (hooks_addrs_subset subSlot)

theorem nestedState_eqOn {t : Set DWord} (h : Disjoint t (exampleHooks subSlot).addrs) :
    Set.EqOn nestedState.memory exampleState.memory t :=
  write_eqOn h

theorem nestedState_stack : nestedState.stack 0 = 0x401000 := by
  refine (dword_congr <| nestedState_eqOn ?_).trans exampleState_stack
  exact (example_stack (by decide) (by decide)).symm.mono_right <| addrs_subset subSlot

theorem nestedState_real (i : Slot) : nestedState.memory.dword (exampleHooks i).real = 0x40404040 :=
  (dword_congr <| nestedState_eqOn <| example_real_disjoint i subSlot).trans <| exampleState_real i

theorem nestedState_enters : ∃ s₁ s₂ s₃, Enters exampleHooks tick nestedState s₁ s₂ s₃ := by
  refine example_enters rfl ?_ (by decide) ?_ ?_
  · exact exampleState_loaded.congr <| nestedState_eqOn example_addrs_disjoint
  · rw [nestedState_real]
    decide
  · rw [nestedState_stack]
    decide

-- `Tick` calls a method of the sub-object, and each call returns to its own caller.
theorem hooks_return_to_caller_nested :
    ∃ (f g : Frame Slot) (s s₁ s₂ s₃ t₁ t₂ t₃ : State), f.slot = tick ∧ g.slot = subSlot ∧
      Relation.ReflTransGen (Step exampleHooks) ⟨nestedState, []⟩ ⟨g.method.ret, [g, f]⟩ ∧
      Exits exampleHooks g.slot g.method g.method.ret s₁ s₂ s₃ ∧ Correct exampleHooks g s₁ s₃ ∧
      s₃.eip = 0x40404050 ∧ Exits exampleHooks f.slot f.method s t₁ t₂ t₃ ∧ Correct exampleHooks f t₁ t₃ ∧
      t₃.eip = 0x401000 := by
  have hp := hooks_placement example_placed
  have ⟨_, _, m₁, h₁⟩ := nestedState_enters
  have hc := (exampleHooks subSlot).code_length
  have hl := (exampleHooks subSlot).length
  have ⟨_, _, m₂, h₂⟩ := reentry_enters (i := subSlot) h₁ rfl (loaded_write (by omega)) (nestedState_real _)
  have ⟨s₁, s₂, s₃, x₁, he⟩ := inner_exits h₁ rfl h₂
  let f : Frame Slot := ⟨tick, nestedState, m₁⟩
  let g : Frame Slot := ⟨subSlot, reentry subSlot m₁, m₂⟩
  have hn : subSlot ≠ tick := nofun
  have ho : Open exampleHooks m₂.memory f :=
    h₂.keeps hp ((h₁.opens hp).congr <| (reentry_eqOn h₁ rfl).mono <| kept_subset _) hn.symm
  have hi := h₂.opens hp
  have ⟨t₁, t₂, t₃, x₂⟩ := outer_exits (f := f) h₁ rfl rfl (x₁.keeps (f := g) hp hi.ret hi ho) he
  have ⟨r₁, r₂⟩ := nested_runs (P := Config.Nonreentrant) h₁ rfl h₂ x₁ (fun _ => List.nodup_singleton _)
    fun _ => List.nodup_cons.mpr ⟨by simpa using hn, List.nodup_singleton _⟩
  have c₁ := hooks_return_to_caller exampleGlobals exampleTramp example_placed _ _ rfl r₁ g [f] _ _ _ rfl x₁
  have c₂ := hooks_return_to_caller exampleGlobals exampleTramp example_placed _ _ rfl r₂ f [] _ _ _ rfl x₂
  refine ⟨f, g, _, s₁, s₂, s₃, t₁, t₂, t₃, rfl, rfl, r₁.lift id fun _ _ h => h.left, x₁, c₁, ?_, x₂, c₂, ?_⟩
  · exact c₁.caller.trans <| reentry_stack m₁
  · exact c₂.caller.trans nestedState_stack

-- A call of `Tick` that is made while `Tick` is open overwrites the return address of the outer call. The
-- outer call then returns to the caller of the inner one.
theorem reentrant_call_returns_to_inner_caller :
    ∃ (c : Config Slot) (f : Frame Slot) (fs : List (Frame Slot)) (s₁ s₂ s₃ : State),
      Relation.ReflTransGen (Step exampleHooks) ⟨exampleState, []⟩ c ∧ c.frames = f :: fs ∧
      Exits exampleHooks f.slot f.method c.state s₁ s₂ s₃ ∧
      f.entry.stack 0 = 0x401000 ∧ s₃.eip = 0x40404050 ∧ ¬Correct exampleHooks f s₁ s₃ := by
  have hp := hooks_placement example_placed
  have ⟨_, _, m₁, h₁⟩ := exampleState_enters
  have ⟨_, _, m₂, h₂⟩ := reentry_enters h₁ rfl exampleState_loaded (exampleState_real tick)
  have ⟨_, _, s₃, x₁, he⟩ := inner_exits h₁ rfl h₂
  let f : Frame Slot := ⟨tick, exampleState, m₁⟩
  let g : Frame Slot := ⟨tick, reentry tick m₁, m₂⟩
  have hi := h₂.opens hp
  -- The slot state is still the one of the inner call.
  have ho : Open exampleHooks (returned m₁ s₃).memory g := x₁.keeps (f := g) hp hi.ret hi hi
  have ⟨t₁, t₂, t₃, x₂⟩ := outer_exits (f := g) h₁ rfl rfl ho he
  have ⟨_, r⟩ := nested_runs (P := fun _ => True) h₁ rfl h₂ x₁ (fun _ => trivial) fun _ => trivial
  have hc := (x₂.correct hp (h₁.opens hp).ret ho).caller.trans <| reentry_stack m₁
  refine ⟨⟨returned m₁ s₃, [f]⟩, f, [], t₁, t₂, t₃, r.lift id fun _ _ h => h.left, rfl, x₂, exampleState_stack,
    hc, fun hn => ?_⟩
  exact absurd (hc.symm.trans <| hn.caller.trans exampleState_stack) (by decide)

end Example

end Tersafe
