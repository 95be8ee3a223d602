import Mathlib
import MhoLauncher.Tersafe.Readback
import MhoLauncher.Tersafe.Slots

open Bytes CryGame CryGame.ProcessMemory HookTable Memory Tersafe.Nesting X86

namespace Tersafe

section Observers

variable (g : Globals) (readable : DWord → Prop) [DecidablePred readable] (m : Memory)

-- The observers that the trampoline of a slot calls.
def Slot.runBefore : Slot → DWord → DWord → Option (Snapshots × List Line)
  | .vt _    => tersafeObserverBefore g readable m
  | .sub _ _ => tersafeSubObserverBefore g readable m

def Slot.runAfter : Slot → DWord → Snapshots → List Line
  | .vt _    => tersafeObserverAfter g readable m
  | .sub _ _ => tersafeSubObserverAfter g readable m

def Slot.name : Slot → Name
  | .vt k    => .vt k
  | .sub b k => .sub b k

def Slot.beforeFailed : Slot → List Line
  | .vt _    => [.thisFailed]
  | .sub _ _ => []

def Slot.afterFailed : Slot → List Line
  | .vt _    => [.thisAfterFailed]
  | .sub _ _ => []

variable {g} {readable} {m} {tramp : Slot → DWord} {i : Slot} {tid : DWord} {snaps : Snapshots}

theorem Slot.beforeFailed_silent : Silent i.beforeFailed := by
  cases i <;> exact ⟨rfl, fun _ => rfl, fun _ => rfl⟩

theorem Slot.afterFailed_silent : Silent i.afterFailed := by
  cases i <;> exact ⟨rfl, fun _ => rfl, fun _ => rfl⟩

theorem vt_name : ∀ k : Fin NUM_SLOTS, ((BitVec.ofNat 8 k).signExtend 32).toNat = k := by
  decide

theorem sub_name (b : Fin NUM_SUBS) (k : Fin SUB_SLOTS) :
    subName (BitVec.ofNat 32 (b.val <<< 8 ||| k.val)) = .sub b k := by
  have hb : b.val < 2 := b.isLt
  have hk : k.val < 16 := k.isLt
  rw [subName, encoded_sub b b.isLt k k.isLt, encoded_slot b b.isLt k k.isLt, BitVec.toNat_ofNat,
    BitVec.toNat_ofNat, Nat.mod_eq_of_lt (by omega), Nat.mod_eq_of_lt (by omega)]

-- The argument of the trampoline leads the first observer to the slot state that the trampoline writes.
theorem runBefore_eq : i.runBefore g readable m (hooks g tramp i).arg tid =
    some (observeBefore i.name i.beforeFailed (.load (hooks g tramp i).slot m) tid (view readable m)) := by
  cases i
  case vt k =>
    have ho := vtTrampoline_observed g (tramp <| .vt k) k.isLt
    refine (congrArg (Option.map _) ho).trans <| congrArg some ?_
    exact congrArg (observeBefore · [.thisFailed] _ tid _) <| congrArg Name.vt <| vt_name k
  case sub b k =>
    have ho := subTrampoline_observed g (tramp <| .sub b k) b.isLt k.isLt
    refine (congrArg (Option.map _) ho).trans <| congrArg some ?_
    exact congrArg (observeBefore · [] _ tid _) <| sub_name b k

theorem runAfter_eq : i.runAfter g readable m (hooks g tramp i).arg snaps =
    observeAfter i.name i.afterFailed (.load (hooks g tramp i).slot m) snaps (view readable m) := by
  cases i
  case vt k =>
    have ho := vtTrampoline_observed g (tramp <| .vt k) k.isLt
    refine (congrArg (Option.elim · [] _) ho).trans ?_
    exact congrArg (observeAfter · [.thisAfterFailed] _ snaps _) <| congrArg Name.vt <| vt_name k
  case sub b k =>
    have ho := subTrampoline_observed g (tramp <| .sub b k) b.isLt k.isLt
    refine (congrArg (Option.elim · [] _) ho).trans ?_
    exact congrArg (observeAfter · [] _ snaps _) <| sub_name b k

end Observers

section Logged

-- The lines of a call of a slot in state `s`, whose first observer ran in state `s₁`, whose method removed `k`
-- bytes from the stack and returned in state `s₄`, and whose second observer ran in state `s₅`.
structure Logged (i : Slot) (tid : DWord) (s s₄ : State) (k : DWord) (m m' : ProcessMemory)
    (ls ls' : List Line) : Prop where
  entry    : ls.take 2 = [.entry i.name s.regs.ecx s.regs.edx (s.stack 0) tid,
    .stack (List.range MAX_ARGS |>.map fun j => s.stack (1 + j))]
  returned : ls'.head? = some (.returned i.name s₄.regs.eax k.toInt (if k.toInt ≥ 0 then k.toInt / 4 else -1))
  readback : ∀ c, Trampoline.Captures s c → Readback c m m' (ls ++ ls')

variable {g : Globals} {tramp : Slot → DWord} {i : Slot} {tid : DWord} {s s₁ s₂ s₄ s₅ : State} {k : DWord}
variable {readable readable' : DWord → Prop} [DecidablePred readable] [DecidablePred readable']

theorem Readback.congr {c d : SlotState} {m m' : ProcessMemory} {ls : List Line} (h : Readback c m m' ls)
    (ht : d.thisPtr = c.thisPtr) (he : d.edx = c.edx) (ha : d.args = c.args) : Readback d m m' ls := by
  constructor
  case thisBefore => exact ht ▸ h.thisBefore
  case thisAfter  => exact ht ▸ h.thisAfter
  case this       => exact ht ▸ h.this
  case edxBefore  => exact he ▸ h.edxBefore
  case edx        => exact he ▸ h.edx
  case argBefore  => exact ha ▸ h.argBefore
  case arg        => exact ha ▸ h.arg

-- The lines of a call, if the slot state holds the captured values when the observers run.
theorem logged_of_captures {c c' : SlotState} {m m' : ProcessMemory} (h : Trampoline.Captures s c)
    (h' : Trampoline.Captures s c') (hr : c'.retval = s₄.regs.eax) (hk : c'.espAfter - c'.espBefore = k) :
    Logged i tid s s₄ k m m' (observeBefore i.name i.beforeFailed c tid m).2
      (observeAfter i.name i.afterFailed c' (observeBefore i.name i.beforeFailed c tid m).1 m') := by
  constructor
  case entry    => rw [←h.thisPtr, ←h.edx, ←h.caller, ←h.args]; rfl
  case returned =>
    have hd : espDelta c' = k.toInt := congrArg BitVec.toInt hk
    have hn : nArgsInferred c' = if k.toInt ≥ 0 then k.toInt / 4 else -1 := by
      rw [nArgsInferred, hd]
      split
      case isTrue hz  => exact Int.tdiv_eq_ediv_of_nonneg hz
      case isFalse hz => rfl
    rw [←hr, ←hn, ←hd]
    rfl
  case readback =>
    intro d hd
    refine Readback.congr (c := c) ?_ (hd.thisPtr.trans h.thisPtr.symm) (hd.edx.trans h.edx.symm)
      (hd.args.trans h.args.symm)
    exact observe_readback Slot.beforeFailed_silent Slot.afterFailed_silent
      (h'.thisPtr.trans h.thisPtr.symm) (h'.edx.trans h.edx.symm) (h'.args.trans h.args.symm)

-- The log tells what a call of a hooked method does: the captured registers and arguments, the result, the
-- number of bytes that the method has removed from the stack, and the targets of the pointers. The observers
-- see the memory of the call, except for what the trampoline itself has written.
theorem calls_logged (g : Globals) (tramp : Slot → DWord) (i : Slot) (h : (hooks g tramp i).Placed)
    (s : State) (p : Set DWord) (tid : DWord) (readable readable' : DWord → Prop) [DecidablePred readable]
    [DecidablePred readable'] (hs : (hooks g tramp i).IsCalled s)
    (hp : (hooks g tramp i).own ∪ below (s.regs.esp + 4) 40 ⊆ p) :
    let t := hooks g tramp i
    ∃ s₁ snaps ls, Steps t.addrs s s₁ ∧ t.EntersBefore s s₁ ∧
      Set.EqOn s₁.memory s.memory (t.captures ∪ below (s.regs.esp + 4) 44)ᶜ ∧
      i.runBefore g readable s₁.memory (s₁.stack 1) tid = some (snaps, ls) ∧
      ∀ s₂, Cdecl p s₁ s₂ → ∃ s₃, Steps t.addrs s₂ s₃ ∧ t.EntersReal p s s₃ ∧
        ∀ k s₄, Returns k s₃ s₄ → Set.EqOn s₄.memory s₃.memory (t.addrs ∪ t.captures) →
          Disjoint t.own (below s₄.regs.esp 44) →
          ∃ s₅, Steps t.addrs s₄ s₅ ∧ t.EntersAfter s₄ s₅ ∧
            Logged i tid s s₄ k (view readable s₁.memory) (view readable' s₅.memory) ls
              (i.runAfter g readable' s₅.memory (s₅.stack 1) snaps) := by
  intro t
  have hb : Set.EqOn (t.observerEntry t.before <| t.capture s MAX_ARGS).memory s.memory
      (t.captures ∪ below (s.regs.esp + 4) 44)ᶜ :=
    fun x hx => Trampoline.enters_eqOn (p := Set.univ) (fun _ _ => rfl) ⟨trivial, hx⟩
  have he := Trampoline.entersBefore (t := t) hs.stack
  refine ⟨_, _, _, Trampoline.enters_before h hs, he, hb,
    (congrArg (i.runBefore g readable _ · tid) he.arg).trans runBefore_eq, fun s₂ hr => ?_⟩
  have hm := Trampoline.entersReal h hs hr.memory hp
  refine ⟨_, Trampoline.enters_real h hs hr hp, hm, fun k s₄ hk hc hd => ?_⟩
  have hs₄ : t.IsReturned s₄ := by
    refine ⟨hk.eip.trans hm.ret, ?_, hd⟩
    refine hs.loaded.congr <| (hc.mono Set.subset_union_left).trans <| hm.memory.mono ?_
    exact Trampoline.subset_diff Trampoline.addrs_subset hp h.addrs hs.stack
  have ha := Trampoline.entersAfter hs₄
  refine ⟨_, Trampoline.enters_after h hs₄, ha, ?_⟩
  rw [ha.arg, runAfter_eq]
  have hc₄ : Trampoline.Captures s <| SlotState.load t.slot s₄.memory := by
    refine hm.captures.congr <| hc.mono <| Set.subset_union_of_subset_right (range_subset ?_) _
    simp [SlotState.CAPTURE_SIZE]
  have hb₄ : (SlotState.load t.slot s₄.memory).espBefore = s.regs.esp + 4 := by
    refine Eq.trans (dword_congr <| hc.mono ?_) hm.espBefore
    refine Set.subset_union_of_subset_right ?_ _
    exact Trampoline.captures_range_subset (i := 48) (n := 4) (by simp [SlotState.CAPTURE_SIZE])
  have hr := ha.eqOn (i := 0) (n := 44) hd (by simp)
  refine logged_of_captures he.captures (hc₄.congr <| by rwa [BitVec.add_zero] at hr) ha.retval ?_
  have hb₅ := (dword_congr <| ha.eqOn (i := 48) (n := 4) hd (by simp)).trans hb₄
  refine (congrArg (_ - ·) hb₅).trans ?_
  rw [ha.espAfter, hk.esp, hm.regs]
  exact add_sub_cancel_left ..

-- `Tick` returns at once. All memory can be read.
theorem calls_logged_tick : ∃ s₄ m m' ls ls', Logged tick 7 exampleState s₄ 0 m m' ls ls' ∧
    s₄.eip = (exampleHooks tick).resultAddr := by
  have hp := hooks_placement example_placed
  have hd : Disjoint (globals exampleHooks) (below (exampleState.regs.esp + 4) 44) :=
    example_stack (by decide) (by decide)
  have ha : Disjoint (globals exampleHooks) (range (exampleState.regs.esp + 4) 32) :=
    example_stack (by decide) (by decide)
  have hc : (exampleHooks tick).IsCalled exampleState :=
    ⟨rfl, exampleState_loaded, (ha.mono_left <| Trampoline.captures_subset.trans <| own_subset _).symm,
      hd.mono_left <| own_subset _⟩
  have ⟨s₁, snaps, ls, _, _, _, _, h⟩ := calls_logged exampleGlobals exampleTramp tick (hp.placed tick)
    exampleState Set.univ 7 (fun _ => True) (fun _ => True) hc (Set.subset_univ _)
  have ⟨s₃, _, hr, h⟩ := h s₁.ret <| cdecl_ret ..
  have he : s₃.ret.regs.esp = 0x200004 := by
    have he : s₃.ret.regs.esp = s₃.regs.esp + 4 := rfl
    rw [he, hr.regs]
    rfl
  have hs : Disjoint (globals exampleHooks) (below s₃.ret.regs.esp 44) := by
    rw [he]
    exact example_stack (by decide) (by decide)
  have ⟨s₅, _, _, hl⟩ :=
    h 0 s₃.ret (cdecl_ret Set.univ _).toReturns (fun _ _ => rfl) (hs.mono_left <| own_subset _)
  exact ⟨_, _, _, _, _, hl, hr.ret⟩

end Logged

end Tersafe
