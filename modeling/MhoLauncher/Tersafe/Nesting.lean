import Mathlib
import MhoLauncher.Tersafe.Transparency

open Bytes HookTable Memory X86

namespace Tersafe

def Trampoline.state (t : Trampoline) : Set DWord :=
  range t.slot SlotState.SIZE

-- The part of a slot state that is written by the first observer.
def Trampoline.snapshots (t : Trampoline) : Set DWord :=
  range (t.slot + BitVec.ofNat 32 SlotState.CAPTURE_SIZE) (SlotState.SIZE - SlotState.CAPTURE_SIZE)

namespace Nesting

-- A call through a hooked slot that has not returned yet: the state in which the trampoline was called,
-- and the one in which the real method was entered.
structure Frame (ι : Type*) where
  slot   : ι
  entry  : State
  method : State

-- The innermost call comes first.
structure Config (ι : Type*) where
  state  : State
  frames : List (Frame ι)

def Config.Nonreentrant (c : Config ι) : Prop :=
  c.frames.map Frame.slot |>.Nodup

section Step

variable (t : ι → Trampoline)

-- The memory that only the trampolines and the observers write to.
def globals : Set DWord :=
  { x | ∃ i, x ∈ (t i).addrs ∪ (t i).state ∪ range (t i).real 4 }

structure Placement : Prop where
  addrs  : ∀ i j, Disjoint (t i).addrs (t j).state
  real   : ∀ i j, Disjoint (range (t i).real 4) (t j).state
  state  : ∀ i j, i ≠ j → Disjoint (t i).state (t j).state
  before : ∀ i, (t i).before ∉ (t i).addrs
  after  : ∀ i, (t i).after ∉ (t i).addrs

-- The trampoline of a slot is called in state `s`. The first observer runs from `s₁` to `s₂`, and the
-- real method is entered in state `s₃`.
structure Enters (i : ι) (s s₁ s₂ s₃ : State) : Prop where
  called   : (t i).IsCalled s
  stack    : Disjoint (globals t) (below (s.regs.esp + 4) 44)
  method   : s.memory.dword (t i).real ∉ (t i).addrs
  caller   : s.stack 0 ∉ (t i).addrs
  before   : Runs (t i).addrs s s₁
  observer : Cdecl (globals t \ (t i).snapshots ∪ below (s.regs.esp + 4) 40) s₁ s₂
  enter    : Runs (t i).addrs s₂ s₃

-- The real method of a slot, which was entered in the first state, returns in state `s`. The second
-- observer runs from `s₁` to `s₂`, and the trampoline is left in state `s₃`.
structure Exits (i : ι) (method s s₁ s₂ s₃ : State) : Prop where
  returns  : ∃ k, Returns k method s
  stack    : Disjoint (globals t) (below s.regs.esp 44)
  after    : Runs (t i).addrs s s₁
  observer : Cdecl (globals t ∪ below s.regs.esp 40) s₁ s₂
  leave    : Runs (t i).addrs s₂ s₃

-- The steps of a single thread. Code outside of the trampolines, such as a real method between the calls
-- that it makes, changes everything but the globals.
inductive Step : Config ι → Config ι → Prop
  | call {i s s₁ s₂ s₃ fs} : Enters t i s s₁ s₂ s₃ → Step ⟨s, fs⟩ ⟨s₃, ⟨i, s, s₃⟩ :: fs⟩
  | own  {s s' fs}         : Set.EqOn s'.memory s.memory (globals t) → Step ⟨s, fs⟩ ⟨s', fs⟩
  | ret  {f s s₁ s₂ s₃ fs} : Exits t f.slot f.method s s₁ s₂ s₃ → Step ⟨s, f :: fs⟩ ⟨s₃, fs⟩

-- A call returns to its own caller, and the second observer reads what was captured for this call.
structure Correct (f : Frame ι) (s₁ s₃ : State) : Prop where
  caller    : s₃.eip = f.entry.stack 0
  captures  : Trampoline.Captures f.entry <| SlotState.load (t f.slot).slot s₁.memory
  espBefore : (SlotState.load (t f.slot).slot s₁.memory).espBefore = f.entry.regs.esp + 4
  snapshots : Set.EqOn s₁.memory f.method.memory (t f.slot).snapshots

end Step

variable {t : ι → Trampoline} {i j : ι} {f : Frame ι} {s s' s₁ s₂ s₃ : State} {m m' : Memory}

section Sets

theorem addrs_subset (i : ι) : (t i).addrs ⊆ globals t :=
  fun _ h => ⟨i, .inl <| .inl h⟩

theorem state_subset (i : ι) : (t i).state ⊆ globals t :=
  fun _ h => ⟨i, .inl <| .inr h⟩

theorem real_subset (i : ι) : range (t i).real 4 ⊆ globals t :=
  fun _ h => ⟨i, .inr h⟩

theorem captures_subset (i : ι) : (t i).captures ⊆ (t i).state :=
  range_subset <| by simp [SlotState.CAPTURE_SIZE, SlotState.SIZE]

theorem snapshots_subset (i : ι) : (t i).snapshots ⊆ (t i).state :=
  range_add_subset <| by simp [SlotState.CAPTURE_SIZE, SlotState.SIZE]

theorem captures_disjoint_snapshots (i : ι) : Disjoint (t i).captures (t i).snapshots := by
  have := range_add_disjoint (a := (t i).slot) (i := 0) (n := 56) (k := 56) (l := 844) (by simp) (by simp)
  rwa [BitVec.add_zero] at this

theorem own_subset (i : ι) : (t i).own ⊆ globals t := by
  refine Set.union_subset (Set.union_subset (addrs_subset i) ?_) <| real_subset i
  exact (captures_subset i).trans <| state_subset i

variable (hp : Placement t)
include hp

theorem Placement.placed (i : ι) : (t i).Placed where
  addrs := (hp.addrs i i).mono_right <| captures_subset i
  real  := (hp.real i i).mono_right <| captures_subset i

theorem own_subset_diff (i : ι) : (t i).own ⊆ globals t \ (t i).snapshots := by
  refine Set.subset_sdiff.mpr ⟨own_subset i, ?_⟩
  refine Set.disjoint_union_left.mpr ⟨Set.disjoint_union_left.mpr ⟨?_, captures_disjoint_snapshots i⟩, ?_⟩
  · exact (hp.addrs i i).mono_right <| snapshots_subset i
  · exact (hp.real i i).mono_right <| snapshots_subset i

end Sets

section Open

-- The part of the memory of a slot that does not change while a call is open.
def kept (t : ι → Trampoline) (i : ι) : Set DWord :=
  let s := (t i).slot
  (t i).addrs ∪ (t i).state \ (range (SlotState.retvalAddr s) 4 ∪ range (SlotState.espAfterAddr s) 4)

-- What is known about a call that has not returned yet.
structure Open (t : ι → Trampoline) (m : Memory) (f : Frame ι) : Prop where
  loaded    : m.Loaded (t f.slot).tramp (t f.slot).code
  ret       : f.method.stack 0 = (t f.slot).resultAddr
  caller    : f.entry.stack 0 ∉ (t f.slot).addrs
  captures  : Trampoline.Captures f.entry <| SlotState.load (t f.slot).slot m
  espBefore : (SlotState.load (t f.slot).slot m).espBefore = f.entry.regs.esp + 4
  snapshots : Set.EqOn m f.method.memory (t f.slot).snapshots

theorem kept_subset (i : ι) : kept t i ⊆ globals t :=
  Set.union_subset (addrs_subset i) <| Set.sdiff_subset.trans <| state_subset i

theorem range_subset_kept {k n : Nat}
    (h : k + n ≤ 44 ∨ 48 ≤ k ∧ k + n ≤ 52 ∨ 56 ≤ k ∧ k + n ≤ SlotState.SIZE) :
    range ((t i).slot + BitVec.ofNat 32 k) n ⊆ kept t i := by
  rw [SlotState.SIZE] at h
  refine Set.subset_union_of_subset_right (Set.subset_sdiff.mpr ⟨range_add_subset ?_, ?_⟩) _
  · rw [SlotState.SIZE]
    omega
  · refine Set.disjoint_union_right.mpr ⟨?_, ?_⟩
    · cases h
      case inl h => exact range_add_disjoint (k := 44) (by omega) (by simp)
      case inr h => exact (range_add_disjoint (i := 44) (by omega) (by omega)).symm
    · by_cases hk : k + n ≤ 52
      case pos => exact range_add_disjoint (k := 52) (by omega) (by simp)
      case neg => exact (range_add_disjoint (i := 52) (by omega) (by omega)).symm

theorem Placement.kept_state (hp : Placement t) (h : i ≠ j) : Disjoint (kept t i) (t j).state :=
  Set.disjoint_union_left.mpr ⟨hp.addrs i j, hp.state i j h |>.mono_left Set.sdiff_subset⟩

theorem results_subset_state (i : ι) :
    range (SlotState.retvalAddr (t i).slot) 4 ∪ range (SlotState.espAfterAddr (t i).slot) 4 ⊆ (t i).state :=
  Trampoline.results_subset.trans <| captures_subset i

theorem Placement.kept_results (hp : Placement t) (i j : ι) :
    Disjoint (kept t i)
      (range (SlotState.retvalAddr (t j).slot) 4 ∪ range (SlotState.espAfterAddr (t j).slot) 4) := by
  by_cases h : i = j
  case pos =>
    exact h ▸ Set.disjoint_union_left.mpr
      ⟨(hp.addrs i i).mono_right <| results_subset_state i, Set.disjoint_sdiff_left⟩
  case neg => exact (hp.kept_state h).mono_right <| results_subset_state j

theorem Open.congr (h : Open t m f) (hm : Set.EqOn m' m <| kept t f.slot) : Open t m' f where
  loaded    := h.loaded.congr <| hm.mono Set.subset_union_left
  ret       := h.ret
  caller    := h.caller
  captures  := by
    have := hm.mono <| range_subset_kept (k := 0) (n := 44) (by simp)
    exact h.captures.congr <| by rwa [BitVec.add_zero] at this
  espBefore := (dword_congr <| hm.mono <| range_subset_kept (k := 48) (n := 4) <| by simp).trans h.espBefore
  snapshots := (hm.mono <|
    range_subset_kept <| by simp [SlotState.SIZE, SlotState.CAPTURE_SIZE]).trans h.snapshots

end Open

section Enter

variable (hp : Placement t) (he : Enters t i s s₁ s₂ s₃)
include hp he

theorem Enters.entersReal :
    (t i).EntersReal (globals t \ (t i).snapshots ∪ below (s.regs.esp + 4) 40) s s₃ := by
  have hs := Set.union_subset_union_left (below (s.regs.esp + 4) 40) <| own_subset_diff hp i
  have h₁ := he.before.unique <| (Trampoline.enters_before (hp.placed i) he.called).runs (hp.before i)
  have hr := h₁ ▸ he.observer
  have h := Trampoline.entersReal (hp.placed i) he.called hr.memory hs
  have h₃ := he.enter.unique <|
    (Trampoline.enters_real (hp.placed i) he.called hr hs).runs (h.eip ▸ he.method)
  exact h₃ ▸ h

-- The trampolines and the pointers to the methods.
theorem Enters.keeps_code (j : ι) : Set.EqOn s₃.memory s.memory ((t j).addrs ∪ range (t j).real 4) := by
  have hs := Set.union_subset (addrs_subset j) <| real_subset (t := t) j
  refine (he.entersReal hp).memory.mono <| Set.subset_sdiff.mpr ⟨?_, Set.disjoint_union_right.mpr ⟨?_, ?_⟩⟩
  · refine Set.subset_union_of_subset_left (Set.subset_sdiff.mpr ⟨hs, ?_⟩) _
    exact (Set.disjoint_union_left.mpr ⟨hp.addrs j i, hp.real j i⟩).mono_right <| snapshots_subset i
  · exact (Set.disjoint_union_left.mpr ⟨hp.addrs j i, hp.real j i⟩).mono_right <| captures_subset i
  · exact he.stack.mono_left hs

theorem Enters.opens : Open t s₃.memory ⟨i, s, s₃⟩ where
  loaded    := he.called.loaded.congr <| (he.keeps_code hp i).mono Set.subset_union_left
  ret       := (he.entersReal hp).ret
  caller    := he.caller
  captures  := (he.entersReal hp).captures
  espBefore := (he.entersReal hp).espBefore
  snapshots := fun _ _ => rfl

-- A call through another slot.
theorem Enters.keeps (ho : Open t s.memory f) (hf : f.slot ≠ i) : Open t s₃.memory f := by
  have hd := hp.kept_state hf
  refine ho.congr <| (he.entersReal hp).memory.mono <|
    Set.subset_sdiff.mpr ⟨?_, Set.disjoint_union_right.mpr ⟨?_, ?_⟩⟩
  · refine Set.subset_union_of_subset_left (Set.subset_sdiff.mpr ⟨kept_subset _, ?_⟩) _
    exact hd.mono_right <| snapshots_subset i
  · exact hd.mono_right <| captures_subset i
  · exact he.stack.mono_left <| kept_subset _

omit he in
-- A call gets to the real method if the first observer returns.
theorem enters_exists (hc : (t i).IsCalled s) (hs : Disjoint (globals t) (below (s.regs.esp + 4) 44))
    (hm : s.memory.dword (t i).real ∉ (t i).addrs) (hr : s.stack 0 ∉ (t i).addrs) :
    ∃ s₁, ∀ s₂, Cdecl (globals t \ (t i).snapshots ∪ below (s.regs.esp + 4) 40) s₁ s₂ →
      ∃ s₃, Enters t i s s₁ s₂ s₃ := by
  have hp' := Set.union_subset_union_left (below (s.regs.esp + 4) 40) <| own_subset_diff hp i
  have ⟨s₁, h₁, hb, h⟩ := Trampoline.transparent (hp.placed i) s _ hc hp'
  refine ⟨s₁, fun s₂ ho => ?_⟩
  have ⟨s₃, h₃, he, _⟩ := h s₂ ho
  exact ⟨s₃, hc, hs, hm, hr, h₁.runs <| hb.eip ▸ hp.before i, ho, h₃.runs <| he.eip ▸ hm⟩

end Enter

section Exit

-- The slot state holds what was captured for a call `f`, which is not necessarily the one that returns.
variable {method : State} (hp : Placement t) (he : Exits t f.slot method s s₁ s₂ s₃)
    (hr : method.stack 0 = (t f.slot).resultAddr) (ho : Open t s.memory f)
include hp he hr ho

omit hp in
theorem Exits.isReturned : (t f.slot).IsReturned s where
  eip    := he.returns.choose_spec.eip.trans hr
  loaded := ho.loaded
  stack  := he.stack.mono_left <| own_subset _

theorem Exits.observerEntry : s₁ = (t f.slot).observerEntry (t f.slot).after ((t f.slot).result s) :=
  he.after.unique <| (Trampoline.enters_after (hp.placed _) <| he.isReturned hr ho).runs (hp.after _)

theorem Exits.leaves : (t f.slot).Leaves (globals t ∪ below s.regs.esp 40) s s₃ := by
  have hs := Set.union_subset_union_left (below s.regs.esp 40) <| own_subset (t := t) f.slot
  have hc := he.observerEntry hp hr ho ▸ he.observer
  have h := Trampoline.leaves (he.isReturned hr ho) hc.memory hs
  have ha := (h.eip.trans ho.captures.caller) ▸ ho.caller
  exact he.leave.unique ((Trampoline.leaves_caller (hp.placed _) (he.isReturned hr ho) hc hs).runs ha) ▸ h

theorem Exits.correct : Correct t f s₁ s₃ := by
  have ha := he.observerEntry hp hr ho ▸ Trampoline.entersAfter (he.isReturned hr ho)
  have h : Open t s₁.memory f := by
    refine ho.congr <| ha.memory.mono <| Set.subset_compl_iff_disjoint_right.mpr ?_
    exact Set.disjoint_union_right.mpr ⟨hp.kept_results _ _, he.stack.mono_left <| kept_subset _⟩
  exact ⟨(he.leaves hp hr ho).eip.trans ho.captures.caller, h.captures, h.espBefore, h.snapshots⟩

theorem Exits.keeps {f' : Frame ι} (ho' : Open t s.memory f') : Open t s₃.memory f' := by
  refine ho'.congr <| (he.leaves hp hr ho).memory.mono <| Set.subset_sdiff.mpr ⟨?_, ?_⟩
  · exact Set.subset_union_of_subset_left (kept_subset _) _
  · exact Set.disjoint_union_right.mpr ⟨hp.kept_results _ _, he.stack.mono_left <| kept_subset _⟩

omit he in
-- A call returns if the second observer does.
theorem exits_exists (hk : ∃ k, Returns k method s) (hs : Disjoint (globals t) (below s.regs.esp 44)) :
    ∃ s₁, ∀ s₂, Cdecl (globals t ∪ below s.regs.esp 40) s₁ s₂ → ∃ s₃, Exits t f.slot method s s₁ s₂ s₃ := by
  have hi : (t f.slot).IsReturned s := ⟨hk.choose_spec.eip.trans hr, ho.loaded, hs.mono_left <| own_subset _⟩
  have hp' := Set.union_subset_union_left (below s.regs.esp 40) <| own_subset (t := t) f.slot
  refine ⟨(t f.slot).observerEntry (t f.slot).after <| (t f.slot).result s, fun s₂ hc => ?_⟩
  have hl := Trampoline.leaves hi hc.memory hp'
  have ha := (hl.eip.trans ho.captures.caller) ▸ ho.caller
  have h₁ := (Trampoline.enters_after (hp.placed _) hi).runs (hp.after _)
  exact ⟨_, hk, hs, h₁, hc, (Trampoline.leaves_caller (hp.placed _) hi hc hp').runs ha⟩

end Exit

section Run

variable {c c' : Config ι}

-- All open calls keep what was captured when they were made, unless one of them is made again.
theorem Step.keeps_open (hp : Placement t) (hs : Step t c c') (hn : c'.Nonreentrant)
    (ho : ∀ f ∈ c.frames, Open t c.state.memory f) : ∀ f ∈ c'.frames, Open t c'.state.memory f := by
  cases hs
  case call he =>
    have ⟨hi, _⟩ := List.nodup_cons.mp hn
    intro f hf
    cases hf
    case head    => exact he.opens hp
    case tail hf =>
      exact he.keeps hp (ho f hf) fun h => hi <| List.mem_map.mpr ⟨f, hf, h⟩
  case own hm =>
    exact fun f hf => (ho f hf).congr <| hm.mono <| kept_subset _
  case ret he =>
    have hf := ho _ <| List.mem_cons_self ..
    exact fun f' hf' => he.keeps hp hf.ret hf <| ho f' <| List.mem_cons_of_mem _ hf'

theorem open_of_run (hp : Placement t) (h : c.frames = [])
    (hr : Relation.ReflTransGen (fun c c' => Step t c c' ∧ c'.Nonreentrant) c c') :
    ∀ f ∈ c'.frames, Open t c'.state.memory f := by
  induction hr
  case refl         => exact fun _ hf => absurd (h ▸ hf) List.not_mem_nil
  case tail hs hi   => exact hs.left.keeps_open hp hs.right hi

-- In every run in which no slot is called again while a call through it is open, all calls return to
-- their own callers.
theorem correct_of_run (hp : Placement t) (h : c.frames = [])
    (hr : Relation.ReflTransGen (fun c c' => Step t c c' ∧ c'.Nonreentrant) c c')
    {fs : List (Frame ι)} (hf : c'.frames = f :: fs) (he : Exits t f.slot f.method c'.state s₁ s₂ s₃) :
    Correct t f s₁ s₃ := by
  have ho := open_of_run hp h hr f <| hf ▸ List.mem_cons_self ..
  exact he.correct hp ho.ret ho

end Run

end Nesting

end Tersafe
