import Mathlib
import MhoLauncher.Library.Machine
import MhoLauncher.Library.X86.Run
import MhoLauncher.TersafeStub.Object

open Memory X86

namespace TersafeStub

-- When the function starts, the return address is at the top of the stack and the stack arguments follow it.
def Method.call (f : Method) (s : State) (self : TsCreateObj) : State × TsCreateObj :=
  let (eax, self) := f.body (fun i => s.stack (i + 1)) s.memory self
  let t := s.drop <| 4 + BitVec.ofNat 32 (4 * f.stackArgs)
  ({ t with regs := { t.regs with eax }, eip := s.stack 0 }, self)

theorem Method.call_returns {f : Method} {s : State} {self : TsCreateObj} :
    Returns (BitVec.ofNat 32 <| 4 * f.stackArgs) s (f.call s self).1 :=
  ⟨rfl, (add_assoc ..).symm⟩

-- A caller in an arbitrary state calls a virtual method. It pushes the last stack argument first.
structure Call where
  slot       : Fin 32
  args       : List DWord
  returnAddr : DWord
  caller     : State

-- The numbers of stack arguments in the summary of the slots.
def documentedArgs : List Nat :=
  [1, 0, 1, 1, 0, 0]

theorem documentedArgs_le : ∀ n ∈ documentedArgs, n ≤ 4 := by
  decide

namespace Call

variable {c : Call} {gTersafeObj : DWord}

-- The state in which the method starts.
def entry (c : Call) (self : DWord) : State :=
  let s := c.caller.push (c.returnAddr :: c.args)
  { s with regs := { s.regs with ecx := self } }

-- The other slots tolerate up to four stack arguments.
def Documented (c : Call) : Prop :=
  match documentedArgs[c.slot.val]? with
  | some n => c.args.length = n
  | none   => c.args.length ≤ 4

-- The struct that is passed to `Init`, unless the argument is null.
def initStruct (self : DWord) (c : Call) : Option TsInitStruct :=
  match c.slot, c.args with
  | 0, p :: _ => if p ≠ 0 then some <| .load (c.entry self).memory p else none
  | _, _      => none

-- After the call the stack is as it was before the caller pushed the arguments.
def Balanced (c : Call) (s : State) : Prop :=
  s.regs.esp = c.caller.regs.esp

instance {s : State} : Decidable (c.Balanced s) :=
  inferInstanceAs <| Decidable (_ = _)

theorem Documented.length_le (h : c.Documented) : c.args.length ≤ 4 := by
  rw [Documented] at h
  split at h
  case h_1 n hn => exact h ▸ documentedArgs_le n (List.mem_of_getElem? hn)
  case h_2      => exact h

theorem entry_stack {i : Nat} {v : DWord} (h : c.Documented) (hv : c.args[i]? = some v) :
    (c.entry gTersafeObj).stack (i + 1) = v := by
  have hv' : (c.returnAddr :: c.args)[i + 1]? = some v := hv
  have hl := h.length_le
  exact State.stack_push hv' (by rw [List.length_cons]; omega)

-- The documented numbers are exact for the first six slots.
theorem Documented.getD_eq_iff (h : c.Documented) :
    documentedArgs[c.slot.val]?.getD 4 = c.args.length ↔ (6 ≤ c.slot.val → c.args.length = 4) := by
  rw [Documented] at h
  split at h
  case h_1 n hn =>
    have hs : c.slot.val < 6 := (List.getElem?_eq_some_iff.mp hn).1
    rw [hn, Option.getD_some, h]
    exact ⟨fun _ _ => by omega, fun _ => rfl⟩
  case h_2 hn =>
    have hs : 6 ≤ c.slot.val := List.getElem?_eq_none_iff.mp hn
    rw [hn, Option.getD_none]
    exact ⟨fun e _ => e.symm, fun hl => (hl hs).symm⟩

theorem balanced_iff {f : Method} {self : TsCreateObj} (h : c.Documented) (hf : f.stackArgs ≤ 4) :
    c.Balanced (f.call (c.entry gTersafeObj) self).1 ↔ f.stackArgs = c.args.length := by
  have hl := h.length_le
  have he : (c.entry gTersafeObj).regs.esp =
      c.caller.regs.esp - BitVec.ofNat 32 (4 * (c.args.length + 1)) :=
    rfl
  rw [Balanced, Method.call_returns.esp, he]
  bv_omega

theorem initStruct_of_ne (h : c.slot ≠ 0) : c.initStruct gTersafeObj = none := by
  rw [initStruct]
  split
  case h_1 h₀ _ => exact absurd h₀ h
  case h_2      => rfl

-- A call of `Init` passes one argument, which the method finds on the stack.
theorem initStruct_eq (h : c.Documented) (h₀ : c.slot = 0) :
    c.initStruct gTersafeObj =
    if (c.entry gTersafeObj).stack 1 ≠ 0 then
      some <| .load (c.entry gTersafeObj).memory ((c.entry gTersafeObj).stack 1)
    else
      none := by
  have hl : c.args.length = 1 := by simpa [Documented, h₀, documentedArgs] using h
  obtain ⟨p, hp⟩ := List.length_eq_one_iff.mp hl
  have hs : (c.entry gTersafeObj).stack 1 = p := entry_stack h (by rw [hp]; rfl)
  rw [hs, initStruct]
  simp only [h₀, hp]

end Call

section Table

variable {gTersafeVtable gTersafeObj : DWord} {slot : Fin 32}

theorem vtable_stackArgs :
    (initTersafeVtable gTersafeVtable gTersafeObj).vtable[slot].stackArgs =
    documentedArgs[slot.val]?.getD 4 := by
  fin_cases slot <;> rfl

theorem vtable_stackArgs_le :
    (initTersafeVtable gTersafeVtable gTersafeObj).vtable[slot].stackArgs ≤ 4 := by
  rw [vtable_stackArgs]
  cases h : documentedArgs[slot.val]?
  case none   => rfl
  case some n => exact documentedArgs_le n (List.mem_of_getElem? h)

theorem vtable_body_init {args : Nat → DWord} {m : Memory} {self : TsCreateObj} (h : slot = 0) :
    ((initTersafeVtable gTersafeVtable gTersafeObj).vtable[slot].body args m self).2 =
    if args 0 ≠ 0 then self.init <| .load m (args 0) else self := by
  subst h
  exact apply_ite Prod.snd ..

-- The other methods do not write to the object.
theorem vtable_body {args : Nat → DWord} {m : Memory} {self : TsCreateObj} (h : slot ≠ 0) :
    ((initTersafeVtable gTersafeVtable gTersafeObj).vtable[slot].body args m self).2 = self := by
  fin_cases slot <;> first | rfl | contradiction

end Table

section Run

variable (gTersafeVtable gTersafeObj : DWord)

def virtualCall : Machine.Spec Call State Stub :=
  fun c stub =>
    let (s, obj) := stub.vtable[c.slot].call (c.entry gTersafeObj) stub.obj
    (s, { stub with obj })

-- The struct of the most recent call of `Init` with an argument that is not null.
def recentInit (cs : List Call) : Option TsInitStruct :=
  (cs.filterMap <| Call.initStruct gTersafeObj).getLast?

variable {gTersafeVtable gTersafeObj} {c : Call} {cs : List Call} {stub : Stub}

theorem virtualCall_vtable : (virtualCall gTersafeObj c stub).2.vtable = stub.vtable :=
  rfl

theorem virtualCall_balanced (h : c.Documented)
    (hv : stub.vtable = (initTersafeVtable gTersafeVtable gTersafeObj).vtable) :
    c.Balanced (virtualCall gTersafeObj c stub).1 ↔ (6 ≤ c.slot.val → c.args.length = 4) := by
  have hs : stub.vtable[c.slot].stackArgs = documentedArgs[c.slot.val]?.getD 4 := by
    rw [hv, vtable_stackArgs]
  rw [virtualCall, ←h.getD_eq_iff, ←hs]
  exact Call.balanced_iff h <| hv ▸ vtable_stackArgs_le

theorem virtualCall_obj (h : c.Documented)
    (hv : stub.vtable = (initTersafeVtable gTersafeVtable gTersafeObj).vtable) :
    (virtualCall gTersafeObj c stub).2.obj = (c.initStruct gTersafeObj).elim stub.obj stub.obj.init := by
  by_cases h₀ : c.slot = 0
  case pos =>
    rw [virtualCall, Call.initStruct_eq h h₀, hv]
    refine (vtable_body_init h₀).trans ?_
    split <;> rfl
  case neg =>
    rw [virtualCall, c.initStruct_of_ne h₀, hv]
    exact vtable_body h₀

theorem recentInit_cons :
    recentInit gTersafeObj (c :: cs) = (recentInit gTersafeObj cs).or (c.initStruct gTersafeObj) := by
  rw [recentInit, recentInit, List.filterMap_cons]
  cases c.initStruct gTersafeObj
  case none   => rw [Option.or_none]
  case some i =>
    rw [List.getLast?_cons]
    cases (cs.filterMap <| Call.initStruct gTersafeObj).getLast? <;> rfl

theorem run_obj (h : ∀ c ∈ cs, c.Documented)
    (hv : stub.vtable = (initTersafeVtable gTersafeVtable gTersafeObj).vtable) :
    ((virtualCall gTersafeObj).run cs stub).2.obj =
    (recentInit gTersafeObj cs).elim stub.obj stub.obj.init := by
  induction cs generalizing stub
  case nil => rfl
  case cons c cs hi =>
    have ho := virtualCall_obj (h c <| .head _) hv
    have hv' : (virtualCall gTersafeObj c stub).2.vtable = _ := virtualCall_vtable.trans hv
    have hr := hi (fun _ hc => h _ <| .tail _ hc) hv'
    rw [ho] at hr
    rw [recentInit_cons]
    refine hr.trans ?_
    cases recentInit gTersafeObj cs <;> cases c.initStruct gTersafeObj <;> simp

-- The bytes in front of the three fields and after them never change.
theorem run_bytes (h : ∀ c ∈ cs, c.Documented)
    (hv : stub.vtable = (initTersafeVtable gTersafeVtable gTersafeObj).vtable) :
    let obj := ((virtualCall gTersafeObj).run cs stub).2.obj
    obj.bytes.take 20 = stub.obj.bytes.take 20 ∧ obj.bytes.drop 32 = stub.obj.bytes.drop 32 := by
  rw [run_obj h hv]
  cases recentInit gTersafeObj cs
  case none   => exact ⟨rfl, rfl⟩
  case some i => exact ⟨stub.obj.init_take i, stub.obj.init_drop i⟩

theorem run_balanced (h : ∀ c ∈ cs, c.Documented)
    (hv : stub.vtable = (initTersafeVtable gTersafeVtable gTersafeObj).vtable) :
    List.Forall₂ Call.Balanced cs ((virtualCall gTersafeObj).run cs stub).1 ↔
    ∀ c ∈ cs, 6 ≤ c.slot.val → c.args.length = 4 := by
  induction cs generalizing stub
  case nil => simp [Machine.Spec.run]
  case cons c cs hi =>
    rw [Machine.Spec.run, List.forall₂_cons, List.forall_mem_cons, virtualCall_balanced (h c <| .head _) hv]
    exact and_congr_right fun _ => hi (fun _ hc => h _ <| .tail _ hc) (virtualCall_vtable.trans hv)

variable (gTersafeVtable gTersafeObj) in
-- At every point of the run the calls have left the stack balanced, and the object is the one before `Init` but
-- for the fields that the most recent `Init` has set.
def Steady (cs : List Call) : Prop :=
  ∀ pre, pre <+: cs →
    let (ss, stub) := (virtualCall gTersafeObj).run pre (initTersafeVtable gTersafeVtable gTersafeObj)
    let obj := initPreState gTersafeVtable gTersafeObj
    List.Forall₂ Call.Balanced pre ss ∧ stub.obj = (recentInit gTersafeObj pre).elim obj obj.init

theorem steady_iff (h : ∀ c ∈ cs, c.Documented) :
    Steady gTersafeVtable gTersafeObj cs ↔ ∀ c ∈ cs, 6 ≤ c.slot.val → c.args.length = 4 := by
  constructor
  case mp =>
    intro hs
    exact (run_balanced h rfl).mp (hs cs List.prefix_rfl).left
  case mpr =>
    intro hl pre hp
    have hd : ∀ c ∈ pre, c.Documented := fun c hc => h c <| hp.subset hc
    exact ⟨(run_balanced hd rfl).mpr fun c hc => hl c <| hp.subset hc, run_obj hd rfl⟩

-- A call of `Init`, followed by a call of the last slot with four arguments.
theorem steady_init_catch :
    let s : State := ⟨⟨0, 0, 0, 0, 4096, 0, 0, 0⟩, 0, 0, fun _ => 1⟩
    Steady 8192 16384 [⟨0, [12288], 64, s⟩, ⟨31, [1, 2, 3, 4], 64, s⟩] := by
  intro s
  refine (steady_iff ?_).mpr ?_
  case refine_1 => simp [Call.Documented, documentedArgs]
  case refine_2 => simp

-- A call of slot 6 without arguments leaves the top of the stack 16 bytes too high.
theorem not_steady_catch :
    let s : State := ⟨⟨0, 0, 0, 0, 4096, 0, 0, 0⟩, 0, 0, fun _ => 0⟩
    let c : Call := ⟨6, [], 64, s⟩
    let ss := ((virtualCall 16384).run [c] (initTersafeVtable 8192 16384)).1
    c.Documented ∧ ss.map (·.regs.esp) = [4112] ∧ ¬Steady 8192 16384 [c] := by
  intro s c ss
  have he : ss.map (·.regs.esp) = [4112] := by decide
  have hd : c.args.length ≤ 4 := by decide
  refine ⟨hd, he, fun hs => ?_⟩
  have hb : List.Forall₂ Call.Balanced [c] [_] := (hs [c] List.prefix_rfl).left
  have hc : c.Balanced _ := (List.forall₂_cons.mp hb).left
  exact absurd hc (by decide)

end Run

end TersafeStub
