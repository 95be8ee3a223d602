import MhoLauncher.HookTable.Basic

open Bytes HookTable

namespace Tersafe

def MAX_ARGS : Nat := 8

def NUM_SLOTS : Nat := 6

def NUM_SUBS : Nat := 2

def SUB_SLOTS : Nat := 16

-- The fields of a `SlotState` that the trampolines write. The snapshots of the observers follow.
structure SlotState where
  caller    : DWord
  thisPtr   : DWord
  edx       : DWord
  args      : List DWord
  retval    : DWord
  espBefore : DWord
  espAfter  : DWord

namespace SlotState

-- The number of bytes of the fields above, and of all fields.
def CAPTURE_SIZE : Nat := 56

def SIZE : Nat := 900

variable (s : DWord)

def callerAddr : DWord := s

def thisPtrAddr : DWord := s + 4

def edxAddr : DWord := s + 8

def argAddr (i : Nat) : DWord := s + BitVec.ofNat 32 (12 + 4 * i)

def retvalAddr : DWord := s + 44

def espBeforeAddr : DWord := s + 48

def espAfterAddr : DWord := s + 52

def load (m : Memory) : SlotState where
  caller    := m.dword (callerAddr s)
  thisPtr   := m.dword (thisPtrAddr s)
  edx       := m.dword (edxAddr s)
  args      := List.range MAX_ARGS |>.map fun i => m.dword (argAddr s i)
  retval    := m.dword (retvalAddr s)
  espBefore := m.dword (espBeforeAddr s)
  espAfter  := m.dword (espAfterAddr s)

end SlotState

-- The addresses of the global variables and of the observers.
structure Globals where
  slot              : DWord
  subSlot           : DWord
  realVt            : DWord
  realSub           : DWord
  observerBefore    : DWord
  observerAfter     : DWord
  subObserverBefore : DWord
  subObserverAfter  : DWord

namespace Globals

variable (g : Globals)

def slotAt (i : Nat) : DWord :=
  g.slot + BitVec.ofNat 32 (SlotState.SIZE * i)

def subSlotAt (sub i : Nat) : DWord :=
  g.subSlot + BitVec.ofNat 32 (SlotState.SIZE * (SUB_SLOTS * sub + i))

def realVtAt (i : Nat) : DWord :=
  g.realVt + BitVec.ofNat 32 (4 * i)

def realSubAt (sub i : Nat) : DWord :=
  g.realSub + BitVec.ofNat 32 (4 * (SUB_SLOTS * sub + i))

-- The state that `tersafe_observer_before` and `tersafe_observer_after` use, if any.
def observed (slot : DWord) : Option DWord :=
  if slot.toInt < 0 ∨ slot.toInt ≥ NUM_SLOTS then none else some (g.slotAt slot.toNat)

-- The state that `tersafe_sub_observer_before` and `tersafe_sub_observer_after` use, if any.
def subObserved (idx : DWord) : Option DWord :=
  let sub  := idx.sshiftRight 8 &&& 0xFF
  let slot := idx &&& 0xFF
  if sub.toInt < 0 ∨ sub.toInt ≥ NUM_SUBS then
    none
  else if slot.toInt < 0 ∨ slot.toInt ≥ SUB_SLOTS then
    none
  else
    some (g.subSlotAt sub.toNat slot.toNat)

end Globals

section Emitter

def w8 (b : Byte) : Emitter Unit :=
  emit 0 [b]

def w32 (v : DWord) : Emitter Unit :=
  emit 0 (toLE 4 v)

def emitCallRel (target : DWord) : Emitter Unit := do
  w8 0xE8
  emitRel 0 target

variable (s : DWord)

-- Saves the return address, `ecx` and `edx`.
def emitSave : Emitter Unit := do
  w8 0x58
  w8 0xA3; w32 (SlotState.callerAddr s)
  w8 0x89; w8 0x0D; w32 (SlotState.thisPtrAddr s)
  w8 0x89; w8 0x15; w32 (SlotState.edxAddr s)

-- Copies an argument of the stack.
def emitCopyArg (i : Nat) : Emitter Unit := do
  let off := i * 4
  if off = 0 then
    w8 0x8B; w8 0x04; w8 0x24
  else
    w8 0x8B; w8 0x44; w8 0x24; w8 (BitVec.ofNat 8 off)
  w8 0xA3; w32 (SlotState.argAddr s i)

-- Calls an observer, whose argument is pushed by the given program.
def emitObserve (pushArg : Emitter Unit) (observer : DWord) : Emitter Unit := do
  w8 0x60; w8 0x9C
  pushArg
  emitCallRel observer
  w8 0x83; w8 0xC4; w8 0x04
  w8 0x9D; w8 0x61

-- Calls the function that the pointer at the given address points to.
def emitCallReal (real : DWord) : Emitter Unit := do
  w8 0x89; w8 0x25; w32 (SlotState.espBeforeAddr s)
  w8 0xFF; w8 0x15; w32 real
  w8 0x89; w8 0x25; w32 (SlotState.espAfterAddr s)
  w8 0xA3; w32 (SlotState.retvalAddr s)

def emitReturn : Emitter Unit := do
  w8 0xFF; w8 0x35; w32 (SlotState.callerAddr s)
  w8 0xC3

-- The common part of the two emitters.
def emitTrampoline (pushArg : Emitter Unit) (before after real : DWord) : Emitter Unit := do
  emitSave s
  forM (List.range MAX_ARGS) (emitCopyArg s)
  emitObserve pushArg before
  emitCallReal s real
  emitObserve pushArg after
  emitReturn s

variable (g : Globals)

def emitVtTrampoline (slot : Nat) : Emitter Unit :=
  emitTrampoline (g.slotAt slot) (do w8 0x6A; w8 (BitVec.ofNat 8 slot))
    g.observerBefore g.observerAfter (g.realVtAt slot)

def emitSubTrampoline (sub slot : Nat) : Emitter Unit :=
  let encoded := BitVec.ofNat 32 (sub <<< 8 ||| slot)
  emitTrampoline (g.subSlotAt sub slot) (do w8 0x68; w32 encoded) g.subObserverBefore g.subObserverAfter
    (g.realSubAt sub slot)

-- Fills the allocated memory before the trampoline is written to it.
def writeTrampoline (tramp : DWord) (e : Emitter Unit) (m : Memory) : Memory :=
  let m := m.write tramp (List.replicate 0x1000 0xCC)
  let ((), m, _) := e.run (m, tramp)
  m

end Emitter

end Tersafe
