import MhoLauncher.HookTable.Emitter

open Bytes

namespace HookTable

section Patch

variable (m : Memory)

def writeMemory (address : DWord) (value : List Byte) : Memory :=
  m.write address value

def hookCall (baseAddr offset fnAddr : DWord) : Memory :=
  let patchHookAddr := baseAddr + offset
  let relativeFnHookAddr := fnAddr - (patchHookAddr + 1 + 4)
  let m := writeMemory m patchHookAddr [0xE8]
  writeMemory m (patchHookAddr + 1) (toLE 4 relativeFnHookAddr)

def patchJmp (baseAddr offset fnAddr : DWord) : Memory :=
  let patchHookAddr := baseAddr + offset
  let relativeFnHookAddr := fnAddr - (patchHookAddr + 1 + 4)
  let m := writeMemory m patchHookAddr [0xE9]
  writeMemory m (patchHookAddr + 1) (toLE 4 relativeFnHookAddr)

def patchNop (baseAddr offset : DWord) (count : Nat) : Memory :=
  let patchHookAddr := baseAddr + offset
  let nops := List.replicate count 0x90
  writeMemory m patchHookAddr nops

end Patch

structure HookContext where
  edi  : DWord
  esi  : DWord
  ebp  : DWord
  _esp : DWord
  ebx  : DWord
  edx  : DWord
  ecx  : DWord
  eax  : DWord

-- The context that a `HookContext *` points to.
def HookContext.load (m : Memory) (ctx : DWord) : HookContext :=
  let field i := m.dword (ctx + BitVec.ofNat 32 (4 * i))
  {
    edi := field 0, esi := field 1, ebp := field 2, _esp := field 3,
    ebx := field 4, edx := field 5, ecx := field 6, eax := field 7
  }

-- The address of the `k`-th double word.
def hookStack (ctx : DWord) (k : Nat) : DWord :=
  ctx + 32 + BitVec.ofNat 32 (4 * k)

structure CallHookEntry where
  offset   : DWord
  targetFn : DWord

-- The stolen bytes carry their number, which is a positive `int`.
structure JmpHookEntry where
  offset         : DWord
  callback       : DWord
  stolenBytes    : List Byte
  stolenCount_lt : stolenBytes.length < 2 ^ 31

def JmpHookEntry.stolenCount (e : JmpHookEntry) : Nat :=
  e.stolenBytes.length

structure NopPatchEntry where
  offset   : DWord
  count    : Nat
  count_lt : count < 2 ^ 31

def writeTrampoline (code returnAddr : DWord) (stolen : List Byte) (callback : DWord) : Emitter Unit := do
  emit code [0x60]
  emit code [0x8D]; emit code [0x04]; emit code [0x24]
  emit code [0x50]
  emit code [0xB8]
  emit code (toLE 4 callback)
  emit code [0xFF]; emit code [0xD0]
  emit code [0x83]; emit code [0xC4]; emit code [0x04]
  emit code [0x61]
  emit code stolen
  emit code [0xE9]
  emitRel code returnAddr

-- The `code` is the result of the call to `VirtualAlloc`.
def generateTrampoline (m : Memory) (code : Option DWord) (returnAddr : DWord) (stolen : List Byte)
    (callback : DWord) : Memory × DWord :=
  match code with
  | none      => (m, 0)
  | some code =>
    let ((), m, _) := (writeTrampoline code returnAddr stolen callback).run (m, 0)
    (m, code)

section Install

variable (base : DWord)

def installCallHooks (entries : List CallHookEntry) (m : Memory) : Memory :=
  entries.foldl (fun m e => hookCall m base e.offset e.targetFn) m

-- Replaces the remaining bytes beyond the jump.
def fillNops (hookAddr : DWord) (stolenCount : Nat) (m : Memory) : Memory :=
  List.range' 5 (stolenCount - 5) |>.foldl (fun m j => writeMemory m (hookAddr + BitVec.ofNat 32 j) [0x90]) m

-- The second component of an entry is the result of the call to `VirtualAlloc` for its trampoline.
def installJmpHook (m : Memory) : JmpHookEntry × Option DWord → Memory
  | (e, code) =>
    let hookAddr := base + e.offset
    let returnAddr := hookAddr + BitVec.ofNat 32 e.stolenCount
    let (m, trampoline) := generateTrampoline m code returnAddr e.stolenBytes e.callback
    let m := patchJmp m base e.offset trampoline
    if e.stolenCount > 5 then fillNops hookAddr e.stolenCount m else m

def installJmpHooks (entries : List (JmpHookEntry × Option DWord)) (m : Memory) : Memory :=
  entries.foldl (installJmpHook base) m

def installNopPatches (entries : List NopPatchEntry) (m : Memory) : Memory :=
  entries.foldl (fun m e => patchNop m base e.offset e.count) m

end Install

end HookTable
