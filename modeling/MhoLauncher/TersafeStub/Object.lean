import Mathlib
import MhoLauncher.Library.X86.Basic

open Bytes Memory X86

namespace TersafeStub

structure TsInitStruct where
  uin      : DWord
  dataPtr  : DWord
  proxyPtr : DWord
  field0c  : DWord

-- The struct that a pointer points to.
def TsInitStruct.load (m : Memory) (p : DWord) : TsInitStruct where
  uin      := m.dword p
  dataPtr  := m.dword (p + 4)
  proxyPtr := m.dword (p + 8)
  field0c  := m.dword (p + 12)

-- Pointers are addresses. The fields that are not given are those that `memset` leaves at zero.
structure TsCreateObj where
  vtable          : DWord := 0
  vtableSecondary : DWord := 0
  vtableTertiary  : DWord := 0
  subObj0c        : DWord := 0
  subObj10        : DWord := 0
  proxyPtr        : DWord := 0
  dataPtr         : DWord := 0
  uin             : DWord := 0
  handles         : Vector DWord 2 := .replicate 2 0
  pad28           : Vector Byte 16 := .replicate 16 0
  subObj38        : DWord := 0
  pad3c           : DWord := 0
  magic40         : DWord := 0
  magic44         : DWord := 0
  field48         : DWord := 0
  field4c         : DWord := 0
  pad50           : Vector DWord 2 := .replicate 2 0
  const58         : DWord := 0
  pad5c           : Vector DWord 3 := .replicate 3 0
  field68         : DWord := 0
  field6c         : DWord := 0
  field70         : DWord := 0
  field74         : DWord := 0
  crypto78        : DWord := 0
  crypto7c        : DWord := 0
  region80        : Vector DWord 8 := .replicate 8 0
  sigA0           : DWord := 0
  sigA4           : DWord := 0
  sigA8           : DWord := 0
  fieldAc         : DWord := 0
  fieldB0         : DWord := 0
  fieldB4         : DWord := 0
  fieldB8         : DWord := 0
  fieldBc         : DWord := 0
  fieldC0         : DWord := 0
  fieldC4         : DWord := 0
  fieldC8         : DWord := 0
  fieldCc         : DWord := 0
  fieldD0         : DWord := 0
  fieldD4         : DWord := 0
  fieldD8         : DWord := 0
  fieldDc         : DWord := 0
  fieldE0         : DWord := 0
  fieldE4         : DWord := 0
  fieldE8         : DWord := 0
  fieldEc         : DWord := 0
  fieldF0         : DWord := 0
  fieldF4         : DWord := 0
  fieldF8         : DWord := 0
  fieldFc         : DWord := 0

namespace TsCreateObj

-- The bytes in front of the fields that are taken from a struct, and the bytes after them.
def headBytes (o : TsCreateObj) : List Byte :=
  [o.vtable, o.vtableSecondary, o.vtableTertiary, o.subObj0c, o.subObj10].flatMap (toLE 4)

def tailBytes (o : TsCreateObj) : List Byte :=
  o.handles.toList.flatMap (toLE 4) ++ o.pad28.toList ++
  [o.subObj38, o.pad3c, o.magic40, o.magic44, o.field48, o.field4c].flatMap (toLE 4) ++
  o.pad50.toList.flatMap (toLE 4) ++ toLE 4 o.const58 ++ o.pad5c.toList.flatMap (toLE 4) ++
  [o.field68, o.field6c, o.field70, o.field74, o.crypto78, o.crypto7c].flatMap (toLE 4) ++
  o.region80.toList.flatMap (toLE 4) ++
  [o.sigA0, o.sigA4, o.sigA8, o.fieldAc, o.fieldB0, o.fieldB4, o.fieldB8, o.fieldBc].flatMap (toLE 4) ++
  [o.fieldC0, o.fieldC4, o.fieldC8, o.fieldCc, o.fieldD0, o.fieldD4, o.fieldD8, o.fieldDc].flatMap (toLE 4) ++
  [o.fieldE0, o.fieldE4, o.fieldE8, o.fieldEc, o.fieldF0, o.fieldF4, o.fieldF8, o.fieldFc].flatMap (toLE 4)

-- The object as it lies in memory.
def bytes (o : TsCreateObj) : List Byte :=
  o.headBytes ++ [o.proxyPtr, o.dataPtr, o.uin].flatMap (toLE 4) ++ o.tailBytes

theorem headBytes_length (o : TsCreateObj) : o.headBytes.length = 20 := by
  simp [headBytes]

theorem take_bytes (o : TsCreateObj) : o.bytes.take 20 = o.headBytes := by
  rw [bytes, List.append_assoc, List.take_left' o.headBytes_length]

theorem drop_bytes (o : TsCreateObj) : o.bytes.drop 32 = o.tailBytes := by
  rw [bytes, List.drop_left' (by simp [headBytes_length])]

theorem bytes_length (o : TsCreateObj) : o.bytes.length = 256 := by
  simp [bytes, headBytes, tailBytes]

-- The fields that are taken over from a struct.
def init (o : TsCreateObj) (i : TsInitStruct) : TsCreateObj :=
  { o with proxyPtr := i.proxyPtr, dataPtr := i.dataPtr, uin := i.uin }

@[simp]
theorem init_init (o : TsCreateObj) (i j : TsInitStruct) : (o.init i).init j = o.init j :=
  rfl

-- The object keeps all of its bytes but those at the offsets 20 to 31.
theorem init_take (o : TsCreateObj) (i : TsInitStruct) : (o.init i).bytes.take 20 = o.bytes.take 20 := by
  rw [take_bytes, take_bytes]
  rfl

theorem init_drop (o : TsCreateObj) (i : TsInitStruct) : (o.init i).bytes.drop 32 = o.bytes.drop 32 := by
  rw [drop_bytes, drop_bytes]
  rfl

end TsCreateObj

-- A `__fastcall` function gets `self` in a register, and it removes a fixed number of stack arguments
-- when it returns. Its body takes the stack arguments, the memory apart from the object and the object.
structure Method where
  stackArgs : Nat
  body      : (Nat → DWord) → Memory → TsCreateObj → DWord × TsCreateObj

def tersafeVt0Init : Method where
  stackArgs := 1
  body args m self :=
    if args 0 ≠ 0 then
      let init := TsInitStruct.load m (args 0)
      (0, { self with proxyPtr := init.proxyPtr, dataPtr := init.dataPtr, uin := init.uin })
    else
      (0, self)

def tersafeVt1Notify : Method where
  stackArgs     := 0
  body _ _ self := (0, self)

def tersafeVt2ProcessPacket : Method where
  stackArgs     := 1
  body _ _ self := (1, self)

def tersafeVt3QueryState : Method where
  stackArgs     := 1
  body _ _ self := (0, self)

def tersafeVt4Tick : Method where
  stackArgs     := 0
  body _ _ self := (0, self)

def tersafeVt5Release : Method where
  stackArgs     := 0
  body _ _ self := (0, self)

def tersafeVtCatch : Method where
  stackArgs     := 4
  body _ _ self := (0, self)

-- The singleton and its table.
structure Stub where
  vtable : Vector Method 32
  obj    : TsCreateObj

section Init

-- The addresses of the table and of the object.
variable (gTersafeVtable gTersafeObj : DWord)

def initPreState : TsCreateObj where
  vtable          := gTersafeVtable
  vtableSecondary := gTersafeVtable
  vtableTertiary  := gTersafeVtable
  subObj0c        := 0
  subObj10        := 0
  subObj38        := gTersafeObj
  field70         := gTersafeObj
  field74         := gTersafeObj
  fieldEc         := gTersafeObj
  fieldFc         := gTersafeObj
  handles         := #v[0xFFFFFFFF, 0xFFFFFFFF]
  magic40         := 0xC7003000
  magic44         := 0xA2000007
  const58         := 0x0000122C
  field68         := 0x00000011
  field6c         := 0x01460000
  crypto78        := 0xE5003C00
  crypto7c        := 0x871C792E
  region80        :=
    #v[0x00000007, 0x000000AB, 0x070000E9, 0x78228893, 0x0700009F, 0x0700000B, 0x00000000, 0x00000055]
  sigA0           := 0x415F4553
  sigA4           := 0x4249544E
  sigA8           := 0x0000544F
  fieldAc         := 0x08000000
  fieldB0         := 0xB7CC9D33
  fieldB4         := 0xC3000007
  fieldB8         := 0x03000007
  fieldBc         := 0x00000000
  fieldC0         := 0x31000000
  fieldC4         := 0x00003030
  fieldC8         := 0x43000000
  fieldCc         := 0xDE000007
  fieldD0         := 0x00000000
  fieldD4         := 0x07000000
  fieldD8         := 0x3C000000
  fieldDc         := 0x423EBE00
  fieldE0         := 0x00000017
  fieldE4         := 0x00000000
  fieldE8         := 0x00000000
  fieldF0         := 0x00000093
  fieldF4         := 0x02750000
  fieldF8         := 0x00000000

def initTersafeVtable : Stub where
  vtable :=
    #v[tersafeVt0Init, tersafeVt1Notify, tersafeVt2ProcessPacket, tersafeVt3QueryState, tersafeVt4Tick,
      tersafeVt5Release] ++ Vector.replicate 26 tersafeVtCatch
  obj := initPreState gTersafeVtable gTersafeObj

end Init

end TersafeStub
