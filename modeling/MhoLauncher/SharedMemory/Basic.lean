import MhoLauncher.AgBuffer.Basic

open AgBuffer

-- The byte arrays of the source carry their size.
structure TenProxyTclsSharedMeMemory where
  connection       : List Byte
  ip               : List Byte
  tclsClientExe    : List Byte
  var33            : List Byte
  var19            : List Byte
  var20V5          : List Byte
  var20V9          : List Byte
  var15            : List Byte
  aesKey           : List Byte
  var60            : List Byte
  qqSigInfoUnified : List Byte
  var27            : List Byte
  var25            : List Byte
  qqUin            : DWord

namespace TenProxyTclsSharedMeMemory

def OFFSET_TABLE_SIZE : Nat := 64

def VAR_20_OFFSET_TABLE_SIZE : Nat := 17

-- The parts of the image whose positions are remembered in member variables. The variables
-- `var_20_offset` and `var_20_offset_table_pos` have the same value.
inductive Part
  | table
  | var (i : Nat)
  | subTable
  | sub (i : Nat)
  deriving DecidableEq

abbrev Offsets := Part → Nat

abbrev W := StateT Offsets AgBuffer.M

-- Remembers the position of a part, and then writes it.
def record (k : Part) (body : AgBuffer.M Unit) : W Unit := do
  let position ← getPosition
  modify (Function.update · k position)
  body

variable (σ : Platform) (getUtf16 : List Byte → List Word) (t : TenProxyTclsSharedMeMemory)

def writeWideRecord (s : List Byte) : AgBuffer.M Unit := do
  let utf16 := getUtf16 s
  let len := utf16.length * 2
  writeU32 σ (BitVec.ofNat 32 len)
  writeWstring σ utf16

def writeDataRecord (data : List Byte) : AgBuffer.M Unit := do
  writeU32 σ (BitVec.ofNat 32 data.length)
  writeData σ data

def writeRecords : W Unit := do
  record .table do
    writeU32 σ 0
    writeRepeat σ 0 (OFFSET_TABLE_SIZE * 4)
  record (.var 1) do
    writeU32 σ 4
    writeU32 σ 0x300A01
  record (.var 2) do
    writeU32 σ 4
    writeU32 σ t.qqUin
  record (.var 6) do
    writeU32 σ 4
    writeU32 σ t.qqUin
  record (.var 3) do
    writeU32 σ 0x1
    writeU8 σ 0x60
  record (.var 4) (writeDataRecord σ t.qqSigInfoUnified)
  record (.var 5) (writeDataRecord σ t.aesKey)
  record (.var 21) do
    writeU32 σ 0x1
    writeU8 σ 0x0
  record (.var 22) (writeU32 σ 0x0)
  record (.var 23) do
    writeU32 σ 0x1
    writeU8 σ 0x0
  record (.var 24) (writeU32 σ 0x0)
  record (.var 25) (writeDataRecord σ t.var25)
  record (.var 26) do
    writeU32 σ 0x1
    writeU8 σ 0x48
  record (.var 27) (writeDataRecord σ t.var27)
  record (.var 32) do
    writeU32 σ 0x4
    writeU32 σ 0x3
  record (.var 33) (writeWideRecord σ getUtf16 t.var33)
  record (.var 17) do
    writeU32 σ 0x4
    writeU32 σ 0x1
  record (.var 18) do
    writeU32 σ 0x4
    writeU32 σ 0x1
  record (.var 19) (writeWideRecord σ getUtf16 t.var19)
  record (.var 36) do
    writeU32 σ 0x4
    writeU32 σ 0x1
  record (.var 37) do
    writeU32 σ 0x4
    writeU32 σ 0x0
  record (.var 40) do
    writeU32 σ 0x4
    writeU32 σ 0x0
  record (.var 42) do
    writeU32 σ 0x4
    writeU32 σ 0x0
  record .subTable (writeRepeat σ 0x00 (VAR_20_OFFSET_TABLE_SIZE * 4))
  record (.sub 2) (writeWideRecord σ getUtf16 t.connection)
  record (.sub 3) (writeWideRecord σ getUtf16 t.ip)
  record (.sub 4) do
    writeU32 σ 0x4
    writeU32 σ 0x2B0A
  record (.sub 5) (writeWideRecord σ getUtf16 t.var20V5)
  record (.sub 6) do
    writeU32 σ 0x4
    writeU32 σ t.qqUin
  record (.sub 7) do
    writeU32 σ 0x4
    writeU32 σ t.qqUin
  record (.sub 8) do
    writeU32 σ 0x4
    writeU32 σ 0x5
  record (.sub 9) do
    writeU32 σ (BitVec.ofNat 32 (t.var20V9.length + 1))
    writeString σ t.var20V9
  record (.sub 10) do
    writeU32 σ 0x2
    writeU16 σ 0x0
  record (.var 7) (writeU32 σ 0x0)
  record (.var 60) (writeDataRecord σ t.var60)
  record (.var 14) (writeWideRecord σ getUtf16 t.tclsClientExe)
  record (.var 41) do
    writeU32 σ 0x4
    writeU32 σ 0x0
  record (.var 15) (writeWideRecord σ getUtf16 t.var15)
  record (.var 16) do
    writeU32 σ 0x2
    writeU16 σ 0x0

def var20OffsetTable (offset : Part → DWord) : List DWord := [
  offset .subTable + 4,
  offset (.sub 2), offset (.sub 3), offset (.sub 4), offset (.sub 5), offset (.sub 6),
  offset (.sub 7), offset (.sub 8), offset (.sub 9), offset (.sub 10),
  0x0, 0x0, 0x0, 0x0, 0x0, 0x0, 0x0
]

def offsetTable (offset : Part → DWord) : List DWord := [
  BitVec.ofNat 32 OFFSET_TABLE_SIZE,
  offset (.var 1), offset (.var 2), offset (.var 3), offset (.var 4), offset (.var 5),
  offset (.var 6), offset (.var 7), 0x0, 0x0, 0x0,
  0x0, 0x0, 0x0, offset (.var 14), offset (.var 15),
  offset (.var 16), offset (.var 17), offset (.var 18), offset (.var 19), offset .subTable,
  offset (.var 21), offset (.var 22), offset (.var 23), offset (.var 24), offset (.var 25),
  offset (.var 26), offset (.var 27), 0x0, 0x0, 0x0,
  0x0, offset (.var 32), offset (.var 33), 0x0, 0x0,
  offset (.var 36), offset (.var 37), 0x0, 0x0, offset (.var 40),
  offset (.var 41), offset (.var 42), 0x0, 0x0, 0x0,
  0x0, 0x0, 0x0, 0x0, 0x0,
  0x0, 0x0, 0x0, 0x0, 0x0,
  0x0, 0x0, 0x0, 0x0, offset (.var 60),
  0x0, 0x0, 0x0, 0x0
]

def writeTables (offset : Part → DWord) : AgBuffer.M Unit := do
  seek (offset .subTable).toNat
  forM (var20OffsetTable offset) (writeU32 σ)
  seek (offset .table).toNat
  forM (offsetTable offset) (writeU32 σ)

def writeImage (dst : Dst) (dstLen : Nat) : W (Dst × Nat) := do
  writeRecords σ getUtf16 t
  let offsets ← get
  writeTables σ (BitVec.ofNat 32 <| offsets ·)
  let length ← getLength
  let dst ← getData 0 length dst dstLen
  return (dst, ← getLength)

-- The result consists of the destination after the call and the returned length. The given offsets
-- are the values of the member variables before the call.
def write (dst : Dst) (dstLen : Nat) (offsets : Offsets) : Option (Dst × Nat) := do
  let ((r, _), _) ← writeImage σ getUtf16 t dst dstLen offsets (new σ)
  return r

end TenProxyTclsSharedMeMemory
