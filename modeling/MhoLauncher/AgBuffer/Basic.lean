import MhoLauncher.Library.Bytes

inductive Endianness
  | big
  | small
  deriving DecidableEq

-- The outcome of the `k`-th call to the allocator: either it fails, or it succeeds and the value
-- of a byte that has not been written yet depends on its index in the block.
abbrev Heap := Nat → Option (Nat → Byte)

def Heap.Total (heap : Heap) : Prop :=
  ∀ k, (heap k).isSome

-- A heap that never fails, and that fills the blocks it returns with `v`.
def Heap.filled (v : Byte) : Heap :=
  fun _ => some fun _ => v

theorem Heap.filled_total (v : Byte) : (Heap.filled v).Total :=
  fun _ => rfl

structure Platform where
  endianness : Endianness
  heap       : Heap

-- The platform that the launcher is built for.
def Platform.windows (heap : Heap) : Platform where
  endianness := .small
  heap       := heap

-- The `data` is the block that the buffer owns, so its length is the number of allocated bytes.
-- The source has no counterpart to `allocs`. It counts the calls to the allocator, and thereby tells
-- which outcome the next call has.
@[ext]
structure AgBuffer where
  position      : Nat
  virtualLength : Nat
  realLength    : Nat
  data          : List Byte
  endianness    : Endianness
  allocs        : Nat

namespace AgBuffer

-- An operation fails when it touches a byte outside of the allocated block.
abbrev M := StateT AgBuffer Option

def GROW_SIZE : Nat := 1024

-- The value of a sum of type `size_t`.
def sizeT (n : Nat) : Nat :=
  n % 2 ^ 32

def swapEndianness16 (σ : Platform) (x : Word) (e : Endianness) : Word :=
  if e ≠ σ.endianness then (x >>> 8) ||| (x <<< 8) else x

def swapEndianness32 (σ : Platform) (x : DWord) (e : Endianness) : DWord :=
  if e ≠ σ.endianness then
    let x := (x >>> 16) ||| (x <<< 16)
    ((x &&& 0xFF00FF00) >>> 8) ||| ((x &&& 0x00FF00FF) <<< 8)
  else
    x

def malloc (σ : Platform) (length : Nat) : List Byte :=
  σ.heap 0 |>.elim [] ((List.range length).map ·)

-- Keeps the bytes of the block up to the new length. A length of 0 is taken to give an empty block.
def realloc (σ : Platform) (b : AgBuffer) (length : Nat) : Option (List Byte) :=
  σ.heap b.allocs |>.map fun fresh =>
    b.data.take length ++ (List.range' b.data.length (length - b.data.length)).map fresh

def grow (σ : Platform) (length : Nat) (b : AgBuffer) : AgBuffer :=
  let newRealLength := sizeT (b.realLength + length + GROW_SIZE)
  match b.realloc σ newRealLength with
  | none        => { b with allocs := b.allocs + 1 }
  | some newLoc => { b with data := newLoc, realLength := newRealLength, allocs := b.allocs + 1 }

-- Copies bytes into the block.
def store (b : AgBuffer) (i : Nat) (w : List Byte) : Option AgBuffer :=
  if i + w.length ≤ b.data.length then
    some { b with data := b.data.take i ++ w ++ b.data.drop (i + w.length) }
  else
    none

-- Copies bytes out of the block.
def load (b : AgBuffer) (i n : Nat) : Option (List Byte) :=
  if i + n ≤ b.data.length then some (b.data.drop i |>.take n) else none

def advance (n : Nat) (b : AgBuffer) : AgBuffer :=
  let position := sizeT (b.position + n)
  { b with position, virtualLength := if position > b.virtualLength then position else b.virtualLength }

-- The common part of `write_u8` and `write_data`.
def writeBlock (σ : Platform) (w : List Byte) : M Unit := fun b => do
  let b := if sizeT (b.position + w.length) > b.realLength then b.grow σ w.length else b
  let b ← b.store b.position w
  return ((), b.advance w.length)

def writeU8 (σ : Platform) (v : Byte) : M Unit :=
  writeBlock σ [v]

def writeData (σ : Platform) (src : List Byte) : M Unit :=
  if src.length ≤ 0 then pure () else writeBlock σ src

def writeU16 (σ : Platform) (v : Word) : M Unit := do
  let v := swapEndianness16 σ v (← get).endianness
  writeU8 σ (v.setWidth 8)
  writeU8 σ ((v >>> 8).setWidth 8)

def writeU32 (σ : Platform) (v : DWord) : M Unit := do
  let v := swapEndianness32 σ v (← get).endianness
  writeU8 σ (v.setWidth 8)
  writeU8 σ ((v >>> 8).setWidth 8)
  writeU8 σ ((v >>> 16).setWidth 8)
  writeU8 σ ((v >>> 24).setWidth 8)

def writeRepeat (σ : Platform) (v : Byte) (length : Nat) : M Unit :=
  forM (List.replicate length v) (writeU8 σ)

def writeString (σ : Platform) (s : List Byte) : M Unit := do
  forM s (writeU8 σ)
  writeU8 σ 0

-- On the target of the launcher `wchar_t` has 2 bytes.
def writeWchar (σ : Platform) (wchar : Word) : M Unit := do
  let wchar := swapEndianness16 σ wchar (← get).endianness
  writeU16 σ wchar

def writeWstring (σ : Platform) (s : List Word) : M Unit :=
  forM s (writeWchar σ)

def readU8 : M Byte := fun b =>
  if b.position ≥ b.virtualLength then
    some (0, b)
  else do
    let value ← b.data[b.position]?
    return (value, { b with position := sizeT (b.position + 1) })

-- The reads of the combining expressions are evaluated from left to right.
def readU16 (σ : Platform) : M Word := do
  let b₀ ← readU8
  let b₁ ← readU8
  let value := b₀.setWidth 16 ||| (b₁.setWidth 16 <<< 8)
  return swapEndianness16 σ value (← get).endianness

def readU32 (σ : Platform) : M DWord := do
  let b₀ ← readU8
  let b₁ ← readU8
  let b₂ ← readU8
  let b₃ ← readU8
  let value :=
    b₀.setWidth 32 ||| (b₁.setWidth 32 <<< 8) ||| (b₂.setWidth 32 <<< 16) ||| (b₃.setWidth 32 <<< 24)
  return swapEndianness32 σ value (← get).endianness

-- The `fuel` bounds the iterations of the loop. It fails if the loop has not ended by then.
def readString.loop : Nat → M (List Byte)
  | 0        => failure
  | fuel + 1 => do
    let c ← readU8
    if c = 0 then return []
    return c :: (← loop fuel)

def readString : M (List Byte) := do
  let b ← get
  readString.loop (b.virtualLength - b.position + 1)

-- The destination of a read is `none` for a null pointer, and otherwise consists of the bytes from
-- the pointer on. The result is the destination after the call.
abbrev Dst := Option (List Byte)

def readData (dst : Dst) (length : Nat) : M Dst := fun b =>
  match dst with
  | none     => some (dst, b)
  | some old =>
    if length > b.virtualLength then
      some (dst, b)
    else if sizeT (b.position + length) > b.virtualLength then
      some (dst, b)
    else do
      let src ← b.load b.position length
      return (some (src ++ old.drop length), { b with position := sizeT (b.position + length) })

def getData (offset count : Nat) (dst : Dst) (dstLength : Nat) : M Dst := fun b =>
  match dst with
  | none     => some (dst, b)
  | some old =>
    if count > b.virtualLength then
      some (dst, b)
    else if sizeT (offset + count) > b.virtualLength then
      some (dst, b)
    else if dstLength < count then
      some (dst, b)
    else do
      let src ← b.load offset count
      return (some (src ++ old.drop count), b)

def getAllData (dst : Dst) (dstLength : Nat) : M Dst := fun b =>
  if dstLength ≤ 0 then
    some (dst, b)
  else if dstLength < b.virtualLength then
    some (dst, b)
  else
    match dst with
    | none     => some (dst, b)
    | some old => do
      let src ← b.load 0 b.virtualLength
      return (some (src ++ old.drop b.virtualLength), b)

def seek (p : Nat) : M Unit :=
  modify fun b => { b with position := if p > b.virtualLength then b.virtualLength else p }

def getPosition : M Nat := do
  return (← get).position

def getLength : M Nat := do
  return (← get).virtualLength

def setLength (σ : Platform) (length : Nat) : M Unit :=
  modify fun b =>
    let b := if length > b.realLength then b.grow σ (length - b.realLength) else b
    { b with virtualLength := length }

def setEndianness (e : Endianness) : M Unit :=
  modify ({ · with endianness := e })

def getAvailable : M Nat := do
  let b ← get
  return sizeT (b.virtualLength + 2 ^ 32 - b.position)

-- The constructor `AgBuffer()`.
def new (σ : Platform) : AgBuffer where
  position      := 0
  virtualLength := 0
  realLength    := GROW_SIZE
  data          := malloc σ GROW_SIZE
  endianness    := .small
  allocs        := 1

-- The constructor `AgBuffer(void *, size_t)`.
def ofData (σ : Platform) (src : List Byte) : Option AgBuffer := do
  let b : AgBuffer := {
    position      := 0
    virtualLength := 0
    realLength    := src.length
    data          := malloc σ src.length
    endianness    := .small
    allocs        := 1
  }
  let ((), b) ← writeData σ src b
  return b

-- The constructor of the new buffer copies the bytes from the cursor on. Its allocations are those of `σ`.
def slice (σ : Platform) (length : Nat) : M AgBuffer := fun b => do
  let src ← if length ≤ 0 then some [] else b.load b.position length
  return (← ofData σ src, b)

end AgBuffer
