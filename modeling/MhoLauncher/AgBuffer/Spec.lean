import MhoLauncher.Library.Cursor
import MhoLauncher.Library.Machine
import MhoLauncher.AgBuffer.Basic

open Bytes

namespace AgBuffer

-- The operations that make up the byte stream interface of a buffer. The arguments of type `size_t`
-- are 32 bit numbers.
inductive Op
  | writeU8 (v : Byte)
  | writeU16 (v : Word)
  | writeU32 (v : DWord)
  | writeData (src : List Byte)
  | writeRepeat (v : Byte) (length : DWord)
  | writeString (s : List Byte)
  | seek (p : DWord)
  | setEndianness (e : Endianness)
  | readU8
  | readU16
  | readU32
  | readString
  | readData (dst : Dst) (length : DWord)
  | getData (offset count : DWord) (dst : Dst) (dstLength : DWord)
  | getAllData (dst : Dst) (dstLength : DWord)
  | getPosition
  | getLength
  | getAvailable

-- What the caller of an operation gets to see.
inductive Out
  | unit
  | u8 (v : Byte)
  | u16 (v : Word)
  | u32 (v : DWord)
  | string (s : List Byte)
  | dst (d : Dst)
  | size (n : Nat)

def exec (σ : Platform) : Machine Op Out AgBuffer
  | .writeU8 v                 => (fun _ => .unit) <$> writeU8 σ v
  | .writeU16 v                => (fun _ => .unit) <$> writeU16 σ v
  | .writeU32 v                => (fun _ => .unit) <$> writeU32 σ v
  | .writeData src             => (fun _ => .unit) <$> writeData σ src
  | .writeRepeat v length      => (fun _ => .unit) <$> writeRepeat σ v length.toNat
  | .writeString s             => (fun _ => .unit) <$> writeString σ s
  | .seek p                    => (fun _ => .unit) <$> seek p.toNat
  | .setEndianness e           => (fun _ => .unit) <$> setEndianness e
  | .readU8                    => .u8 <$> readU8
  | .readU16                   => .u16 <$> readU16 σ
  | .readU32                   => .u32 <$> readU32 σ
  | .readString                => .string <$> readString
  | .readData dst length       => .dst <$> readData dst length.toNat
  | .getData off count dst len => .dst <$> getData off.toNat count.toNat dst len.toNat
  | .getAllData dst len        => .dst <$> getAllData dst len.toNat
  | .getPosition               => .size <$> getPosition
  | .getLength                 => .size <$> getLength
  | .getAvailable              => .size <$> getAvailable

-- The buffer as its callers think of it: the bytes that have been written with a cursor into them,
-- and the byte order of the integers.
@[ext]
structure Stream where
  cursor     : Cursor Byte
  endianness : Endianness

namespace Stream

-- The order in which the bytes of an integer are stored, where `bs` starts with the lowest one.
def order (host : Endianness) (s : Stream) (bs : List Byte) : List Byte :=
  if s.endianness = host then bs else bs.reverse

def write (s : Stream) (w : List Byte) : Stream :=
  { s with cursor := s.cursor.write w }

-- A byte that is read at the end is 0.
def readU8 (s : Stream) : Byte × Stream :=
  match s.cursor.next with
  | none        => (0, s)
  | some (v, c) => (v, { s with cursor := c })

def readBytes (s : Stream) : Nat → List Byte × Stream
  | 0     => ([], s)
  | n + 1 =>
    let (v, s) := s.readU8
    let (vs, s) := s.readBytes n
    (v :: vs, s)

def isNul (v : Byte) : Bool :=
  v = 0

-- Copies a range of bytes to a destination, where there might be no such range.
def copy (src : Option (List Byte)) (dst : Dst) : Dst :=
  match src, dst with
  | some src, some old => some (src ++ old.drop src.length)
  | _,        _        => dst

def readData (s : Stream) (dst : Dst) (length : Nat) : Dst × Stream :=
  match dst, s.cursor.read length with
  | some _, some (src, c) => (copy src dst, { s with cursor := c })
  | _,      _             => (dst, s)

def exec (host : Endianness) : Machine.Spec Op Out Stream
  | .writeU8 v,                 s => (.unit, s.write [v])
  | .writeU16 v,                s => (.unit, s.write <| s.order host <| toLE 2 v)
  | .writeU32 v,                s => (.unit, s.write <| s.order host <| toLE 4 v)
  | .writeData src,             s => (.unit, s.write src)
  | .writeRepeat v length,      s => (.unit, s.write <| List.replicate length.toNat v)
  | .writeString str,           s => (.unit, s.write <| str ++ [0])
  | .seek p,                    s => (.unit, { s with cursor := s.cursor.seek p.toNat })
  | .setEndianness e,           s => (.unit, { s with endianness := e })
  | .readU8,                    s => (.u8 s.readU8.1, s.readU8.2)
  | .readU16,                   s => (.u16 <| ofLE 16 <| s.order host (s.readBytes 2).1, (s.readBytes 2).2)
  | .readU32,                   s => (.u32 <| ofLE 32 <| s.order host (s.readBytes 4).1, (s.readBytes 4).2)
  | .readString,                s =>
    let (str, c) := s.cursor.readUntil isNul
    (.string str, { s with cursor := c })
  | .readData dst length,       s => (.dst (s.readData dst length.toNat).1, (s.readData dst length.toNat).2)
  | .getData off count dst len, s =>
    (.dst <| if len < count then dst else copy (s.cursor.slice off.toNat count.toNat) dst, s)
  | .getAllData dst len,        s =>
    (.dst <| if len.toNat < s.cursor.items.length then dst else copy s.cursor.items dst, s)
  | .getPosition,               s => (.size s.cursor.pos, s)
  | .getLength,                 s => (.size s.cursor.items.length, s)
  | .getAvailable,              s => (.size s.cursor.available, s)

end Stream
end AgBuffer
