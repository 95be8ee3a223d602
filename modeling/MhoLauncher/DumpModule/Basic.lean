import Mathlib
import MhoLauncher.Library.File
import MhoLauncher.Library.Memory

open Bytes Memory

namespace DumpModule

def word (m : Memory) (a : DWord) : Word :=
  ofLE 16 (m.read a 2)

structure ImageDosHeader where
  eMagic  : Word
  eLfanew : DWord

def ImageDosHeader.load (m : Memory) (a : DWord) : ImageDosHeader where
  eMagic  := word m a
  eLfanew := m.dword (a + 0x3C)

-- The file header lies at offset 4, and the optional header at offset 24.
structure ImageNtHeaders where
  signature            : DWord
  numberOfSections     : Word
  sizeOfOptionalHeader : Word
  sizeOfHeaders        : DWord

def ImageNtHeaders.load (m : Memory) (a : DWord) : ImageNtHeaders where
  signature            := m.dword a
  numberOfSections     := word m (a + 0x06)
  sizeOfOptionalHeader := word m (a + 0x14)
  sizeOfHeaders        := m.dword (a + 0x54)

structure ImageSectionHeader where
  name             : List Byte
  virtualSize      : DWord
  virtualAddress   : DWord
  sizeOfRawData    : DWord
  pointerToRawData : DWord
  deriving DecidableEq

def ImageSectionHeader.load (m : Memory) (a : DWord) : ImageSectionHeader where
  name             := m.read a 8
  virtualSize      := m.dword (a + 0x08)
  virtualAddress   := m.dword (a + 0x0C)
  sizeOfRawData    := m.dword (a + 0x10)
  pointerToRawData := m.dword (a + 0x14)

def imageDosSignature : Word :=
  0x5A4D

def imageNtSignature : DWord :=
  0x00004550

section Sections

variable (m : Memory) (base : DWord)

def ntHeaders : ImageNtHeaders :=
  .load m <| base + (ImageDosHeader.load m base).eLfanew

-- The section headers follow the optional header.
def imageFirstSection : DWord :=
  base + (ImageDosHeader.load m base).eLfanew + 0x18 + (ntHeaders m base).sizeOfOptionalHeader.setWidth 32

def sections : List ImageSectionHeader :=
  List.range (ntHeaders m base).numberOfSections.toNat |>.map fun i =>
    .load m <| imageFirstSection m base + BitVec.ofNat 32 (0x28 * i)

end Sections

namespace ImageSectionHeader

variable (s : ImageSectionHeader)

-- The name starts with `.tvm`, or it is `.tls`.
def Skipped : Prop :=
  let name := s.name.takeWhile (· ≠ 0)
  name.take 4 = [0x2E, 0x74, 0x76, 0x6D] ∨ name = [0x2E, 0x74, 0x6C, 0x73]

instance : Decidable s.Skipped :=
  inferInstanceAs <| Decidable (_ ∨ _)

def writeSize : DWord :=
  if s.sizeOfRawData > 0 then s.sizeOfRawData else s.virtualSize

end ImageSectionHeader

section Dump

-- This fails for offsets that are negative as a `long`. The position stays as it is.
def fseek (f : File Byte) (offset : DWord) : File Byte :=
  if offset.toInt < 0 then f else f.seek offset.toNat

variable (m : Memory) (base : DWord)

def dumpSection (f : File Byte) (s : ImageSectionHeader) : File Byte :=
  let f := fseek f s.pointerToRawData
  if s.Skipped then
    f.write <| .replicate s.writeSize.toNat 0
  else
    f.write <| m.read (base + s.virtualAddress) s.writeSize.toNat

-- The content of the file that is written for the module at the given address, unless there is none.
-- `fopen` yields an empty file if it succeeds.
def dumpPe (fopen : Option <| File Byte) : Option (List Byte) := do
  guard (base ≠ 0)
  guard ((ImageDosHeader.load m base).eMagic = imageDosSignature)
  guard ((ntHeaders m base).signature = imageNtSignature)
  let f ← fopen
  let f := f.write <| m.read base (ntHeaders m base).sizeOfHeaders.toNat
  return (sections m base).foldl (dumpSection m base) f |>.content

end Dump

end DumpModule
