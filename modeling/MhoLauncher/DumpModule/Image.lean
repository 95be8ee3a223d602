import Mathlib
import MhoLauncher.DumpModule.Basic

open Bytes Memory

namespace DumpModule

section Image

variable (m : Memory) (base : DWord)

def headers : File.Chunk Byte where
  offset := 0
  items  := m.read base (ntHeaders m base).sizeOfHeaders.toNat

-- The first bytes of a section at its place in the file.
def image (s : ImageSectionHeader) (size : DWord) : File.Chunk Byte where
  offset := s.pointerToRawData.toNat
  items  := if s.Skipped then .replicate size.toNat 0 else m.read (base + s.virtualAddress) size.toNat

-- All seeks succeed. Otherwise the sections without raw data are not restricted.
structure LoadedModule : Prop where
  base_ne    : base ≠ 0
  dos        : (ImageDosHeader.load m base).eMagic = imageDosSignature
  nt         : (ntHeaders m base).signature = imageNtSignature
  seekable   : ∀ s ∈ sections m base, 0 ≤ s.pointerToRawData.toInt
  headers_le : ∀ s ∈ sections m base, 0 < s.sizeOfRawData →
    (ntHeaders m base).sizeOfHeaders ≤ s.pointerToRawData
  disjoint   : (sections m base).Pairwise fun s t => 0 < s.sizeOfRawData → 0 < t.sizeOfRawData →
    s.pointerToRawData.toNat + s.sizeOfRawData.toNat ≤ t.pointerToRawData.toNat ∨
    t.pointerToRawData.toNat + t.sizeOfRawData.toNat ≤ s.pointerToRawData.toNat

structure Faithful (file : List Byte) : Prop where
  headers : File.Holds file (headers m base)
  raw     : ∀ s ∈ sections m base, 0 < s.sizeOfRawData → File.Holds file (image m base s s.sizeOfRawData)

-- The virtual bytes of those of the sections that have no raw data.
def rawless (ss : List ImageSectionHeader) : List (File.Chunk Byte) :=
  ss.filter (·.sizeOfRawData = 0) |>.map fun s => image m base s s.virtualSize

-- Where sections without raw data lie over the headers, or over the raw data of a section in front of
-- them in the table, the last one of them has the same byte.
structure Spared : Prop where
  headers : File.Spares (rawless m base <| sections m base) (headers m base)
  raw     : ∀ ss s ts, sections m base = ss ++ s :: ts → 0 < s.sizeOfRawData →
    File.Spares (rawless m base ts) (image m base s s.sizeOfRawData)

end Image

variable {m : Memory} {base : DWord} {s t : ImageSectionHeader} {ss ts : List ImageSectionHeader}
  {f : File Byte} {file : List Byte}

theorem image_length {size : DWord} : (image m base s size).items.length = size.toNat := by
  rw [image]
  split
  case isTrue  => exact List.length_replicate
  case isFalse => exact read_length

theorem headers_length : (headers m base).items.length = (ntHeaders m base).sizeOfHeaders.toNat :=
  read_length

theorem mem_rawless {v : File.Chunk Byte} :
    v ∈ rawless m base ss ↔ ∃ s ∈ ss, s.sizeOfRawData = 0 ∧ image m base s s.virtualSize = v := by
  simp [rawless, and_assoc]

theorem writeSize_of_pos (h : 0 < s.sizeOfRawData) : s.writeSize = s.sizeOfRawData :=
  if_pos h

theorem writeSize_of_zero (h : s.sizeOfRawData = 0) : s.writeSize = s.virtualSize := by
  rw [ImageSectionHeader.writeSize, h]
  rfl

theorem dumpSection_eq (h : 0 ≤ s.pointerToRawData.toInt) :
    dumpSection m base f s = f.put (image m base s s.writeSize) := by
  have hf : fseek f s.pointerToRawData = f.seek s.pointerToRawData.toNat := if_neg <| Int.not_lt.mpr h
  rw [dumpSection, hf, File.put, image]
  split <;> rfl

theorem foldl_dumpSection (h : ∀ s ∈ ss, 0 ≤ s.pointerToRawData.toInt) :
    ss.foldl (dumpSection m base) f = (ss.map fun s => image m base s s.writeSize).foldl File.put f := by
  induction ss generalizing f
  case nil => rfl
  case cons s ss hi =>
    rw [List.foldl_cons, List.map_cons, List.foldl_cons, dumpSection_eq <| h s <| .head _]
    exact hi fun s hs => h s <| .tail _ hs

-- Whether something is spared depends only on the sections without raw data if the others are disjoint from it.
theorem spares_rawless {w : File.Chunk Byte}
    (h : ∀ s ∈ ss, 0 < s.sizeOfRawData → w.Disjoint (image m base s s.sizeOfRawData)) :
    File.Spares (rawless m base ss) w ↔ File.Spares (ss.map fun s => image m base s s.writeSize) w := by
  have hr : rawless m base ss = (ss.filter (·.sizeOfRawData = 0)).map fun s => image m base s s.writeSize := by
    refine List.map_congr_left fun s hs => ?_
    have hz : s.sizeOfRawData = 0 := by simpa using (List.mem_filter.mp hs).2
    rw [writeSize_of_zero hz]
  rw [hr]
  refine File.spares_map_filter fun s hs hq => ?_
  have hp : 0 < s.sizeOfRawData := by
    have : s.sizeOfRawData ≠ 0 := by simpa using hq
    bv_omega
  rw [writeSize_of_pos hp]
  exact h s hs hp

theorem dumpPe_eq (h : LoadedModule m base) :
    dumpPe m base (some .empty) =
    some (((sections m base).map fun s => image m base s s.writeSize).foldl File.put
      (File.empty.put <| headers m base)).content := by
  have hb : guard (base ≠ 0) = some () := if_pos h.base_ne
  have hd : guard ((ImageDosHeader.load m base).eMagic = imageDosSignature) = some () := if_pos h.dos
  have hn : guard ((ntHeaders m base).signature = imageNtSignature) = some () := if_pos h.nt
  rw [dumpPe, hb, hd, hn, ←foldl_dumpSection h.seekable]
  rfl

theorem headers_disjoint (h : LoadedModule m base) (hs : s ∈ sections m base) (hp : 0 < s.sizeOfRawData) :
    (headers m base).Disjoint (image m base s s.sizeOfRawData) := by
  refine .inl ?_
  rw [headers_length]
  exact (Nat.zero_add _).trans_le <| h.headers_le s hs hp

theorem image_disjoint (h : LoadedModule m base) (hs : sections m base = ss ++ s :: ts)
    (hp : 0 < s.sizeOfRawData) (ht : t ∈ ts) (hq : 0 < t.sizeOfRawData) :
    (image m base s s.sizeOfRawData).Disjoint (image m base t t.sizeOfRawData) := by
  have hd := h.disjoint
  rw [hs, List.pairwise_append, List.pairwise_cons] at hd
  rw [File.Chunk.Disjoint, image_length, image_length]
  exact hd.2.1.1 t ht hp hq

theorem holds_headers_iff (h : LoadedModule m base) (hd : dumpPe m base (some .empty) = some file) :
    File.Holds file (headers m base) ↔ File.Spares (rawless m base <| sections m base) (headers m base) := by
  rw [dumpPe_eq h, Option.some.injEq] at hd
  rw [←hd, File.holds_foldl_put_iff, spares_rawless fun s hs hp => headers_disjoint h hs hp]

theorem holds_image_iff (h : LoadedModule m base) (hd : dumpPe m base (some .empty) = some file)
    (hs : sections m base = ss ++ s :: ts) (hp : 0 < s.sizeOfRawData) :
    File.Holds file (image m base s s.sizeOfRawData) ↔
    File.Spares (rawless m base ts) (image m base s s.sizeOfRawData) := by
  rw [dumpPe_eq h, Option.some.injEq, hs, List.map_append, List.foldl_append, List.map_cons, List.foldl_cons,
    writeSize_of_pos hp] at hd
  rw [←hd, File.holds_foldl_put_iff, spares_rawless fun t ht hq => image_disjoint h hs hp ht hq]

theorem dumpPe_faithful_iff (h : LoadedModule m base) :
    (∃ file, dumpPe m base (some .empty) = some file ∧ Faithful m base file) ↔ Spared m base := by
  have ⟨file, hd⟩ : ∃ file, dumpPe m base (some .empty) = some file := ⟨_, dumpPe_eq h⟩
  constructor
  case mp =>
    intro ⟨file, hd, hf⟩
    refine ⟨(holds_headers_iff h hd).mp hf.headers, fun ss s ts hs hp => ?_⟩
    exact (holds_image_iff h hd hs hp).mp <| hf.raw s (by simp [hs]) hp
  case mpr =>
    intro hs
    refine ⟨file, hd, (holds_headers_iff h hd).mpr hs.headers, fun s hm hp => ?_⟩
    obtain ⟨ss, ts, he⟩ := List.append_of_mem hm
    exact (holds_image_iff h hd he hp).mpr <| hs.raw ss s ts he hp

-- No section without raw data lies over the headers or over raw data.
theorem Spared.of_disjoint
    (hh : ∀ t ∈ sections m base, t.sizeOfRawData = 0 →
      (ntHeaders m base).sizeOfHeaders ≤ t.pointerToRawData)
    (hr : ∀ s ∈ sections m base, 0 < s.sizeOfRawData → ∀ t ∈ sections m base, t.sizeOfRawData = 0 →
      s.pointerToRawData.toNat + s.sizeOfRawData.toNat ≤ t.pointerToRawData.toNat ∨
      t.pointerToRawData.toNat + t.virtualSize.toNat ≤ s.pointerToRawData.toNat) : Spared m base where
  headers := by
    refine .of_disjoint fun v hv => .inl ?_
    obtain ⟨t, ht, hz, rfl⟩ := mem_rawless.mp hv
    rw [headers_length]
    exact (Nat.zero_add _).trans_le <| hh t ht hz
  raw ss s ts hs hp := by
    refine .of_disjoint fun v hv => ?_
    obtain ⟨t, ht, hz, rfl⟩ := mem_rawless.mp hv
    rw [File.Chunk.Disjoint, image_length, image_length]
    exact hr s (by simp [hs]) hp t (by simp [hs, ht]) hz

-- The raw data of `.text` follows the headers. The section `.bss` has four bytes in memory, and no raw
-- data.
def textBss (pointerToRawData : Byte) : Memory := fun a =>
  match (a - 0x400000).toNat with
  | 0x00 => 0x4D | 0x01 => 0x5A | 0x3C => 0x40
  | 0x40 => 0x50 | 0x41 => 0x45 | 0x46 => 0x02 | 0x54 => 0x40 | 0x94 => 0xE8
  | 0x98 => 0x2E | 0x99 => 0x74 | 0x9A => 0x65 | 0x9B => 0x78 | 0x9C => 0x74
  | 0xA0 => 0x01 | 0xA5 => 0x10 | 0xA8 => 0x01 | 0xAC => 0xE8
  | 0xC0 => 0x2E | 0xC1 => 0x62 | 0xC2 => 0x73 | 0xC3 => 0x73
  | 0xC8 => 0x04 | 0xCD => 0x20 | 0xD4 => pointerToRawData
  | 0x1000 => 0xC3
  | _ => 0

variable {p : Byte}

theorem sections_textBss (h : p = 0 ∨ p = 0xE9) : sections (textBss p) 0x400000 =
    [⟨[0x2E, 0x74, 0x65, 0x78, 0x74, 0, 0, 0], 1, 0x1000, 1, 0xE8⟩,
      ⟨[0x2E, 0x62, 0x73, 0x73, 0, 0, 0, 0], 4, 0x2000, 0, p.setWidth 32⟩] := by
  rcases h with rfl | rfl <;> decide +kernel

theorem loadedModule_textBss (h : p = 0 ∨ p = 0xE9) : LoadedModule (textBss p) 0x400000 where
  base_ne    := by decide
  dos        := by rcases h with rfl | rfl <;> decide +kernel
  nt         := by rcases h with rfl | rfl <;> decide +kernel
  seekable   := by rw [sections_textBss h]; rcases h with rfl | rfl <;> decide +kernel
  headers_le := by rw [sections_textBss h]; rcases h with rfl | rfl <;> decide +kernel
  disjoint   := by rw [sections_textBss h]; rcases h with rfl | rfl <;> decide +kernel

-- The section `.bss` lies behind the raw data of `.text`.
theorem dumpPe_textBss : ∃ file,
    dumpPe (textBss 0xE9) 0x400000 (some .empty) = some file ∧ Faithful (textBss 0xE9) 0x400000 file := by
  refine (dumpPe_faithful_iff <| loadedModule_textBss <| .inr rfl).mpr <| .of_disjoint ?_ ?_
  case refine_1 => rw [sections_textBss <| .inr rfl]; decide +kernel
  case refine_2 => rw [sections_textBss <| .inr rfl]; decide +kernel

-- The section `.bss` lies at the start of the file, where it replaces the signature.
theorem dumpPe_textBss_not_faithful :
    LoadedModule (textBss 0) 0x400000 ∧
    (dumpPe (textBss 0) 0x400000 (some .empty)).map (·.take 4) = some [0, 0, 0, 0] ∧
    ¬∃ file,
      dumpPe (textBss 0) 0x400000 (some .empty) = some file ∧ Faithful (textBss 0) 0x400000 file := by
  have hd : (dumpPe (textBss 0) 0x400000 (some .empty)).map (·.take 4) = some [0, 0, 0, 0] := by
    decide +kernel
  refine ⟨loadedModule_textBss <| .inl rfl, hd, ?_⟩
  intro ⟨file, he, hf⟩
  rw [he, Option.map_some, Option.some.injEq] at hd
  have h₀ : file[0]? = some 0 := by rw [←List.getElem?_take_of_lt (show 0 < 4 by decide), hd]; rfl
  have hm : file[0]? = some 0x4D := File.holds_iff.mp hf.headers 0 0x4D <| by decide +kernel
  exact absurd (h₀.symm.trans hm) (by decide)

end DumpModule
