import MhoLauncher.AgBuffer.Refinement
import MhoLauncher.Library.Layout
import MhoLauncher.SharedMemory.Basic

open AgBuffer Bytes

namespace TenProxyTclsSharedMeMemory

variable {heap : Heap} {b b' : AgBuffer} {w w' pre : List Byte} {k n : Nat}

section Emits

-- All bytes of the buffer are written, and the next byte is appended to them. Every call of
-- `write_data` may have left another `GROW_SIZE` bytes of the block unused.
structure AtEnd (b : AgBuffer) (pre : List Byte) (k : Nat) : Prop where
  represents : b.Represents ⟨.atEnd pre, .small⟩
  realLength : b.realLength ≤ pre.length + GROW_SIZE * (k + 1)

namespace AtEnd

theorem position (a : AtEnd b pre k) : b.position = pre.length :=
  a.represents.pos.symm

theorem endianness (a : AtEnd b pre k) : b.endianness = .small :=
  a.represents.endianness.symm

theorem mono {k' : Nat} (a : AtEnd b pre k) (h : k ≤ k') : AtEnd b pre k' where
  represents := a.represents
  realLength := a.realLength.trans <| by simp [GROW_SIZE, h]

-- Writing a byte grows the block only if all of it is in use.
theorem writeU8 {v : Byte} (a : AtEnd b pre k) (hh : heap.Total) (hl : pre.length < 2 ^ 31)
    (hk : k ≤ 64) : ∃ b', AgBuffer.writeU8 (.windows heap) v b = some ((), b') ∧ AtEnd b' (pre ++ [v]) k := by
  have hp := a.position
  have hr := a.realLength
  have ⟨b', hb, h⟩ := a.represents.capacity.writeBlock (σ := .windows heap) (w := [v]) hh <| by
    simp only [Fits, GROW_SIZE, List.length_singleton] at *
    omega
  refine ⟨b', hb, Cursor.atEnd_write pre [v] ▸ a.represents.written h, ?_⟩
  have := h.realLength
  simp only [GROW_SIZE, List.length_append, List.length_singleton] at *
  split at this <;> omega

theorem writeData (a : AtEnd b pre k) (hh : heap.Total) (hl : (pre ++ w).length < 2 ^ 31)
    (hk : k < 64) :
    ∃ b', AgBuffer.writeData (.windows heap) w b = some ((), b') ∧ AtEnd b' (pre ++ w) (k + 1) := by
  cases w
  case nil => exact ⟨b, rfl, by simpa using a.mono k.le_succ⟩
  case cons v w =>
    have hp := a.position
    have hr := a.realLength
    have ⟨b', hb, h⟩ := a.represents.capacity.writeBlock (σ := .windows heap) (w := v :: w) hh <| by
      simp only [Fits, GROW_SIZE, List.length_append] at *
      omega
    refine ⟨b', hb, Cursor.atEnd_write pre (v :: w) ▸ a.represents.written h, ?_⟩
    have := h.realLength
    simp only [GROW_SIZE, List.length_append] at *
    split at this <;> omega

end AtEnd

-- The program appends the given bytes. It calls `write_data` at most `n` times.
def Emits (p : AgBuffer.M Unit) (w : List Byte) (n : Nat) : Prop :=
  ∀ ⦃b pre k⦄, AtEnd b pre k → (pre ++ w).length < 2 ^ 31 → k + n ≤ 64 →
    ∃ b', p b = some ((), b') ∧ AtEnd b' (pre ++ w) (k + n)

namespace Emits

theorem seq {p q : AgBuffer.M Unit} (hp : Emits p w 0) (hq : Emits q w' n) :
    Emits (do p; q) (w ++ w') n := by
  intro b pre k a hl hk
  rw [←List.append_assoc] at hl ⊢
  have ⟨b₁, h₁, a₁⟩ := hp a (by rw [List.length_append] at hl; omega) (by omega)
  have ⟨b₂, h₂, a₂⟩ := hq a₁ hl hk
  exact ⟨b₂, by simp [h₁, h₂], a₂⟩

theorem bytes (hh : heap.Total) (w : List Byte) (n : Nat) :
    Emits (forM w <| writeU8 <| .windows heap) w n := by
  intro b pre k a hl hk
  induction w generalizing b pre
  case nil => exact ⟨b, rfl, by simpa using a.mono <| k.le_add_right n⟩
  case cons v w hi =>
    have ⟨b₁, h₁, a₁⟩ := a.writeU8 (v := v) hh (by simp at hl; omega) (by omega)
    have ⟨b₂, h₂, a₂⟩ := hi a₁ (by simpa using hl)
    exact ⟨b₂, by simp [h₁]; exact h₂, by simpa using a₂⟩

-- A program that writes the bytes one at a time if the byte order is the default one.
theorem of_bytes (hh : heap.Total) {p : AgBuffer.M Unit}
    (h : ∀ {b}, b.endianness = .small → p b = forM w (writeU8 <| .windows heap) b) : Emits p w n := by
  intro b pre k a hl hk
  rw [h a.endianness]
  exact bytes hh w n a hl hk

variable (hh : heap.Total)
include hh

theorem u8 (v : Byte) : Emits (writeU8 (.windows heap) v) [v] n :=
  of_bytes hh fun _ => writeU8_eq v

theorem u16 (v : Word) : Emits (writeU16 (.windows heap) v) (toLE 2 v) n :=
  of_bytes hh fun h => by rw [writeU16_eq, h]; rfl

theorem u32 (v : DWord) : Emits (writeU32 (.windows heap) v) (toLE 4 v) n :=
  of_bytes hh fun h => by rw [writeU32_eq, h]; rfl

theorem repeated (v : Byte) (m : Nat) :
    Emits (writeRepeat (.windows heap) v m) (List.replicate m v) n :=
  bytes hh _ n

theorem string (s : List Byte) : Emits (writeString (.windows heap) s) (s ++ [0]) n :=
  of_bytes hh fun _ => writeString_eq s

theorem wstring (s : List Word) : Emits (writeWstring (.windows heap) s) (s.flatMap <| toLE 2) n :=
  of_bytes hh fun _ => writeWstring_eq s

theorem data (w : List Byte) : Emits (writeData (.windows heap) w) w 1 :=
  fun _ _ _ a hl hk => a.writeData hh hl hk

end Emits

end Emits

section Layout

variable (getUtf16 : List Byte → List Word) (t : TenProxyTclsSharedMeMemory)

-- The order of the parts in the image.
def order : List Part := [
  .table,
  .var 1, .var 2, .var 6, .var 3, .var 4, .var 5, .var 21, .var 22, .var 23, .var 24, .var 25, .var 26,
  .var 27, .var 32, .var 33, .var 17, .var 18, .var 19, .var 36, .var 37, .var 40, .var 42,
  .subTable,
  .sub 2, .sub 3, .sub 4, .sub 5, .sub 6, .sub 7, .sub 8, .sub 9, .sub 10,
  .var 7, .var 60, .var 14, .var 41, .var 15, .var 16
]

def wide (s : List Byte) : List Byte :=
  getUtf16 s |>.flatMap <| toLE 2

-- The field or constant that a record carries.
def payload : Part → List Byte
  | .var 1  => toLE 4 (0x300A01 : DWord)
  | .var 2  => toLE 4 t.qqUin
  | .var 3  => [0x60]
  | .var 4  => t.qqSigInfoUnified
  | .var 5  => t.aesKey
  | .var 6  => toLE 4 t.qqUin
  | .var 14 => wide getUtf16 t.tclsClientExe
  | .var 15 => wide getUtf16 t.var15
  | .var 16 => toLE 2 (0 : Word)
  | .var 17 => toLE 4 (1 : DWord)
  | .var 18 => toLE 4 (1 : DWord)
  | .var 19 => wide getUtf16 t.var19
  | .var 21 => [0]
  | .var 23 => [0]
  | .var 25 => t.var25
  | .var 26 => [0x48]
  | .var 27 => t.var27
  | .var 32 => toLE 4 (3 : DWord)
  | .var 33 => wide getUtf16 t.var33
  | .var 36 => toLE 4 (1 : DWord)
  | .var 37 => toLE 4 (0 : DWord)
  | .var 40 => toLE 4 (0 : DWord)
  | .var 41 => toLE 4 (0 : DWord)
  | .var 42 => toLE 4 (0 : DWord)
  | .var 60 => t.var60
  | .sub 2  => wide getUtf16 t.connection
  | .sub 3  => wide getUtf16 t.ip
  | .sub 4  => toLE 4 (0x2B0A : DWord)
  | .sub 5  => wide getUtf16 t.var20V5
  | .sub 6  => toLE 4 t.qqUin
  | .sub 7  => toLE 4 t.qqUin
  | .sub 8  => toLE 4 (5 : DWord)
  | .sub 9  => t.var20V9 ++ [0]
  | .sub 10 => toLE 2 (0 : Word)
  | _       => []

def lengthPrefixed (w : List Byte) : List Byte :=
  toLE 4 (BitVec.ofNat 32 w.length) ++ w

-- The bytes of a part, where the tables are not filled in yet.
def reserved : Part → List Byte
  | .table    => List.replicate (4 + OFFSET_TABLE_SIZE * 4) 0
  | .subTable => List.replicate (VAR_20_OFFSET_TABLE_SIZE * 4) 0
  | k         => lengthPrefixed <| payload getUtf16 t k

def layout (parts : List Part) : Layout Part Byte :=
  .build (reserved getUtf16 t) parts

def imageSize : Nat :=
  (layout getUtf16 t order).items.length

theorem order_nodup : order.Nodup := by
  decide

-- The program appends the given parts and remembers their positions.
def Lays (p : W Unit) (parts : List Part) : Prop :=
  ∀ ⦃o b pre k⦄, AtEnd b pre k → (pre ++ (layout getUtf16 t parts).items).length < 2 ^ 31 →
    k + parts.length ≤ 64 →
      ∃ o' b', p o b = some (((), o'), b') ∧
        AtEnd b' (pre ++ (layout getUtf16 t parts).items) (k + parts.length) ∧
        (∀ i ∈ parts, o' i = pre.length + (layout getUtf16 t parts).offset i) ∧
        ∀ i ∉ parts, o' i = o i

section W

variable {o : Offsets}

theorem W.bind_apply {p : W α} {q : α → W β} :
    (p >>= q) o b = (p o b).bind fun r => q r.1.1 r.1.2 r.2 :=
  rfl

theorem W.bind_eq {p : W α} {q : α → W β} {o' : Offsets} {a : α} {r : (β × Offsets) × AgBuffer}
    (hp : p o b = some ((a, o'), b')) (hq : q a o' b' = some r) : (p >>= q) o b = some r := by
  rw [W.bind_apply, hp]
  exact hq

theorem W.lift_eq {p : AgBuffer.M α} {a : α} (h : p b = some (a, b')) :
    (p : W α) o b = some ((a, o), b') :=
  Option.bind_eq_some_iff.mpr ⟨_, h, rfl⟩

theorem record_apply {part : Part} {body : AgBuffer.M Unit} :
    record part body o b = (body b).bind fun r => some (((), Function.update o part b.position), r.2) :=
  rfl

end W

namespace Lays

variable {getUtf16 t} {part : Part} {parts : List Part} {p : W Unit} {body : AgBuffer.M Unit}

theorem record (h : Emits body (reserved getUtf16 t part) 1) : Lays getUtf16 t (record part body) [part] := by
  intro o b pre k a hl hk
  simp only [layout, Layout.build, List.map_cons, List.map_nil, Layout.items_cons, Layout.items_nil,
    List.append_nil] at hl ⊢
  obtain ⟨b', hb, a'⟩ := h a hl hk
  refine ⟨Function.update o part b.position, b', ?_, a', ?_, ?_⟩
  · simp [record_apply, hb]
  · simp [Layout.offset, a.position]
  · simp +contextual [Function.update_of_ne]

-- The positions of the first part are remembered until the end, as no part is written twice.
theorem cons (hn : part ∉ parts) (h : Emits body (reserved getUtf16 t part) 1)
    (hp : Lays getUtf16 t p parts) :
    Lays getUtf16 t (do TenProxyTclsSharedMeMemory.record part body; p) (part :: parts) := by
  intro o b pre k a hl hk
  have hi : (layout getUtf16 t (part :: parts)).items =
    reserved getUtf16 t part ++ (layout getUtf16 t parts).items := rfl
  rw [hi, ←List.append_assoc] at hl ⊢
  rw [List.length_cons] at hk
  obtain ⟨b₁, hb₁, a₁⟩ := h a (by rw [List.length_append] at hl; omega) (by omega)
  obtain ⟨o₂, b₂, hb₂, a₂, hm, hf⟩ := hp (o := Function.update o part b.position) a₁ hl (by omega)
  refine ⟨o₂, b₂, ?_, a₂.mono <| by simp; omega, ?_, ?_⟩
  · simp [W.bind_apply, record_apply, hb₁, hb₂]
  · intro i hi
    cases hi
    case head => simp [hf part hn, layout, Layout.build, Layout.offset, a.position]
    case tail hi =>
      have hne : part ≠ i := fun he => hn <| he ▸ hi
      rw [hm i hi, List.length_append, Nat.add_assoc]
      simp [layout, Layout.build, Layout.offset, hne]
  · intro i hi
    obtain ⟨h₁, h₂⟩ := not_or.mp <| List.mem_cons.not.mp hi
    rw [hf i h₂, Function.update_of_ne h₁]

end Lays

section Records

variable (hh : heap.Total)
include hh

theorem emits_table : Emits (do
    writeU32 (.windows heap) 0
    writeRepeat (.windows heap) 0 (OFFSET_TABLE_SIZE * 4)) (reserved getUtf16 t .table) 1 :=
  (Emits.u32 hh 0).seq (.repeated hh 0 _)

theorem emits_dword (v : DWord) : Emits (do
    writeU32 (.windows heap) 4
    writeU32 (.windows heap) v) (lengthPrefixed <| toLE 4 v) 1 :=
  (Emits.u32 hh 4).seq (.u32 hh v)

theorem emits_word (v : Word) : Emits (do
    writeU32 (.windows heap) 2
    writeU16 (.windows heap) v) (lengthPrefixed <| toLE 2 v) 1 :=
  (Emits.u32 hh 2).seq (.u16 hh v)

theorem emits_byte (v : Byte) : Emits (do
    writeU32 (.windows heap) 1
    writeU8 (.windows heap) v) (lengthPrefixed [v]) 1 :=
  (Emits.u32 hh 1).seq (.u8 hh v)

theorem emits_empty : Emits (writeU32 (.windows heap) 0) (lengthPrefixed []) 1 :=
  Emits.u32 hh 0

theorem emits_data (w : List Byte) : Emits (writeDataRecord (.windows heap) w) (lengthPrefixed w) 1 :=
  (Emits.u32 hh _).seq (.data hh w)

theorem emits_string (s : List Byte) : Emits (do
    writeU32 (.windows heap) (BitVec.ofNat 32 (s.length + 1))
    writeString (.windows heap) s) (lengthPrefixed <| s ++ [0]) 1 := by
  rw [lengthPrefixed, List.length_append]
  exact (Emits.u32 hh _).seq (.string hh s)

-- The length counts bytes, and a wide character has two.
theorem emits_wide (s : List Byte) :
    Emits (writeWideRecord (.windows heap) getUtf16 s) (lengthPrefixed <| wide getUtf16 s) 1 := by
  rw [lengthPrefixed, wide, flatMap_toLE_length, Nat.mul_comm]
  exact (Emits.u32 hh _).seq (.wstring hh _)

theorem writeRecords_lays : Lays getUtf16 t (writeRecords (.windows heap) getUtf16 t) order :=
  .cons (by decide) (emits_table getUtf16 t hh) <|
  .cons (by decide) (emits_dword hh _) <|
  .cons (by decide) (emits_dword hh _) <|
  .cons (by decide) (emits_dword hh _) <|
  .cons (by decide) (emits_byte hh _) <|
  .cons (by decide) (emits_data hh _) <|
  .cons (by decide) (emits_data hh _) <|
  .cons (by decide) (emits_byte hh _) <|
  .cons (by decide) (emits_empty hh) <|
  .cons (by decide) (emits_byte hh _) <|
  .cons (by decide) (emits_empty hh) <|
  .cons (by decide) (emits_data hh _) <|
  .cons (by decide) (emits_byte hh _) <|
  .cons (by decide) (emits_data hh _) <|
  .cons (by decide) (emits_dword hh _) <|
  .cons (by decide) (emits_wide _ hh _) <|
  .cons (by decide) (emits_dword hh _) <|
  .cons (by decide) (emits_dword hh _) <|
  .cons (by decide) (emits_wide _ hh _) <|
  .cons (by decide) (emits_dword hh _) <|
  .cons (by decide) (emits_dword hh _) <|
  .cons (by decide) (emits_dword hh _) <|
  .cons (by decide) (emits_dword hh _) <|
  .cons (by decide) (.repeated hh 0 _) <|
  .cons (by decide) (emits_wide _ hh _) <|
  .cons (by decide) (emits_wide _ hh _) <|
  .cons (by decide) (emits_dword hh _) <|
  .cons (by decide) (emits_wide _ hh _) <|
  .cons (by decide) (emits_dword hh _) <|
  .cons (by decide) (emits_dword hh _) <|
  .cons (by decide) (emits_dword hh _) <|
  .cons (by decide) (emits_string hh _) <|
  .cons (by decide) (emits_word hh _) <|
  .cons (by decide) (emits_empty hh) <|
  .cons (by decide) (emits_data hh _) <|
  .cons (by decide) (emits_wide _ hh _) <|
  .cons (by decide) (emits_dword hh _) <|
  .cons (by decide) (emits_wide _ hh _) <|
  .record (emits_word hh _)

end Records

end Layout

end TenProxyTclsSharedMeMemory
