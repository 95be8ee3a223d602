import MhoLauncher.AgBuffer.Invariant
import MhoLauncher.AgBuffer.Endianness

open Bytes

namespace AgBuffer

variable {σ : Platform} {b b' : AgBuffer} {s : Stream} {w : List Byte}

-- A buffer represents a stream if their bytes agree below `virtualLength`. The bytes above are
-- arbitrary.
structure Represents (b : AgBuffer) (s : Stream) : Prop where
  capacity   : b.Capacity
  items      : s.cursor.items = b.contents
  pos        : s.cursor.pos = b.position
  endianness : s.endianness = b.endianness

namespace Represents

theorem length (r : b.Represents s) : s.cursor.items.length = b.virtualLength :=
  r.items ▸ r.capacity.contents_length

theorem position_le (r : b.Represents s) : b.position ≤ b.virtualLength :=
  r.pos ▸ r.length ▸ s.cursor.pos_le

theorem virtual_lt (r : b.Represents s) : b.virtualLength < 2 ^ 32 :=
  r.capacity.virtual_le.trans_lt r.capacity.real_lt

theorem written (r : b.Represents s) (h : b.Written w b') : b'.Represents (s.write w) where
  capacity   := h.capacity
  items      := by rw [Stream.write, Cursor.write_items, r.items, r.pos, h.contents r.position_le]
  pos        := by rw [Stream.write, Cursor.write_pos, r.pos, h.position]
  endianness := by rw [h.endianness, ←r.endianness]; rfl

theorem load (r : b.Represents s) {i n : Nat} (h : i + n ≤ b.virtualLength) :
    b.load i n = some (s.cursor.items.drop i |>.take n) := by
  have := r.capacity.data_length
  have := r.capacity.virtual_le
  rw [AgBuffer.load, if_pos (by omega), r.items, contents, List.drop_take, List.take_take,
    Nat.min_eq_left (by omega)]

theorem moved (r : b.Represents s) {c : Cursor Byte} {p : Nat} (hi : c.items = s.cursor.items)
    (hp : c.pos = p) : Represents { b with position := p } { s with cursor := c } where
  capacity   := r.capacity.moved <| hp ▸ c.pos_le.trans ((hi ▸ r.length).trans_le r.capacity.virtual_le)
  items      := hi.trans r.items
  pos        := hp
  endianness := r.endianness

end Represents

section Writes

theorem writeBlock_refines (r : b.Represents s) (hh : σ.heap.Total) (hf : b.Fits w.length) :
    ∃ b', writeBlock σ w b = some ((), b') ∧ b'.Represents (s.write w) :=
  have ⟨b', hb, h⟩ := r.capacity.writeBlock hh hf
  ⟨b', hb, r.written h⟩

theorem writeData_refines (r : b.Represents s) (hh : σ.heap.Total) (hf : b.Fits w.length) :
    ∃ b', writeData σ w b = some ((), b') ∧ b'.Represents (s.write w) := by
  cases w
  case nil => exact ⟨b, rfl, by simpa [Stream.write] using r⟩
  case cons v w => exact writeBlock_refines r hh hf

-- When `n` bytes are written one at a time, then a full block grows by `GROW_SIZE + 1` bytes. This
-- states that the length of the block does not wrap around in the process.
def FitsEach (b : AgBuffer) (n : Nat) : Prop :=
  b.realLength + (GROW_SIZE + 1) * ((b.position + n - b.realLength + GROW_SIZE) / (GROW_SIZE + 1)) < 2 ^ 32

theorem FitsEach.head {n : Nat} (hf : b.FitsEach (n + 1)) (c : b.Capacity) : b.Fits 1 := by
  have := c.position_le
  simp only [FitsEach, Fits, GROW_SIZE] at *
  omega

theorem FitsEach.tail {n : Nat} {v : Byte} (hf : b.FitsEach (n + 1)) (c : b.Capacity)
    (h : b.Written [v] b') : b'.FitsEach n := by
  have := c.position_le
  simp only [FitsEach, GROW_SIZE] at *
  rw [h.position, h.realLength, List.length_singleton, GROW_SIZE]
  split <;> omega

theorem forM_writeU8_refines (r : b.Represents s) (hh : σ.heap.Total) (hf : b.FitsEach w.length) :
    ∃ b', forM w (writeU8 σ) b = some ((), b') ∧ b'.Represents (s.write w) := by
  induction w generalizing b s
  case nil => exact ⟨b, rfl, by simpa [Stream.write] using r⟩
  case cons v w hi =>
    have ⟨b₁, hb₁, h⟩ := r.capacity.writeBlock (w := [v]) hh <| hf.head r.capacity
    have ⟨b₂, hb₂, hr⟩ := hi (r.written h) <| hf.tail r.capacity h
    refine ⟨b₂, by simp [writeU8, hb₁]; exact hb₂, ?_⟩
    rwa [Stream.write, Stream.write, Cursor.write_append] at hr

theorem writeU8_eq (v : Byte) : writeU8 σ v b = forM [v] (writeU8 σ) b := by
  cases h : writeU8 σ v b <;> simp [h]

theorem writeU16_eq (v : Word) :
    writeU16 σ v b = forM (toLE 2 <| swapEndianness16 σ v b.endianness) (writeU8 σ) b := by
  simp [toLE_two, writeU16]

theorem writeU32_eq (v : DWord) :
    writeU32 σ v b = forM (toLE 4 <| swapEndianness32 σ v b.endianness) (writeU8 σ) b := by
  simp [toLE_four, writeU32]

theorem writeString_eq (str : List Byte) :
    writeString σ str b = forM (str ++ [0]) (writeU8 σ) b := by
  simp [writeString]

-- The byte order is applied to a wide character twice.
theorem writeWchar_eq (v : Word) : writeWchar σ v b = forM (toLE 2 v) (writeU8 σ) b := by
  simp only [writeWchar, M.bind_apply, M.get_apply, Option.bind_some]
  rw [writeU16_eq, swapEndianness16_involutive]

theorem writeWstring_eq (str : List Word) :
    writeWstring σ str b = forM (str.flatMap <| toLE 2) (writeU8 σ) b := by
  rw [writeWstring]
  induction str generalizing b
  case nil => rfl
  case cons v str hi =>
    rw [List.flatMap_cons, List.forM_append, List.forM_cons, M.bind_apply, M.bind_apply, writeWchar_eq]
    simp only [hi]

end Writes

section Reads

theorem readU8_refines (r : b.Represents s) :
    ∃ b', readU8 b = some (s.readU8.1, b') ∧ b'.Represents s.readU8.2 := by
  have := r.virtual_lt
  cases h : s.cursor.next
  case none =>
    have hp : b.position = b.virtualLength := by rw [←r.pos, ←r.length, Cursor.next_eq_none_iff.mp h]
    exact ⟨b, by simp [readU8, Stream.readU8, h, hp], by simpa [Stream.readU8, h] using r⟩
  case some p =>
    have ⟨_, hi, hp⟩ := Cursor.next_eq_some_iff.mp h
    have hlt : b.position < b.virtualLength := by
      have := hi ▸ p.2.pos_le
      rw [hp, r.pos, r.length] at this
      exact this
    have hg := Cursor.getElem?_of_next h
    rw [r.items, r.pos, contents, List.getElem?_take_of_lt hlt] at hg
    refine ⟨{ b with position := sizeT (b.position + 1) }, ?_, ?_⟩
    · simp [readU8, Stream.readU8, h, hg, Nat.not_le.mpr hlt]
    · simp only [Stream.readU8, h]
      exact r.moved hi <| hp.trans <| by rw [r.pos, sizeT_eq (by omega)]

@[simp]
theorem Stream.readU8_endianness : s.readU8.2.endianness = s.endianness := by
  rw [Stream.readU8]
  split <;> rfl

theorem readU16_refines (r : b.Represents s) :
    ∃ b', readU16 σ b = some (ofLE 16 <| s.order σ.endianness (s.readBytes 2).1, b') ∧
      b'.Represents (s.readBytes 2).2 := by
  have ⟨b₁, h₁, r₁⟩ := readU8_refines r
  have ⟨b₂, h₂, r₂⟩ := readU8_refines r₁
  refine ⟨b₂, ?_, r₂⟩
  rw [←swapEndianness16_ofLE rfl]
  simp [readU16, h₁, h₂, ←r₂.endianness, Stream.readBytes, ofLE_two]

theorem readU32_refines (r : b.Represents s) :
    ∃ b', readU32 σ b = some (ofLE 32 <| s.order σ.endianness (s.readBytes 4).1, b') ∧
      b'.Represents (s.readBytes 4).2 := by
  have ⟨b₁, h₁, r₁⟩ := readU8_refines r
  have ⟨b₂, h₂, r₂⟩ := readU8_refines r₁
  have ⟨b₃, h₃, r₃⟩ := readU8_refines r₂
  have ⟨b₄, h₄, r₄⟩ := readU8_refines r₃
  simp only [Stream.readBytes]
  refine ⟨b₄, ?_, r₄⟩
  rw [←swapEndianness32_ofLE rfl]
  simp [readU32, h₁, h₂, h₃, h₄, ←r₄.endianness, ofLE_four]

-- The fuel suffices, as every iteration but the last one consumes a byte.
theorem readString_loop_refines {fuel : Nat} (r : b.Represents s) (hf : s.cursor.available < fuel) :
    ∃ b', readString.loop fuel b = some ((s.cursor.readUntil Stream.isNul).1, b') ∧
      b'.Represents { s with cursor := (s.cursor.readUntil Stream.isNul).2 } := by
  induction fuel generalizing b s <;> simp only [readString.loop]
  case zero => contradiction
  case succ fuel hi =>
    have ⟨b₁, h₁, r₁⟩ := readU8_refines r
    cases h : s.cursor.next <;> simp only [Stream.readU8, h] at h₁ r₁
    case none =>
      exact ⟨b₁, by simp [h₁, Cursor.readUntil_of_next_none h], by rwa [Cursor.readUntil_of_next_none h]⟩
    case some p =>
      by_cases hz : p.1 = 0#8
      case pos =>
        rw [Cursor.readUntil_of_next_stop h (by simp [Stream.isNul, hz])]
        exact ⟨b₁, by simp [h₁, hz], r₁⟩
      case neg =>
        have ha := Cursor.available_of_next h
        have ⟨b₂, h₂, r₂⟩ := hi r₁ <| by simp only; omega
        rw [Cursor.readUntil_of_next h (by simp [Stream.isNul, hz])]
        exact ⟨b₂, by rw [M.bind_apply, h₁]; simp [if_neg hz, h₂], r₂⟩

theorem readString_refines (r : b.Represents s) :
    ∃ b', readString b = some ((s.cursor.readUntil Stream.isNul).1, b') ∧
      b'.Represents { s with cursor := (s.cursor.readUntil Stream.isNul).2 } := by
  simp only [readString, M.bind_apply, M.get_apply, Option.bind_some]
  exact readString_loop_refines r <| by simp [Cursor.available, r.length, r.pos]

theorem readData_refines {n : Nat} (r : b.Represents s) (dst : Dst) (hw : b.position + n < 2 ^ 32) :
    ∃ b', readData dst n b = some ((s.readData dst n).1, b') ∧ b'.Represents (s.readData dst n).2 := by
  cases dst
  case none => exact ⟨b, rfl, r⟩
  case some old =>
    by_cases h : b.position + n ≤ b.virtualLength
    case pos =>
      have hn : ¬ b.virtualLength < n := by omega
      have hc : s.cursor.pos + n ≤ s.cursor.items.length := by rwa [r.pos, r.length]
      have hr : s.cursor.read n = some (s.cursor.rest.take n, ⟨s.cursor.items, s.cursor.pos + n, hc⟩) :=
        dif_pos hc
      have hm : min n (s.cursor.items.length - b.position) = n := by rw [r.length]; omega
      refine ⟨{ b with position := b.position + n }, ?_, ?_⟩
      · simp [readData, sizeT_eq hw, hn, Nat.not_lt.mpr h, r.load h, Stream.readData, hr, Stream.copy,
          hm, r.pos, Cursor.rest]
      · simp only [Stream.readData, hr]
        exact r.moved rfl <| by simp only [r.pos]
    case neg =>
      have hr : s.cursor.read n = none := dif_neg (by rwa [r.pos, r.length])
      refine ⟨b, ?_, by simpa [Stream.readData, hr] using r⟩
      simp [readData, sizeT_eq hw, Nat.lt_of_not_le h, Stream.readData, hr]

theorem getData_refines {off n len : Nat} (r : b.Represents s) (dst : Dst) (hw : off + n < 2 ^ 32) :
    getData off n dst len b =
    some (if len < n then dst else Stream.copy (s.cursor.slice off n) dst, b) := by
  cases dst <;> simp only [getData]
  case none => cases s.cursor.slice off n <;> simp [Stream.copy]
  case some old =>
    by_cases h : off + n ≤ b.virtualLength
    case pos =>
      have hn : ¬ b.virtualLength < n := by omega
      have hm : min n (s.cursor.items.length - off) = n := by rw [r.length]; omega
      have hs : s.cursor.slice off n = some (s.cursor.items.drop off |>.take n) :=
        if_pos (by rwa [r.length])
      by_cases hl : len < n <;>
        simp [hn, sizeT_eq hw, Nat.not_lt.mpr h, hl, r.load h, hs, Stream.copy, hm]
    case neg =>
      have hs : s.cursor.slice off n = none := if_neg (by rwa [r.length])
      simp [sizeT_eq hw, Nat.lt_of_not_le h, hs, Stream.copy]

theorem getAllData_refines {len : Nat} (r : b.Represents s) (dst : Dst) :
    getAllData dst len b =
    some (if len < s.cursor.items.length then dst else Stream.copy s.cursor.items dst, b) := by
  by_cases hl : len < s.cursor.items.length
  case pos => simp [getAllData, ←r.length, hl]
  case neg =>
    have hd := r.load (i := 0) (n := b.virtualLength) (by omega)
    rw [←r.length] at hd
    by_cases hz : len = 0
    case pos =>
      have hn : s.cursor.items = [] := List.eq_nil_of_length_eq_zero (by omega)
      cases dst <;> simp [getAllData, hz, hn, Stream.copy]
    case neg => cases dst <;> simp [getAllData, ←r.length, hl, hz, hd, Stream.copy]

theorem seek_refines (r : b.Represents s) (p : Nat) :
    ∃ b', seek p b = some ((), b') ∧ b'.Represents { s with cursor := s.cursor.seek p } := by
  refine ⟨_, rfl, r.moved rfl ?_⟩
  rw [Cursor.seek_pos, r.length]
  split <;> omega

end Reads

-- None of the sums of type `size_t` in an operation wraps around.
def Op.NoWrap (b : AgBuffer) : Op → Prop
  | writeU8 _           => b.FitsEach 1
  | writeU16 _          => b.FitsEach 2
  | writeU32 _          => b.FitsEach 4
  | writeData src       => b.Fits src.length
  | writeRepeat _ n     => b.FitsEach n.toNat
  | writeString str     => b.FitsEach (str.length + 1)
  | readData _ n        => b.position + n.toNat < 2 ^ 32
  | getData off n _ _   => off.toNat + n.toNat < 2 ^ 32
  | _                   => True

theorem exec_refines (hh : σ.heap.Total) :
    Machine.Refines (exec σ) (Stream.exec σ.endianness) Op.NoWrap Represents := by
  intro b s op r hw
  cases op <;> simp only [Op.NoWrap] at hw <;> simp only [exec, Stream.exec, M.map_apply]
  case writeU8 v =>
    have ⟨b', h, r'⟩ := writeBlock_refines (w := [v]) r hh <| hw.head r.capacity
    exact ⟨b', by simp [writeU8, h], r'⟩
  case writeU16 v =>
    have ⟨b', h, r'⟩ := forM_writeU8_refines (w := s.order σ.endianness <| toLE 2 v) r hh (by simpa)
    rw [writeU16_eq, ←r.endianness, toLE_swapEndianness16, h]
    exact ⟨b', rfl, r'⟩
  case writeU32 v =>
    have ⟨b', h, r'⟩ := forM_writeU8_refines (w := s.order σ.endianness <| toLE 4 v) r hh (by simpa)
    rw [writeU32_eq, ←r.endianness, toLE_swapEndianness32, h]
    exact ⟨b', rfl, r'⟩
  case writeData src =>
    have ⟨b', h, r'⟩ := writeData_refines (w := src) r hh hw
    exact ⟨b', by simp [h], r'⟩
  case writeRepeat v n =>
    have ⟨b', h, r'⟩ := forM_writeU8_refines (w := List.replicate n.toNat v) r hh (by simpa)
    exact ⟨b', by simp [writeRepeat, h], r'⟩
  case writeString str =>
    have ⟨b', h, r'⟩ := forM_writeU8_refines (w := str ++ [0]) r hh (by simpa)
    exact ⟨b', by rw [writeString_eq, h]; rfl, r'⟩
  case seek p =>
    have ⟨b', h, r'⟩ := seek_refines r p.toNat
    exact ⟨b', by simp [h], r'⟩
  case setEndianness e =>
    exact ⟨_, rfl, ⟨r.capacity.withEndianness, r.items, r.pos, rfl⟩⟩
  case readU8 =>
    have ⟨b', h, r'⟩ := readU8_refines r
    exact ⟨b', by simp [h], r'⟩
  case readU16 =>
    have ⟨b', h, r'⟩ := readU16_refines (σ := σ) r
    exact ⟨b', by simp [h], r'⟩
  case readU32 =>
    have ⟨b', h, r'⟩ := readU32_refines (σ := σ) r
    exact ⟨b', by simp [h], r'⟩
  case readString =>
    have ⟨b', h, r'⟩ := readString_refines r
    exact ⟨b', by simp [h], r'⟩
  case readData dst n =>
    have ⟨b', h, r'⟩ := readData_refines r dst hw
    exact ⟨b', by simp [h], r'⟩
  case getData off n dst len =>
    exact ⟨b, by simp [getData_refines r dst hw, BitVec.lt_def], r⟩
  case getAllData dst len =>
    exact ⟨b, by simp [getAllData_refines r], r⟩
  case getPosition => exact ⟨b, by simp [getPosition, r.pos], r⟩
  case getLength => exact ⟨b, by simp [getLength, r.length], r⟩
  case getAvailable =>
    have := r.virtual_lt
    have := r.position_le
    refine ⟨b, ?_, r⟩
    simp [getAvailable, Cursor.available, r.length, r.pos, sizeT]
    omega

-- The constructors, where `AgBuffer(void *, size_t)` is given the bytes to start with.
def create (σ : Platform) : Option (List Byte) → Option AgBuffer
  | none     => new σ
  | some src => ofData σ src

def Stream.create : Option (List Byte) → Stream
  | none     => { cursor := ∅, endianness := .small }
  | some src => { cursor := Cursor.write ∅ src, endianness := .small }

theorem malloc_length (hh : σ.heap.Total) (n : Nat) : (malloc σ n).length = n := by
  have ⟨_, h⟩ := Option.isSome_iff_exists.mp <| hh 0
  simp [malloc, h]

theorem create_represents (hh : σ.heap.Total) {init : Option (List Byte)}
    (hi : ∀ src ∈ init, src.length < 2 ^ 32) :
    ∃ b, create σ init = some b ∧ b.Represents (Stream.create init) := by
  cases init
  case none =>
    refine ⟨_, rfl, ⟨malloc_length hh _, ?_, ?_, ?_⟩, ?_, rfl, rfl⟩ <;>
      simp [new, Stream.create, GROW_SIZE, contents]
  case some src =>
    have r : Represents ⟨0, 0, src.length, malloc σ src.length, .small, 1⟩ ⟨∅, .small⟩ :=
      ⟨⟨malloc_length hh _, hi _ rfl, Nat.zero_le _, Nat.zero_le _⟩, rfl, rfl, rfl⟩
    obtain ⟨b, h, r'⟩ := writeData_refines (w := src) r hh fun hl => absurd hl (by simp)
    exact ⟨b, by simp [create, ofData, h], r'⟩

-- The outputs of a buffer are those of the stream. In particular they do not depend on its capacity
-- or on the values of the bytes that the allocator returns.
theorem run_refines_stream (σ : Platform) (hh : σ.heap.Total) (init : Option (List Byte))
    (hi : ∀ src ∈ init, src.length < 2 ^ 32) :
    ∃ b, create σ init = some b ∧ ∀ ops, (exec σ).Along Op.NoWrap b ops →
      ∃ b', (exec σ).run ops b =
        some (((Stream.exec σ.endianness).run ops (Stream.create init)).1, b') :=
  have ⟨b, hb, r⟩ := create_represents hh hi
  ⟨b, hb, fun _ a => have ⟨b', h, _⟩ := Machine.Refines.run (exec_refines hh) r a; ⟨b', h⟩⟩

theorem run_refines_stream_three_bytes :
    ∃ b, create (.windows <| .filled 0xCD) (some [1, 2, 3]) = some b ∧
      ∃ b', (exec <| .windows <| .filled 0xCD).run [.seek 1, .writeU16 0x0504, .seek 0, .readU32] b =
        some ([.unit, .unit, .unit, .u32 0x00050401], b') := by
  have ⟨b, hb, h⟩ :=
    run_refines_stream (.windows <| .filled 0xCD) (Heap.filled_total _) (some [1, 2, 3]) (by simp)
  refine ⟨b, hb, h [.seek 1, .writeU16 0x0504, .seek 0, .readU32] ?_⟩
  cases hb
  refine ⟨trivial, fun _ _ e => ?_⟩
  cases e
  refine ⟨by simp [Op.NoWrap, FitsEach, GROW_SIZE, advance, sizeT], fun _ _ _ => ?_⟩
  exact ⟨trivial, fun _ _ _ => ⟨trivial, fun _ _ _ => trivial⟩⟩

end AgBuffer
