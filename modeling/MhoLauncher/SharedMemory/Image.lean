import MhoLauncher.SharedMemory.Records

open AgBuffer Bytes

namespace TenProxyTclsSharedMeMemory

section Tables

variable {heap : Heap} {b : AgBuffer} {s : Stream} {l : Layout Part Byte} {offset : Part → DWord} {i : Nat}

-- Overwriting double words does not grow the block.
theorem forM_writeU32_refines {v : List DWord} (hh : heap.Total) (r : b.Represents s)
    (he : s.endianness = .small) (h : s.cursor.pos + 4 * v.length ≤ s.cursor.items.length) :
    ∃ b', forM v (writeU32 <| .windows heap) b = some ((), b') ∧
      b'.Represents (s.write <| v.flatMap <| toLE 4) := by
  induction v generalizing b s
  case nil => exact ⟨b, rfl, by simpa [Stream.write] using r⟩
  case cons u v hi =>
    have hf : b.FitsEach (toLE 4 u).length := by
      have := r.capacity.real_lt
      have := r.capacity.virtual_le
      rw [r.pos, r.length, List.length_cons] at h
      simp only [FitsEach, toLE_length, GROW_SIZE]
      omega
    obtain ⟨b₁, h₁, r₁⟩ := forM_writeU8_refines (σ := .windows heap) r hh hf
    have hl : (s.write <| toLE 4 u).cursor.pos + 4 * v.length ≤
      (s.write <| toLE 4 u).cursor.items.length := by
      simp only [Stream.write, Cursor.write_pos, Cursor.write_items_length, toLE_length,
        List.length_cons] at h ⊢
      omega
    obtain ⟨b₂, h₂, r₂⟩ := hi r₁ he hl
    refine ⟨b₂, ?_, ?_⟩
    · rw [List.forM_cons, M.bind_apply, writeU32_eq, ←r.endianness, he]
      exact Option.bind_eq_some_iff.mpr ⟨_, h₁, h₂⟩
    · rwa [Stream.write, Stream.write, Cursor.write_append] at r₂

-- Filling in a table replaces the bytes of a part.
theorem fill_refines {f : Part → List Byte} {parts : List Part} {k : Part} {v : List DWord} (hh : heap.Total)
    (r : b.Represents s) (he : s.endianness = .small) (hi : s.cursor.items = (Layout.build f parts).items)
    (hk : k ∈ parts) (hn : parts.Nodup) (hl : (f k).length = 4 * v.length) :
    ∃ b₁ b₂ s', seek ((Layout.build f parts).offset k) b = some ((), b₁) ∧
      forM v (writeU32 <| .windows heap) b₁ = some ((), b₂) ∧ b₂.Represents s' ∧ s'.endianness = .small ∧
      s'.cursor.items = (Layout.build (Function.update f k <| v.flatMap <| toLE 4) parts).items := by
  have hm : (k, f k) ∈ Layout.build f parts := Layout.mem_build.mpr ⟨hk, rfl⟩
  have hn : (Layout.build f parts).keys.Nodup := by simpa
  have := Layout.offset_add_length_le hm hn
  have ⟨b₁, h₁, r₁⟩ := seek_refines r <| (Layout.build f parts).offset k
  have ⟨b₂, h₂, r₂⟩ := forM_writeU32_refines (v := v) hh r₁ he <| by
    rw [Cursor.seek_pos, Cursor.seek_items, hi]
    omega
  refine ⟨b₁, b₂, _, h₁, h₂, r₂, he, ?_⟩
  rw [←Layout.replace_build, Layout.items_replace hm hn (by rw [flatMap_toLE_length, hl]), Stream.write,
    Cursor.write_items, Cursor.seek_pos, Cursor.seek_items, hi, Nat.min_eq_left (by omega)]

theorem offsetTable_var (h : .var i ∈ order) : (offsetTable offset)[i]? = some (offset <| .var i) := by
  simp only [order, List.mem_cons, Part.var.injEq, reduceCtorEq, List.not_mem_nil, or_false, false_or] at h
  rcases h with rfl | rfl | rfl | rfl | rfl | rfl | rfl | rfl | rfl | rfl | rfl | rfl | rfl | rfl |
    rfl | rfl | rfl | rfl | rfl | rfl | rfl | rfl | rfl | rfl | rfl | rfl | rfl | rfl | rfl <;> rfl

theorem offsetTable_zero (h₁ : 1 ≤ i) (h₂ : i ≤ 64) (h : i ≠ 20) (hn : .var i ∉ order) :
    (offsetTable offset)[i]? = some 0 := by
  interval_cases i <;> first | rfl | exact absurd rfl h | exact absurd (by decide) hn

theorem var20OffsetTable_sub (h : .sub i ∈ order) :
    (var20OffsetTable offset)[i - 1]? = some (offset <| .sub i) := by
  simp only [order, List.mem_cons, Part.sub.injEq, reduceCtorEq, List.not_mem_nil, or_false, false_or] at h
  rcases h with rfl | rfl | rfl | rfl | rfl | rfl | rfl | rfl | rfl <;> rfl

theorem var20OffsetTable_zero (h₁ : 10 ≤ i) (h₂ : i ≤ 16) :
    (var20OffsetTable offset)[i]? = some 0 := by
  interval_cases i <;> rfl

theorem offsetTable_congr {offset' : Part → DWord} (h : ∀ k ∈ order, offset k = offset' k) :
    offsetTable offset = offsetTable offset' ∧ var20OffsetTable offset = var20OffsetTable offset' := by
  simp only [order, List.forall_mem_cons] at h
  simp [offsetTable, var20OffsetTable, h]

end Tables

section Consistent

variable (getUtf16 : List Byte → List Word) (t : TenProxyTclsSharedMeMemory) (image : List Byte)

-- The double word at an offset.
def dwordAt (offset : Nat) : DWord :=
  ofLE 32 <| image.drop offset |>.take 4

-- Where the tables say that a part starts.
def start : Part → Nat
  | .table    => 0
  | .var i    => (dwordAt image (4 * i)).toNat
  | .subTable => (dwordAt image (4 * 20)).toNat
  | .sub i    => (dwordAt image ((dwordAt image (4 * 20)).toNat + 4 * (i - 1))).toNat

-- The number of bytes of a part. The one of a record follows from the length it starts with.
def extent : Part → Nat
  | .table    => 4 * (1 + OFFSET_TABLE_SIZE)
  | .subTable => 4 * VAR_20_OFFSET_TABLE_SIZE
  | k         => 4 + (dwordAt image (start image k)).toNat

-- At the offset there is a length, followed by that many bytes.
structure RecordAt (offset : Nat) (w : List Byte) : Prop where
  length : (dwordAt image offset).toNat = w.length
  inside : offset + 4 + w.length ≤ image.length
  bytes  : (image.drop <| offset + 4).take w.length = w

structure Consistent : Prop where
  size      : dwordAt image 0 = 64
  entry     : ∀ i, 1 ≤ i → i ≤ 64 → i ≠ 20 →
    if .var i ∈ order then
      dwordAt image (4 * i) ≠ 0 ∧ RecordAt image (start image <| .var i) (payload getUtf16 t <| .var i)
    else
      dwordAt image (4 * i) = 0
  subSize   : dwordAt image (start image .subTable) = dwordAt image (4 * 20) + 4
  subEntry  : ∀ i, 1 ≤ i → i ≤ 9 →
    RecordAt image (start image <| .sub <| i + 1) (payload getUtf16 t <| .sub <| i + 1)
  subRest   : ∀ i, 10 ≤ i → i ≤ 16 → dwordAt image (start image .subTable + 4 * i) = 0
  inside    : ∀ k ∈ order, start image k + extent image k ≤ image.length
  partition : ∀ x < image.length, ∃! k, k ∈ order ∧ start image k ≤ x ∧ x < start image k + extent image k

end Consistent

section Filled

variable (getUtf16 : List Byte → List Word) (t : TenProxyTclsSharedMeMemory)

def position (k : Part) : DWord :=
  BitVec.ofNat 32 <| (layout getUtf16 t order).offset k

-- The bytes of a part at the end.
def filled : Part → List Byte
  | .table    => (offsetTable <| position getUtf16 t).flatMap <| toLE 4
  | .subTable => (var20OffsetTable <| position getUtf16 t).flatMap <| toLE 4
  | k         => reserved getUtf16 t k

def image : List Byte :=
  Layout.build (filled getUtf16 t) order |>.items

variable {getUtf16 t} {k : Part}

theorem filled_eq_update :
    filled getUtf16 t =
    Function.update (Function.update (reserved getUtf16 t) .subTable (filled getUtf16 t .subTable)) .table
      (filled getUtf16 t .table) := by
  funext k
  cases k <;> rfl

theorem filled_length : (filled getUtf16 t k).length = (reserved getUtf16 t k).length := by
  cases k <;> simp only [filled, reserved, flatMap_toLE_length, List.length_replicate] <;> rfl

theorem filled_offset :
    (Layout.build (filled getUtf16 t) order).offset = (layout getUtf16 t order).offset :=
  Layout.offset_build_congr fun _ => filled_length

theorem image_length : (image getUtf16 t).length = imageSize getUtf16 t :=
  Layout.items_build_length_congr fun _ => filled_length

theorem position_toNat (hs : imageSize getUtf16 t < 2 ^ 31) (hk : k ∈ order) :
    (position getUtf16 t k).toNat = (layout getUtf16 t order).offset k := by
  have hm : (k, reserved getUtf16 t k) ∈ layout getUtf16 t order := Layout.mem_build.mpr ⟨hk, rfl⟩
  have := Layout.offset_add_length_le hm <| by simpa [layout] using order_nodup
  rw [imageSize] at hs
  exact Nat.mod_eq_of_lt (by omega)

theorem table_offset {f : Part → List Byte} : (Layout.build f order).offset .table = 0 :=
  rfl

theorem writeTables_refines {heap : Heap} {b : AgBuffer} {s : Stream} (hh : heap.Total)
    (r : b.Represents s) (he : s.endianness = .small) (hi : s.cursor.items = (layout getUtf16 t order).items)
    (hs : imageSize getUtf16 t < 2 ^ 31) :
    ∃ b' s', writeTables (.windows heap) (position getUtf16 t) b = some ((), b') ∧
      b'.Represents s' ∧ s'.cursor.items = image getUtf16 t := by
  have hl₁ : (reserved getUtf16 t .subTable).length = 4 * (var20OffsetTable <| position getUtf16 t).length :=
    filled_length.symm.trans <| flatMap_toLE_length ..
  have hl₂ : (reserved getUtf16 t .table).length = 4 * (offsetTable <| position getUtf16 t).length :=
    filled_length.symm.trans <| flatMap_toLE_length ..
  have ⟨b₁, b₂, s₂, h₁, h₂, r₂, he₂, hi₂⟩ := fill_refines
    (v := var20OffsetTable <| position getUtf16 t) hh r he hi (by decide) order_nodup hl₁
  have ⟨b₃, b₄, s₄, h₃, h₄, r₄, _, hi₄⟩ := fill_refines (k := .table)
    (v := offsetTable <| position getUtf16 t) hh r₂ he₂ hi₂ (by decide) order_nodup <| by
    rwa [Function.update_of_ne (by decide)]
  refine ⟨b₄, s₄, ?_, r₄, ?_⟩
  · rw [←layout, ←position_toNat hs (by decide)] at h₁
    rw [table_offset, ←table_offset (f := reserved getUtf16 t), ←layout, ←position_toNat hs (by decide)] at h₃
    exact M.seq_apply h₁ <| M.seq_apply h₂ <| M.seq_apply h₃ h₄
  · rw [hi₄, image, filled_eq_update]
    rfl

theorem writeTables_congr {σ : Platform} {offset offset' : Part → DWord}
    (h : ∀ k ∈ order, offset k = offset' k) :
    writeTables σ offset = writeTables σ offset' := by
  have ⟨h₁, h₂⟩ := offsetTable_congr h
  rw [writeTables, writeTables, h₁, h₂, h .table (by decide), h .subTable (by decide)]

theorem new_atEnd {heap : Heap} (hh : heap.Total) : AtEnd (new <| .windows heap) [] 0 where
  represents := by
    have ⟨_, h, r⟩ := create_represents (σ := .windows heap) hh
      (by simp : ∀ src ∈ (none : Option (List Byte)), _)
    cases h
    exact r
  realLength := le_rfl

theorem writeImage_eq {heap : Heap} (hh : heap.Total) (hs : imageSize getUtf16 t < 2 ^ 31)
    (dst : Dst) (dstLen : Nat) (offsets : Offsets) :
    ∃ o b, writeImage (.windows heap) getUtf16 t dst dstLen offsets (new <| .windows heap) =
      some (((if dstLen < (image getUtf16 t).length then dst else Stream.copy (image getUtf16 t) dst,
        (image getUtf16 t).length), o), b) ∧ b.contents = image getUtf16 t := by
  have hl : ([] ++ (layout getUtf16 t order).items).length < 2 ^ 31 :=
    lt_of_eq_of_lt (congrArg _ <| List.nil_append _) hs
  have ⟨o, b₁, h₁, a₁, ho, _⟩ := writeRecords_lays getUtf16 t hh (o := offsets) (new_atEnd hh) hl (by decide)
  have hi : (Cursor.atEnd <| [] ++ (layout getUtf16 t order).items).items = (layout getUtf16 t order).items :=
    List.nil_append _
  have ⟨b₂, s, h₂, r₂, hi₂⟩ := writeTables_refines hh a₁.represents rfl hi hs
  have hc : writeTables (.windows heap) (BitVec.ofNat 32 <| o ·) =
      writeTables (.windows heap) (position getUtf16 t) :=
    writeTables_congr fun k hk => by rw [ho k hk, List.length_nil, Nat.zero_add, position]
  have ht : writeTables (.windows heap) (BitVec.ofNat 32 <| o ·) b₁ = some ((), b₂) :=
    (congrFun hc b₁).trans h₂
  have hn : getLength b₂ = some ((image getUtf16 t).length, b₂) := by simp [getLength, ←r₂.length, hi₂]
  have hw : 0 + (image getUtf16 t).length < 2 ^ 32 :=
    lt_of_eq_of_lt (Nat.zero_add _ |>.trans image_length) <| hs.trans (by decide)
  have hc : s.cursor.slice 0 (image getUtf16 t).length = some (image getUtf16 t) := by
    simp [Cursor.slice, hi₂]
  have hg : getData 0 (image getUtf16 t).length dst dstLen b₂ =
      some (if dstLen < (image getUtf16 t).length then dst else Stream.copy (image getUtf16 t) dst, b₂) :=
    hc ▸ getData_refines r₂ dst hw
  refine ⟨o, b₂, ?_, r₂.items.symm.trans hi₂⟩
  exact W.bind_eq h₁ <| W.bind_eq rfl <| W.bind_eq (W.lift_eq ht) <| W.bind_eq (W.lift_eq hn) <|
    W.bind_eq (W.lift_eq hg) <| W.bind_eq (W.lift_eq hn) rfl

theorem write_eq {heap : Heap} {offsets : Offsets} {old : List Byte} {dstLen : Nat} (hh : heap.Total)
    (hs : imageSize getUtf16 t < 2 ^ 31) (hd : imageSize getUtf16 t ≤ dstLen) :
    write (.windows heap) getUtf16 t (some old) dstLen offsets =
    some (some (image getUtf16 t ++ old.drop (image getUtf16 t).length), (image getUtf16 t).length) := by
  have ⟨_, _, h, _⟩ := writeImage_eq hh hs (some old) dstLen offsets
  rw [if_neg <| Nat.not_lt.mpr <| image_length.trans_le hd] at h
  rw [write, h]
  rfl

end Filled

section Entries

variable {getUtf16 : List Byte → List Word} {t : TenProxyTclsSharedMeMemory} {k : Part} {i : Nat} {v : DWord}

theorem filled_nodup : (Layout.build (filled getUtf16 t) order).keys.Nodup := by
  simpa using order_nodup

theorem dwordAt_part {vs : List DWord} (hk : k ∈ order) (hf : filled getUtf16 t k = vs.flatMap (toLE 4))
    (h : vs[i]? = some v) : dwordAt (image getUtf16 t) ((layout getUtf16 t order).offset k + 4 * i) = v := by
  have ⟨hi, _⟩ := List.getElem?_eq_some_iff.mp h
  have hm := Layout.mem_build.mpr ⟨hk, hf⟩
  have hl : 4 * i + 4 ≤ (vs.flatMap <| toLE 4).length := by rw [flatMap_toLE_length]; omega
  rw [dwordAt, image, ←filled_offset, Layout.slice hm filled_nodup hl, flatMap_toLE_slice h]
  exact ofLE_toLE v (by simp)

theorem dwordAt_table (h : (offsetTable <| position getUtf16 t)[i]? = some v) :
    dwordAt (image getUtf16 t) (4 * i) = v := by
  have := dwordAt_part (k := .table) (by decide) rfl h
  rwa [layout, table_offset, Nat.zero_add] at this

theorem start_subTable (hs : imageSize getUtf16 t < 2 ^ 31) :
    start (image getUtf16 t) .subTable = (layout getUtf16 t order).offset .subTable := by
  rw [start, dwordAt_table (i := 20) rfl, position_toNat hs (by decide)]

theorem dwordAt_subTable (hs : imageSize getUtf16 t < 2 ^ 31)
    (h : (var20OffsetTable <| position getUtf16 t)[i]? = some v) :
    dwordAt (image getUtf16 t) (start (image getUtf16 t) .subTable + 4 * i) = v := by
  rw [start_subTable hs]
  exact dwordAt_part (by decide) rfl h

theorem start_eq (hs : imageSize getUtf16 t < 2 ^ 31) (hk : k ∈ order) :
    start (image getUtf16 t) k = (layout getUtf16 t order).offset k := by
  cases k
  case table => rfl
  case var i => rw [start, dwordAt_table <| offsetTable_var hk, position_toNat hs hk]
  case subTable => exact start_subTable hs
  case sub i =>
    have h := dwordAt_subTable hs <| var20OffsetTable_sub hk
    exact (congrArg BitVec.toNat h).trans <| position_toNat hs hk

-- A record starts with the length of the bytes that follow.
theorem recordAt {w : List Byte} (hs : imageSize getUtf16 t < 2 ^ 31) (hk : k ∈ order)
    (hf : filled getUtf16 t k = lengthPrefixed w) :
    RecordAt (image getUtf16 t) ((layout getUtf16 t order).offset k) w := by
  have hm := Layout.mem_build.mpr ⟨hk, hf⟩
  have hl := Layout.offset_add_length_le hm filled_nodup
  have hw : (lengthPrefixed w).length = 4 + w.length := by simp [lengthPrefixed]
  rw [filled_offset, hw, ←image] at hl
  constructor
  case length =>
    have h := Layout.slice (i := 0) (n := 4) hm filled_nodup (by omega)
    rw [filled_offset, ←image] at h
    have hd : dwordAt (image getUtf16 t) ((layout getUtf16 t order).offset k) = BitVec.ofNat 32 w.length :=
      (congrArg (ofLE 32) h).trans <| ofLE_toLE (n := 4) _ (by simp)
    rw [image_length] at hl
    rw [hd]
    exact Nat.mod_eq_of_lt (by omega)
  case inside => omega
  case bytes =>
    have h := Layout.slice (i := 4) (n := w.length) hm filled_nodup (by omega)
    rw [filled_offset, ←image] at h
    exact h.trans <| List.take_length

theorem recordAt_start {w : List Byte} (hs : imageSize getUtf16 t < 2 ^ 31) (hk : k ∈ order)
    (hf : filled getUtf16 t k = lengthPrefixed w) :
    RecordAt (image getUtf16 t) (start (image getUtf16 t) k) w :=
  start_eq hs hk ▸ recordAt hs hk hf

theorem extent_eq (hs : imageSize getUtf16 t < 2 ^ 31) (hk : k ∈ order) :
    extent (image getUtf16 t) k = (filled getUtf16 t k).length := by
  cases k
  case table    => rw [filled, flatMap_toLE_length]; rfl
  case subTable => rw [filled, flatMap_toLE_length]; rfl
  all_goals
    have h := (recordAt_start hs hk rfl).length
    simp [extent, h, filled, reserved, lengthPrefixed]

theorem start_ne_zero (hs : imageSize getUtf16 t < 2 ^ 31) (hk : k ∈ order) (hn : k ≠ .table) :
    start (image getUtf16 t) k ≠ 0 := by
  rw [start_eq hs hk, layout, order, Layout.build, List.map_cons, Layout.offset, if_neg hn.symm]
  have hl : 0 < (reserved getUtf16 t .table).length := by rw [reserved, List.length_replicate]; decide
  exact Nat.ne_of_gt <| Nat.add_pos_left hl _

theorem image_consistent (hs : imageSize getUtf16 t < 2 ^ 31) : Consistent getUtf16 t (image getUtf16 t) where
  size := dwordAt_table (i := 0) rfl
  entry i h₁ h₂ h₃ := by
    by_cases hk : .var i ∈ order
    case pos =>
      have hz := start_ne_zero hs hk (by simp)
      exact if_pos hk ▸ ⟨fun h => hz (congrArg BitVec.toNat h), recordAt_start hs hk rfl⟩
    case neg => exact if_neg hk ▸ dwordAt_table (offsetTable_zero h₁ h₂ h₃ hk)
  subSize := by
    have h := dwordAt_subTable (i := 0) hs rfl
    rw [dwordAt_table (i := 20) rfl]
    exact h
  subEntry i h₁ h₂ := recordAt_start hs (by interval_cases i <;> decide) rfl
  subRest i h₁ h₂ := dwordAt_subTable hs <| var20OffsetTable_zero h₁ h₂
  inside k hk := by
    rw [start_eq hs hk, extent_eq hs hk, ←filled_offset]
    exact Layout.offset_add_length_le (Layout.mem_build.mpr ⟨hk, rfl⟩) filled_nodup
  partition x hx := by
    have ⟨k, ⟨hk, hl⟩, hu⟩ := Layout.existsUnique_build hx order_nodup
    rw [filled_offset, ←start_eq hs hk, ←extent_eq hs hk] at hl
    refine ⟨k, ⟨hk, hl⟩, fun k' ⟨hk', hl'⟩ => hu k' ⟨hk', ?_⟩⟩
    rwa [filled_offset, ←start_eq hs hk', ←extent_eq hs hk']

end Entries

-- Whatever the fields contain, the copied bytes are a consistent image.
theorem write_consistent (heap : Heap) (hh : heap.Total) (getUtf16 : List Byte → List Word)
    (t : TenProxyTclsSharedMeMemory) (offsets : Offsets) (old : List Byte) (dstLen : Nat)
    (hs : imageSize getUtf16 t < 2 ^ 31) (hd : imageSize getUtf16 t ≤ dstLen) :
    ∃ image, Consistent getUtf16 t image ∧ image.length = imageSize getUtf16 t ∧
      write (.windows heap) getUtf16 t (some old) dstLen offsets =
      some (some (image ++ old.drop image.length), image.length) :=
  ⟨image getUtf16 t, image_consistent hs, image_length, write_eq hh hs hd⟩

-- A configuration in which all characters are from the ASCII range.
def localhost : TenProxyTclsSharedMeMemory where
  connection       := [0x31, 0x32, 0x37, 0x2E, 0x30, 0x2E, 0x30, 0x2E, 0x31, 0x3A, 0x38, 0x31, 0x34, 0x32]
  ip               := [0x31, 0x32, 0x37, 0x2E, 0x30, 0x2E, 0x30, 0x2E, 0x31]
  tclsClientExe    := []
  var33            := [0x31]
  var19            := [0x32, 0x33]
  var20V5          := []
  var20V9          := [0x2D, 0x73, 0x3A, 0x33]
  var15            := [0x34]
  aesKey           := List.replicate 16 1
  var60            := List.replicate 16 0
  qqSigInfoUnified := List.replicate 96 0
  var27            := List.replicate 72 0
  var25            := List.replicate 16 0
  qqUin            := 1235

theorem write_consistent_localhost :
    ∃ image, Consistent (·.map (·.setWidth 16)) localhost image ∧ image.length = 819 ∧
      write (.windows <| .filled 0xCD) (·.map (·.setWidth 16)) localhost
        (some <| List.replicate 1024 0) 1024 (fun _ => 0) =
      some (some (image ++ List.replicate 205 0), image.length) := by
  have hs : imageSize (·.map (·.setWidth 16)) localhost = 819 := by decide +kernel
  have ⟨image, hc, hl, hw⟩ := write_consistent (.filled 0xCD) (Heap.filled_total _) (·.map (·.setWidth 16))
    localhost (fun _ => 0) (List.replicate 1024 0) 1024 (by rw [hs]; decide) (by rw [hs]; decide)
  refine ⟨image, hc, hl.trans hs, hw.trans ?_⟩
  rw [List.drop_replicate, hl, hs]

end TenProxyTclsSharedMeMemory
