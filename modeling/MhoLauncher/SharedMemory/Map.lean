import MhoLauncher.AgBuffer.BlockReads
import MhoLauncher.SharedMemory.HexDump
import MhoLauncher.SharedMemory.Image

open AgBuffer Bytes HexDump

namespace TenProxyTclsSharedMeMemory

-- The view that `map_memory` returns is `mapped`, which is a null pointer if there is none.
def map (σ : Platform) (getUtf16 : List Byte → List Word) (t : TenProxyTclsSharedMeMemory) (mapped : Dst)
    (offsets : Offsets) : Option (List Row) := do
  let (dst, written) ← write σ getUtf16 t mapped 0xF001F offsets
  showBytes (dst.getD []) (BitVec.ofNat 32 written).toInt

-- The returned number `n` of bytes have been copied, so showing them reads nothing else.
structure Reported (image : List Byte) (dstLen : Nat) (dst : Dst) (n : Nat) : Prop where
  le_dstLen  : n ≤ dstLen
  dst_isSome : 0 < n → dst.isSome
  copied     : ∀ bytes ∈ dst, bytes.take n = image.take n
  shown      : (showBytes ((dst.getD []).take n) (BitVec.ofNat 32 n).toInt).isSome

variable {σ : Platform} {getUtf16 : List Byte → List Word} {t : TenProxyTclsSharedMeMemory}
    {I : AgBuffer → Prop}
variable {b b' : AgBuffer} {o o' : Offsets} {dst dst' : Dst} {dstLen n : Nat}

-- Some bytes have been written.
structure Started (b : AgBuffer) : Prop where
  extent     : b.Extent
  virtual_lt : 0 < b.virtualLength

theorem Started.kept (σ : Platform) : Kept σ Started where
  write {w} hw b _ _ h he := by
    have s := h.extent.block.stored_of_writeBlock hw he
    have := h.virtual_lt
    exact ⟨s.extent hw h.extent, by rw [s.virtualLength, if_neg hw]; omega⟩
  move hp h := ⟨(Extent.kept σ).move hp h.extent, h.virtual_lt⟩
  order h   := ⟨(Extent.kept σ).order h.extent, h.virtual_lt⟩

def W.Keeps (I : AgBuffer → Prop) (p : W α) : Prop :=
  ∀ o, Preserves I (p o)

namespace W.Keeps

theorem bind {p : W α} {q : α → W β} (hp : Keeps I p) (hq : ∀ a, Keeps I (q a)) : Keeps I (p >>= q) :=
  fun o => .bind (hp o) fun r => hq r.1 r.2

theorem record {part : Part} {body : AgBuffer.M Unit} (h : Preserves I body) :
    Keeps I (record part body) := by
  intro o b _ b' hb he
  have ⟨_, hp, he⟩ := Option.bind_eq_some_iff.mp (record_apply.symm.trans he)
  cases he
  exact h _ _ _ hb hp

end W.Keeps

section Writes

theorem preserves_writeDataRecord (k : Kept σ I) (data : List Byte) : Preserves I (writeDataRecord σ data) :=
  .bind (k.writeU32 _) fun _ => k.writeData _

theorem preserves_writeWideRecord (k : Kept σ I) (s : List Byte) :
    Preserves I (writeWideRecord σ getUtf16 s) :=
  .bind (k.writeU32 _) fun _ => k.writeWstring _

theorem preserves_writeTables (k : Kept σ I) (offset : Part → DWord) : Preserves I (writeTables σ offset) :=
  .bind k.seek fun _ => .bind (.forM fun _ _ => k.writeU32 _) fun _ => .bind k.seek fun _ =>
    .forM fun _ _ => k.writeU32 _

theorem started_of_writeU32 {v : DWord} (h : b.Extent) (he : writeU32 σ v b = some ((), b')) :
    Started b' := by
  have s := h.block.stored_of_forM <| (writeU32_eq v).symm.trans he
  have hw : toLE 4 (swapEndianness32 σ v b.endianness) ≠ [] :=
    List.ne_nil_of_length_eq_add_one <| toLE_length ..
  refine ⟨s.extent hw h, ?_⟩
  rw [s.virtualLength, if_neg hw, toLE_length]
  omega

theorem started_of_writeRecords (h : b.Extent) (he : writeRecords σ getUtf16 t o b = some (((), o'), b')) :
    Started b' := by
  have k := Started.kept σ
  rw [writeRecords, W.bind_apply, Option.bind_eq_some_iff] at he
  have ⟨⟨⟨_, o₁⟩, b₁⟩, h₁, h₂⟩ := he
  have hs : Started b₁ := by
    have ⟨_, hp, he⟩ := Option.bind_eq_some_iff.mp (record_apply.symm.trans h₁)
    cases he
    have ⟨_, hu, hr⟩ := Option.bind_eq_some_iff.mp hp
    exact k.writeRepeat _ _ _ _ _ (started_of_writeU32 h hu) hr
  refine (?_ : W.Keeps Started _) o₁ b₁ _ _ hs h₂
  repeat' with_reducible first
    | apply W.Keeps.bind
    | apply W.Keeps.record
    | intro _
    | apply Preserves.bind
    | exact k.writeU32 _
    | exact k.writeU16 _
    | exact k.writeU8 _
    | exact k.writeRepeat _ _
    | exact k.writeString _
    | exact preserves_writeDataRecord k _
    | exact preserves_writeWideRecord k _

theorem W.lift_apply {p : AgBuffer.M α} : (p : W α) o b = (p b).bind fun r => some ((r.1, o), r.2) :=
  rfl

-- The last steps of `write` copy the image and return its length.
theorem writeImage_cases {r : Dst × Nat} (h : b.Extent)
    (he : writeImage σ getUtf16 t dst dstLen o b = some ((r, o'), b')) :
    Started b' ∧ getData 0 b'.virtualLength dst dstLen b' = some (r.1, b') ∧ r.2 = b'.virtualLength := by
  simp only [writeImage, W.bind_apply, W.lift_apply, Option.bind_eq_some_iff, Option.some.injEq,
    Prod.exists] at he
  obtain ⟨_, _, b₁, h₁, _, _, _, hg, _, _, _, ⟨_, _, ht, hc⟩, he⟩ := he
  cases hg
  cases hc
  obtain ⟨_, _, _, ⟨_, _, hl, hc⟩, he⟩ := he
  cases hl
  cases hc
  obtain ⟨_, _, _, ⟨_, _, hd, hc⟩, he⟩ := he
  cases hc
  obtain ⟨_, _, _, ⟨_, _, hl, hc⟩, he⟩ := he
  cases hl
  cases hc
  cases he
  cases getData_preserves hd
  have hs := preserves_writeTables (Started.kept σ) _ _ _ _ (started_of_writeRecords h h₁) ht
  exact ⟨hs, hd, rfl⟩

end Writes

theorem contents_length (h : b.Extent) : b.contents.length = b.virtualLength := by
  have := h.virtual_le
  simp [contents]
  omega

theorem getData_all (h : b.Extent) :
    getData 0 b.virtualLength dst dstLen b =
    some (if dstLen < b.contents.length then dst else Stream.copy b.contents dst, b) := by
  have := h.virtual_le
  have := h.block.length_le
  have := h.block.real_lt
  have hs : sizeT b.virtualLength = b.virtualLength := sizeT_eq <| by omega
  have hl : b.load 0 b.virtualLength = some b.contents := if_pos (by omega)
  rw [contents_length h]
  cases dst
  case none     => simp [getData, Stream.copy]
  case some old =>
    by_cases hd : dstLen < b.virtualLength <;> simp [getData, hs, hl, hd, Stream.copy, contents_length h]

theorem reported_iff (h : Started b) (he : getData 0 b.virtualLength dst dstLen b = some (dst', b)) :
    Reported b.contents dstLen dst' b.virtualLength ↔ dst.isSome ∧ b.contents.length ≤ dstLen := by
  have hl := contents_length h.extent
  have := h.virtual_lt
  rw [getData_all h.extent] at he
  constructor
  case mp =>
    intro r
    rw [if_neg (by have := r.le_dstLen; omega)] at he
    cases he
    have hd := r.dst_isSome h.virtual_lt
    refine ⟨?_, by have := r.le_dstLen; omega⟩
    cases dst
    case none   => exact hd
    case some _ => rfl
  case mpr =>
    intro ⟨hd, hn⟩
    have ⟨old, hd⟩ := Option.isSome_iff_exists.mp hd
    rw [if_neg (Nat.not_lt.mpr hn), hd] at he
    cases he
    have ht : (b.contents ++ old.drop b.contents.length).take b.virtualLength = b.contents :=
      List.take_left' hl
    constructor
    case le_dstLen  => exact hl ▸ hn
    case dst_isSome => exact fun _ => rfl
    case copied =>
      intro bytes hb
      cases hb
      rw [ht, List.take_of_length_le hl.le]
    case shown =>
      have hi : (BitVec.ofNat 32 b.virtualLength).toInt ≤ b.virtualLength := by
        rw [BitVec.toInt_eq_toNat_cond, BitVec.toNat_ofNat]
        split <;> omega
      have hc : (Stream.copy b.contents (some old)).getD [] = b.contents ++ old.drop b.contents.length := rfl
      rwa [hc, ht, showBytes_isSome_iff, hl]

-- What is returned is the length of the image, whether or not it has been copied.
theorem write_reported_iff (heap : Heap) (getUtf16 : List Byte → List Word) (t : TenProxyTclsSharedMeMemory)
    (dst : Dst) (dstLen : Nat) (offsets : Offsets) :
    (∀ r o b,
      writeImage (.windows heap) getUtf16 t dst dstLen offsets (new <| .windows heap) =
        some ((r, o), b) →
      (Reported b.contents dstLen r.1 r.2 ↔ dst.isSome ∧ b.contents.length ≤ dstLen)) ∧
    (heap.Total → imageSize getUtf16 t < 2 ^ 31 →
      ∃ r o b,
        writeImage (.windows heap) getUtf16 t dst dstLen offsets (new <| .windows heap) =
          some ((r, o), b) ∧
        b.contents = image getUtf16 t ∧
        (Reported (image getUtf16 t) dstLen r.1 r.2 ↔
          dst.isSome ∧ (image getUtf16 t).length ≤ dstLen)) := by
  have hn : Extent (new <| .windows heap) :=
    ⟨malloc_block (by simp [GROW_SIZE]), Nat.le_refl _, Nat.zero_le _⟩
  have hr {r o b} (h : writeImage (.windows heap) getUtf16 t dst dstLen offsets (new <| .windows heap) =
      some ((r, o), b)) : Reported b.contents dstLen r.1 r.2 ↔ dst.isSome ∧ b.contents.length ≤ dstLen := by
    obtain ⟨hs, hd, hl⟩ := writeImage_cases hn h
    exact hl ▸ reported_iff hs hd
  refine ⟨fun r o b h => hr h, fun hh hs => ?_⟩
  obtain ⟨o, b, h, hi⟩ := writeImage_eq hh hs dst dstLen offsets
  have hr := hr h
  rw [hi] at hr
  exact ⟨_, o, b, h, hi, hr⟩

-- If there is no view then 819 bytes are returned nevertheless, and `map` reads them from a null pointer.
theorem map_fails :
    (∃ o b, writeImage (.windows <| .filled 0xCD) (·.map (·.setWidth 16)) localhost none 0xF001F (fun _ => 0)
      (new <| .windows <| .filled 0xCD) = some (((none, 819), o), b) ∧
        ¬Reported b.contents 0xF001F none 819) ∧
    map (.windows <| .filled 0xCD) (·.map (·.setWidth 16)) localhost none (fun _ => 0) = none := by
  have hs : imageSize (·.map (·.setWidth 16)) localhost = 819 := by decide +kernel
  have hl : imageSize (·.map (·.setWidth 16)) localhost < 2 ^ 31 := hs ▸ by decide
  have ⟨o, b, h, _⟩ := writeImage_eq (Heap.filled_total 0xCD) hl none 0xF001F fun _ => 0
  rw [image_length, hs] at h
  constructor
  case left  => exact ⟨o, b, h, fun r => absurd (r.dst_isSome (by decide)) (by decide)⟩
  case right =>
    rw [map, write, h]
    rfl

end TenProxyTclsSharedMeMemory
