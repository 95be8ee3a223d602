import MhoLauncher.Library.Agrees
import MhoLauncher.AgBuffer.Available

open Bytes

namespace AgBuffer

-- The buffer of another run, where the bytes agree up to the largest length so far.
structure Shared (high : Nat) (b c : AgBuffer) : Prop where
  capacity    : b.Capacity
  frame       : c = { b with data := c.data }
  data_length : c.data.length = b.data.length
  high_le     : high ≤ b.realLength
  position_le : b.position ≤ max high b.virtualLength
  same        : ∀ i < max high b.virtualLength, c.data[i]? = b.data[i]?

variable {σ τ : Platform} {b c b' c' : AgBuffer} {high n i : Nat} {w : List Byte} {e : Endianness}

namespace Shared

theorem position (h : Shared high b c) : c.position = b.position := by
  rw [h.frame]

theorem virtualLength (h : Shared high b c) : c.virtualLength = b.virtualLength := by
  rw [h.frame]

theorem realLength (h : Shared high b c) : c.realLength = b.realLength := by
  rw [h.frame]

theorem endianness (h : Shared high b c) : c.endianness = b.endianness := by
  rw [h.frame]

theorem allocs (h : Shared high b c) : c.allocs = b.allocs := by
  rw [h.frame]

theorem capacity' (h : Shared high b c) : c.Capacity where
  data_length := by rw [h.data_length, h.realLength, h.capacity.data_length]
  real_lt     := h.realLength ▸ h.capacity.real_lt
  virtual_le  := h.realLength ▸ h.virtualLength ▸ h.capacity.virtual_le
  position_le := h.realLength ▸ h.position ▸ h.capacity.position_le

theorem moved (h : Shared high b c) {p : Nat} (hp : p ≤ b.virtualLength) :
    Shared high { b with position := p } { c with position := p } where
  capacity    := h.capacity.moved <| hp.trans h.capacity.virtual_le
  frame       := by rw [h.frame]
  data_length := h.data_length
  high_le     := h.high_le
  position_le := hp.trans <| Nat.le_max_right ..
  same        := h.same

theorem ordered (h : Shared high b c) :
    Shared high { b with endianness := e } { c with endianness := e } where
  capacity    := h.capacity.withEndianness
  frame       := by rw [h.frame]
  data_length := h.data_length
  high_le     := h.high_le
  position_le := h.position_le
  same        := h.same

end Shared

section Steps

variable (hσ : σ.heap.Total) (hτ : τ.heap.Total)

include hσ hτ

theorem Shared.room_iff (h : Shared high b c) : c.Room τ n ↔ b.Room σ n := by
  rw [Room, Room, h.data_length, h.position, h.realLength]
  simp only [hσ _, hτ _]

theorem agrees_writeBlock (hw : w ≠ []) : Agrees (Shared high) (writeBlock σ w) (writeBlock τ w) := by
  intro b c h
  by_cases hr : b.Room σ w.length
  case neg =>
    rw [h.capacity.block.writeBlock_fails hr, h.capacity'.block.writeBlock_fails <|
      (h.room_iff hσ hτ).not.mpr hr]
    exact .none
  case pos =>
    obtain ⟨b', hb, sb, fb⟩ := h.capacity.block.writeBlock hw hr
    obtain ⟨c', hc, sc, fc⟩ := h.capacity'.block.writeBlock hw <| (h.room_iff hσ hτ).mpr hr
    have := sb.length_le
    have := h.capacity.data_length
    have := h.capacity.virtual_le
    have := h.high_le
    have := h.position_le
    have hc' := (sb.capacity h.capacity hw).data_length
    have hf : c' = { b' with data := c'.data } := by
      ext1
      case position      => rw [sc.position, sb.position, h.position]
      case virtualLength => rw [sc.virtualLength, sb.virtualLength, h.virtualLength, h.position]
      case realLength    => rw [fc.realLength, fb.realLength, h.realLength, h.position]
      case data          => rfl
      case endianness    =>
        rw [writeBlock_endianness w c _ _ rfl hc, h.endianness, writeBlock_endianness w b _ _ rfl hb]
      case allocs        => rw [fc.allocs, fb.allocs, h.realLength, h.position, h.allocs]
    rw [hb, hc]
    refine .intro ⟨sb.capacity h.capacity hw, hf, ?_, by omega, ?_, fun i hi => ?_⟩
    · rw [fc.data_length, fb.data_length, h.data_length, hf, h.realLength, h.position]
    · rw [sb.position, sb.virtualLength, if_neg hw]
      omega
    · rw [sb.virtualLength, if_neg hw] at hi
      by_cases hp : b.position ≤ i ∧ i < b.position + w.length
      case pos =>
        have hl : i - b.position < w.length := by omega
        have hb := sb.written _ _ <| List.getElem?_eq_getElem hl
        have hc := sc.written _ _ <| List.getElem?_eq_getElem hl
        rw [h.position, Nat.add_sub_of_le hp.left] at hc
        rw [Nat.add_sub_of_le hp.left] at hb
        exact hc.trans hb.symm
      case neg =>
        rw [sb.others i (by omega) (by omega), ←h.same i (by omega)]
        exact sc.others i (by rw [h.data_length]; omega) (by rw [h.position]; omega)

end Steps

section Reads

theorem agrees_readU8 : Agrees (Shared high) readU8 readU8 := by
  intro b c h
  simp only [readU8, h.position, h.virtualLength]
  split
  case isTrue => exact .intro h
  case isFalse hp =>
    have hm : sizeT (b.position + 1) ≤ b.virtualLength := (Nat.mod_le _ _).trans <| by omega
    rw [h.same _ <| by omega]
    cases b.data[b.position]?
    case none   => exact .none
    case some v => exact .intro <| by simpa only [h.virtualLength] using h.moved hm

-- A load of bytes that a range check has allowed.
theorem Shared.load_eq (h : Shared high b c) (hr : sizeT (i + n) ≤ b.virtualLength) :
    c.load i n = b.load i n := by
  have := h.capacity.data_length
  have := h.capacity.real_lt
  rw [load, load, h.data_length]
  by_cases hl : i + n ≤ b.data.length
  case neg => rw [if_neg hl, if_neg hl]
  case pos =>
    rw [sizeT_eq <| by omega] at hr
    rw [if_pos hl, if_pos hl]
    refine congrArg some <| List.ext_getElem? fun k => ?_
    simp only [List.getElem?_take, List.getElem?_drop]
    split
    case isTrue  => exact h.same _ <| by omega
    case isFalse => rfl

theorem agrees_readData {dst : Dst} : Agrees (Shared high) (readData dst n) (readData dst n) := by
  intro b c h
  cases dst
  case none => exact .intro h
  case some old =>
    simp only [readData, h.position, h.virtualLength]
    split
    case isTrue => exact .intro h
    case isFalse =>
      split
      case isTrue => exact .intro h
      case isFalse hr =>
        have hr := Nat.le_of_not_lt hr
        rw [h.load_eq hr]
        cases b.load b.position n
        case none => exact .none
        case some => exact .intro <| by simpa only [h.virtualLength] using h.moved hr

theorem agrees_getData {off len : Nat} {dst : Dst} :
    Agrees (Shared high) (getData off n dst len) (getData off n dst len) := by
  intro b c h
  cases dst
  case none => exact .intro h
  case some old =>
    simp only [getData, h.virtualLength]
    split
    case isTrue => exact .intro h
    case isFalse =>
      split
      case isTrue => exact .intro h
      case isFalse hr =>
        split
        case isTrue => exact .intro h
        case isFalse =>
          rw [h.load_eq <| Nat.le_of_not_lt hr]
          cases b.load off n
          case none => exact .none
          case some => exact .intro h

theorem agrees_getAllData {len : Nat} {dst : Dst} :
    Agrees (Shared high) (getAllData dst len) (getAllData dst len) := by
  intro b c h
  have hl : c.load 0 b.virtualLength = b.load 0 b.virtualLength := h.load_eq <|
    (Nat.mod_le _ _).trans <| by omega
  simp only [getAllData, h.virtualLength, hl]
  split
  case isTrue => exact .intro h
  case isFalse =>
    split
    case isTrue => exact .intro h
    case isFalse =>
      cases dst
      case none => exact .intro h
      case some =>
        simp only
        cases b.load 0 b.virtualLength
        case none => exact .none
        case some => exact .intro h

theorem agrees_readString_loop (fuel : Nat) :
    Agrees (Shared high) (readString.loop fuel) (readString.loop fuel) := by
  induction fuel
  case zero => exact .failure
  case succ fuel hi =>
    refine .bind agrees_readU8 fun v => ?_
    split
    case isTrue  => exact .pure _
    case isFalse => exact .bind hi fun _ => .pure _

theorem agrees_readString : Agrees (Shared high) readString readString :=
  .bind_get fun _ _ h => by
    rw [h.position, h.virtualLength]
    exact agrees_readString_loop _

end Reads

section Operations

variable (he : τ.endianness = σ.endianness)

include he

theorem swapEndianness16_congr (x : Word) : swapEndianness16 τ x e = swapEndianness16 σ x e := by
  rw [swapEndianness16, swapEndianness16, he]

theorem swapEndianness32_congr (x : DWord) : swapEndianness32 τ x e = swapEndianness32 σ x e := by
  rw [swapEndianness32, swapEndianness32, he]

theorem agrees_readU16 : Agrees (Shared high) (readU16 σ) (readU16 τ) :=
  .bind agrees_readU8 fun _ => .bind agrees_readU8 fun _ => .bind_get fun _ _ h => by
    rw [h.endianness, swapEndianness16_congr he]
    exact .pure _

theorem agrees_readU32 : Agrees (Shared high) (readU32 σ) (readU32 τ) :=
  .bind agrees_readU8 fun _ => .bind agrees_readU8 fun _ => .bind agrees_readU8 fun _ =>
    .bind agrees_readU8 fun _ => .bind_get fun _ _ h => by
      rw [h.endianness, swapEndianness32_congr he]
      exact .pure _

variable (hσ : σ.heap.Total) (hτ : τ.heap.Total)

include hσ hτ

omit he in
theorem agrees_writeU8 (v : Byte) : Agrees (Shared high) (writeU8 σ v) (writeU8 τ v) :=
  agrees_writeBlock hσ hτ <| by simp

omit he in
theorem agrees_writeData (src : List Byte) : Agrees (Shared high) (writeData σ src) (writeData τ src) := by
  cases src
  case nil  => exact .pure _
  case cons => exact agrees_writeBlock hσ hτ <| by simp

theorem agrees_writeU16 (v : Word) : Agrees (Shared high) (writeU16 σ v) (writeU16 τ v) :=
  .bind_get fun _ _ h => by
    rw [h.endianness, swapEndianness16_congr he]
    exact .bind (agrees_writeU8 hσ hτ _) fun _ => agrees_writeU8 hσ hτ _

theorem agrees_writeU32 (v : DWord) : Agrees (Shared high) (writeU32 σ v) (writeU32 τ v) :=
  .bind_get fun _ _ h => by
    rw [h.endianness, swapEndianness32_congr he]
    exact .bind (agrees_writeU8 hσ hτ _) fun _ => .bind (agrees_writeU8 hσ hτ _) fun _ =>
      .bind (agrees_writeU8 hσ hτ _) fun _ => agrees_writeU8 hσ hτ _

theorem agrees_writeWchar (v : Word) : Agrees (Shared high) (writeWchar σ v) (writeWchar τ v) :=
  .bind_get fun _ _ h => by
    rw [h.endianness, swapEndianness16_congr he]
    exact agrees_writeU16 he hσ hτ _

theorem agrees_exec (o : Op) : Agrees (Shared high) (exec σ o) (exec τ o) := by
  cases o
  case writeU8       => exact .map <| agrees_writeU8 hσ hτ _
  case writeU16      => exact .map <| agrees_writeU16 he hσ hτ _
  case writeU32      => exact .map <| agrees_writeU32 he hσ hτ _
  case writeData     => exact .map <| agrees_writeData hσ hτ _
  case writeRepeat   => exact .map <| .forM fun _ _ => agrees_writeU8 hσ hτ _
  case writeString   =>
    exact .map <| .bind (.forM fun _ _ => agrees_writeU8 hσ hτ _) fun _ => agrees_writeU8 hσ hτ _
  case seek p        =>
    refine .map <| .modify fun {b c} h => ?_
    have hp : (if p.toNat > b.virtualLength then b.virtualLength else p.toNat) ≤ b.virtualLength := by
      split <;> omega
    simpa only [h.virtualLength] using h.moved hp
  case setEndianness => exact .map <| .modify fun h => h.ordered
  case readU8        => exact .map agrees_readU8
  case readU16       => exact .map <| agrees_readU16 he
  case readU32       => exact .map <| agrees_readU32 he
  case readString    => exact .map agrees_readString
  case readData      => exact .map agrees_readData
  case getData       => exact .map agrees_getData
  case getAllData    => exact .map agrees_getAllData
  case getPosition   => exact .map <| .bind_get fun _ _ h => by rw [h.position]; exact .pure _
  case getLength     => exact .map <| .bind_get fun _ _ h => by rw [h.virtualLength]; exact .pure _
  case getAvailable  =>
    exact .map <| .bind_get fun _ _ h => by rw [h.virtualLength, h.position]; exact .pure _

end Operations

section Runs

-- Keeps track of the largest length that the buffer has had.
def tracked (σ : Platform) : Machine PublicOp Out (AgBuffer × Nat) :=
  fun o (b, high) => (execPublic σ o b).map fun (out, b') => (out, b', max high b'.virtualLength)

-- A new length does not exceed the largest length so far.
def PublicOp.InBounds : AgBuffer × Nat → PublicOp → Prop
  | (_, high), setLength n => n.toNat ≤ high
  | _,         _           => True

-- The two buffers of two runs.
structure Tracks (x y : AgBuffer × Nat) : Prop where
  shared  : Shared x.2 x.1 y.1
  high_le : x.1.virtualLength ≤ x.2
  high_eq : x.2 = y.2

theorem Shared.raise (h : Shared high b c) : Shared (max high b.virtualLength) b c where
  capacity    := h.capacity
  frame       := h.frame
  data_length := h.data_length
  high_le     := max_le h.high_le h.capacity.virtual_le
  position_le := h.position_le.trans <| le_max_left ..
  same i hi   := h.same i <| hi.trans_le <| max_le le_rfl <| le_max_right ..

theorem Shared.setLength (h : Shared high b c) (hv : b.virtualLength ≤ high) (hn : n ≤ high) :
    ∃ b' c', AgBuffer.setLength σ n b = some ((), b') ∧ AgBuffer.setLength τ n c = some ((), c') ∧
      Shared high b' c' := by
  have hb : ¬n > b.realLength := Nat.not_lt.mpr <| hn.trans h.high_le
  have hc : ¬n > c.realLength := h.realLength ▸ hb
  have hm : max high n ≤ max high b.virtualLength := max_le (le_max_left ..) <| hn.trans <| le_max_left ..
  refine ⟨{ b with virtualLength := n }, { c with virtualLength := n }, ?_, ?_, ?_⟩
  · simp only [AgBuffer.setLength, M.modify_apply, if_neg hb]
  · simp only [AgBuffer.setLength, M.modify_apply, if_neg hc]
  · refine ⟨⟨h.capacity.data_length, h.capacity.real_lt, hn.trans h.high_le, h.capacity.position_le⟩, ?_,
      h.data_length, h.high_le, ?_, fun i hi => h.same i <| hi.trans_le hm⟩
    · rw [h.frame]
    · exact h.position_le.trans <| (max_le le_rfl hv).trans <| le_max_left ..

variable {x y : AgBuffer × Nat} {o : PublicOp} {ops : List PublicOp}

theorem Tracks.virtual_le (h : Tracks x y) : y.1.virtualLength ≤ y.2 :=
  h.shared.virtualLength ▸ h.high_eq ▸ h.high_le

theorem Tracks.high_le_real (h : Tracks x y) : y.2 ≤ y.1.realLength :=
  h.shared.realLength ▸ h.high_eq ▸ h.shared.high_le

theorem Tracks.inBounds (h : Tracks x y) (hp : o.InBounds x) : o.InBounds y := by
  cases o
  case setLength n => exact (show n.toNat ≤ x.2 from hp).trans_eq h.high_eq
  all_goals trivial

theorem execPublic_of_tracked {x' : AgBuffer × Nat} {out : Out} (h : tracked σ o x = some (out, x')) :
    execPublic σ o x.1 = some (out, x'.1) := by
  obtain ⟨_, hx, he⟩ := Option.map_eq_some_iff.mp h
  cases he
  exact hx

-- A step that is in bounds keeps the runs together.
theorem Tracks.step (h : Tracks x y) (he : τ.endianness = σ.endianness) (hσ : σ.heap.Total)
    (hτ : τ.heap.Total) (hp : o.InBounds x) : SameResult Tracks (tracked σ o x) (tracked τ o y) := by
  obtain ⟨b, high⟩ := x
  obtain ⟨c, _⟩ := y
  obtain ⟨hs, hl, rfl⟩ := h
  have ho : SameResult (Shared high) (execPublic σ o b) (execPublic τ o c) := by
    cases o
    case op           => exact agrees_exec he hσ hτ _ _ _ hs
    case writeWstring => exact (Agrees.forM fun _ _ => agrees_writeWchar he hσ hτ _).map _ _ hs
    case setLength n =>
      obtain ⟨b', c', hb, hc, h⟩ := hs.setLength (σ := σ) (τ := τ) hl hp
      rw [execPublic, execPublic, M.map_apply, M.map_apply, hb, hc]
      exact .intro h
  exact ho.map fun _ b' c' h => ⟨rfl, h.raise, le_max_right .., congrArg (max high) h.virtualLength.symm⟩

theorem create_tracks (hσ : σ.heap.Total) (hτ : τ.heap.Total) {init : Option (List Byte)}
    (hi : ∀ src ∈ init, src.length < 2 ^ 32) :
    ∃ b c, create σ init = some b ∧ create τ init = some c ∧
      Tracks (b, b.virtualLength) (c, c.virtualLength) := by
  have hn (n : Nat) (h : n < 2 ^ 32) :
      Shared 0 ⟨0, 0, n, malloc σ n, .small, 1⟩ ⟨0, 0, n, malloc τ n, .small, 1⟩ := by
    refine ⟨⟨malloc_length hσ n, h, Nat.zero_le _, Nat.zero_le _⟩, rfl, ?_, Nat.zero_le _, Nat.zero_le _, ?_⟩
    · rw [malloc_length hσ, malloc_length hτ]
    · exact fun i hi => absurd hi i.not_lt_zero
  have ht {b c} (h : Shared 0 b c) : Tracks (b, b.virtualLength) (c, c.virtualLength) :=
    ⟨Nat.zero_max b.virtualLength ▸ h.raise, le_rfl, h.virtualLength.symm⟩
  cases init
  case none => exact ⟨_, _, rfl, rfl, ht <| hn GROW_SIZE <| by decide⟩
  case some src =>
    obtain ⟨b, hb, _⟩ := create_represents hσ hi
    obtain ⟨_, hw, he⟩ := Option.bind_eq_some_iff.mp hb
    cases he
    obtain ⟨c, hc, h⟩ := (agrees_writeData hσ hτ src _ _ <| hn _ <| hi src rfl).of_eq_some hw
    refine ⟨_, c, hb, ?_, ht h⟩
    rw [create, ofData, hc]
    rfl

end Runs

section Fresh

-- The bytes behind the largest length so far have a given value.
structure Fresh (v : Byte) (high : Nat) (b : AgBuffer) : Prop where
  block : b.Block
  rest  : ∀ i, max high b.virtualLength ≤ i → i < b.data.length → b.data[i]? = some v

-- The platform whose allocator fills the blocks that it returns.
def filled (e : Endianness) (v : Byte) : Platform where
  endianness := e
  heap       := .filled v

variable {v : Byte}

theorem grow_filled (hi : b.data.length ≤ i) (hl : i < (b.grow (filled e v) n).data.length) :
    (b.grow (filled e v) n).data[i]? = some v := by
  simp only [grow, realloc, filled, Heap.filled, Option.map_some, List.length_append, List.length_take,
    List.length_map, List.length_range'] at hl ⊢
  rw [List.getElem?_append_right (by rw [List.length_take]; omega), List.getElem?_map,
    List.getElem?_range' (by rw [List.length_take]; omega)]
  rfl

-- The bytes that a write adds to the block are those of a growth.
theorem writeBlock_rest (he : writeBlock σ w b = some ((), b')) (hi : b.data.length ≤ i)
    (hl : i < b'.data.length) (hp : b.position + w.length ≤ i) :
    i < (b.grow σ w.length).data.length ∧ b'.data[i]? = (b.grow σ w.length).data[i]? := by
  have hg : (b.grow σ w.length).position = b.position := by
    rw [grow]
    split <;> rfl
  simp only [writeBlock] at he
  obtain ⟨b₁, hs, he⟩ := Option.bind_eq_some_iff.mp he
  obtain ⟨hr, hs⟩ := Option.ite_none_right_eq_some.mp hs
  cases hs
  cases he
  simp only [advance] at hl ⊢
  rw [getElem?_overwrite hr]
  simp only [List.length_append, List.length_take, List.length_drop] at hl
  split at hr
  case isTrue h =>
    simp only [if_pos h, hg] at hl hr ⊢
    exact ⟨by omega, if_neg <| by omega⟩
  case isFalse h =>
    simp only [if_neg h] at hl
    omega

theorem Fresh.kept : Kept (filled e v) (Fresh v high) where
  write {w} hw b _ b' h he := by
    have s := h.block.stored_of_writeBlock hw he
    refine ⟨s.block, fun i hi hl => ?_⟩
    rw [s.virtualLength, if_neg hw] at hi
    by_cases ho : i < b.data.length
    case pos => rw [s.others i ho (by omega), h.rest i (by omega) ho]
    case neg =>
      obtain ⟨hl, hg⟩ := writeBlock_rest he (by omega) hl (by omega)
      rw [hg, grow_filled (by omega) hl]
  move _ h := ⟨⟨h.block.data_length, h.block.real_lt⟩, h.rest⟩
  order h  := ⟨⟨h.block.data_length, h.block.real_lt⟩, h.rest⟩

theorem Fresh.raise (f : Fresh v high b) : Fresh v (max high b.virtualLength) b :=
  ⟨f.block, fun i hi => f.rest i <| (le_max_left ..).trans hi⟩

variable {x : AgBuffer × Nat} {o : PublicOp} {out : Out}

theorem Fresh.step {x' : AgBuffer × Nat} (f : Fresh v x.2 x.1) (hv : x.1.virtualLength ≤ x.2)
    (hr : x.2 ≤ x.1.realLength) (hp : o.InBounds x) (he : tracked (filled e v) o x = some (out, x')) :
    Fresh v x'.2 x'.1 := by
  obtain ⟨b, high⟩ := x
  obtain ⟨⟨_, b'⟩, hx, he⟩ := Option.map_eq_some_iff.mp he
  cases he
  refine Fresh.raise ?_
  cases o
  case setLength n =>
    have hn : ¬n.toNat > b.realLength := Nat.not_lt.mpr <| hp.trans hr
    cases hx
    simp only [if_neg hn]
    refine ⟨⟨f.block.data_length, f.block.real_lt⟩, fun i hi => f.rest i ?_⟩
    exact (max_le le_rfl hv).trans <| (le_max_left ..).trans hi
  all_goals exact Fresh.kept.execPublic _ (by simp) _ _ _ f hx

theorem malloc_filled (hi : i < n) : (malloc (filled e v) n)[i]? = some v := by
  simp only [malloc, filled, Heap.filled, Option.elim_some]
  rw [List.getElem?_map, List.getElem?_range hi]
  rfl

theorem create_fresh {init : Option (List Byte)} (hi : ∀ src ∈ init, src.length < 2 ^ 32)
    (h : create (filled e v) init = some b) : Fresh v b.virtualLength b := by
  have hf : Fresh v 0 b := Fresh.kept.create (fun n hn => ⟨malloc_block hn, fun i _ hl => ?_⟩) hi h
  · exact Nat.zero_max b.virtualLength ▸ hf.raise
  · exact malloc_filled (e := e) <| malloc_length (σ := filled e v) (Heap.filled_total v) n ▸ hl

-- Reads everything.
def PublicOp.readAll (n : DWord) : PublicOp :=
  .op <| .getAllData (some <| List.replicate n.toNat 0) n

-- A new length that is out of bounds exposes what the allocator has returned.
theorem Fresh.exposed {n : DWord} (f : Fresh v high b) (c : b.Capacity) (hv : b.virtualLength ≤ high)
    (hn : high < n.toNat) (hf : b.realLength < n.toNat → n.toNat + GROW_SIZE < 2 ^ 32) :
    ∃ bytes, (execPublic <| filled e v).outputs [.setLength n, .readAll n] b =
      some [.unit, .dst <| some bytes] ∧ bytes[n.toNat - 1]? = some v := by
  have hh : (filled e v).heap.Total := Heap.filled_total v
  have hz : ¬n.toNat ≤ 0 := by omega
  let g := if n.toNat > b.realLength then b.grow (filled e v) (n.toNat - b.realLength) else b
  have hs : execPublic (filled e v) (.setLength n) b =
      some (.unit, { g with virtualLength := n.toNat }) := rfl
  have c' : Capacity { g with virtualLength := n.toNat } := (setLength_capacity_iff c hh n.isLt rfl).mpr hf
  have hl : n.toNat ≤ g.data.length := c'.data_length ▸ c'.virtual_le
  have hr : getAllData (some <| List.replicate n.toNat 0) n.toNat { g with virtualLength := n.toNat } =
      some (some <| g.data.take n.toNat, { g with virtualLength := n.toNat }) := by
    simp [getAllData, load, hz, hl]
  have ha : execPublic (filled e v) (.readAll n) { g with virtualLength := n.toNat } =
      some (.dst <| some <| g.data.take n.toNat, { g with virtualLength := n.toNat }) := by
    rw [PublicOp.readAll, execPublic, exec, M.map_apply, hr]
    rfl
  refine ⟨g.data.take n.toNat, ?_, ?_⟩
  case refine_1 =>
    rw [Machine.outputs_cons hs, Machine.outputs_cons ha]
    rfl
  case refine_2 =>
    rw [List.getElem?_take_of_lt (by omega)]
    by_cases hg : n.toNat > b.realLength
    case pos =>
      simp only [g, if_pos hg] at hl ⊢
      exact grow_filled (by rw [c.data_length]; omega) (by omega)
    case neg =>
      simp only [g, if_neg hg] at hl ⊢
      exact f.rest _ (by omega) (by omega)

end Fresh

section Oblivious

def PublicOp.IsRead : PublicOp → Prop
  | op .readU8 | op .readU16 | op .readU32 | op .readString => True
  | op (.readData ..) | op (.getData ..) | op (.getAllData ..) => True
  | _ => False

-- What a caller sees who creates a buffer and uses it.
def results (σ : Platform) (init : Option (List Byte)) (ops : List PublicOp) : Option (List Out) :=
  (create σ init).bind <| (execPublic σ).outputs ops

-- At no point of a run is there a read that lets a caller tell apart two heaps.
def Oblivious (e : Endianness) (init : Option (List Byte)) (ops : List PublicOp) : Prop :=
  ∀ heap heap' : Heap, heap.Total → heap'.Total → ∀ pre, pre <+: ops → ∀ r : PublicOp, r.IsRead →
    results ⟨e, heap⟩ init (pre ++ [r]) = results ⟨e, heap'⟩ init (pre ++ [r])

variable {x y y' : AgBuffer × Nat} {ops : List PublicOp}

-- The largest length does not influence what an operation does.
theorem tracked_outputs : (tracked σ).outputs ops x = (execPublic σ).outputs ops x.1 := by
  have ht : (tracked σ).Along (fun _ _ => True) x ops := .of_forall fun _ _ => trivial
  have hs {x : AgBuffer × Nat} {b : AgBuffer} {o : PublicOp} (h : x.1 = b) (_ : True) :
      SameResult (fun x b => x.1 = b) (tracked σ o x) (execPublic σ o b) := by
    subst h
    rw [tracked]
    cases execPublic σ o x.1
    case none   => exact .none
    case some r => exact .intro rfl
  exact (Machine.run_agrees (R := fun x b => x.1 = b) hs rfl ht).map_fst

theorem Tracks.outputs (h : Tracks x y) (he : τ.endianness = σ.endianness) (hσ : σ.heap.Total)
    (hτ : τ.heap.Total) (a : (tracked σ).Along PublicOp.InBounds x ops) :
    (execPublic σ).outputs ops x.1 = (execPublic τ).outputs ops y.1 := by
  rw [←tracked_outputs, ←tracked_outputs]
  exact (Machine.run_agrees (fun h hp => h.step he hσ hτ hp) h a).map_fst

theorem PublicOp.IsRead.inBounds {r : PublicOp} (hr : r.IsRead) (x : AgBuffer × Nat) : r.InBounds x := by
  cases r
  case setLength => exact hr.elim
  all_goals trivial

-- If all lengths are in bounds, then every other run of the operations has the same outputs.
theorem oblivious_of_inBounds {init : Option (List Byte)} (hσ : σ.heap.Total)
    (hi : ∀ src ∈ init, src.length < 2 ^ 32) (hb : create σ init = some b)
    (a : (tracked σ).Along PublicOp.InBounds (b, b.virtualLength) ops) : Oblivious σ.endianness init ops := by
  have hs (heap : Heap) (hh : heap.Total) (pre) (hp : pre <+: ops) (r : PublicOp) (hr : r.IsRead) :
      results ⟨σ.endianness, heap⟩ init (pre ++ [r]) = (execPublic σ).outputs (pre ++ [r]) b := by
    obtain ⟨b', c, hb', hc, h⟩ := create_tracks (τ := ⟨σ.endianness, heap⟩) hσ hh hi
    cases hb.symm.trans hb'
    rw [results, hc, Option.bind_some]
    exact (h.outputs (σ := σ) (τ := ⟨σ.endianness, heap⟩) rfl hσ hh <| a.snoc hp hr.inBounds).symm
  intro heap heap' hh hh' pre hp r hr
  rw [hs heap hh pre hp r hr, hs heap' hh' pre hp r hr]

-- A length that is out of bounds lets a caller tell apart the heaps that are filled with 0 and with 1.
theorem inBounds_of_outputs_eq (hσ : σ.heap.Total) (h : Tracks x y) (h' : Tracks x y') (f : Fresh 0 y.2 y.1)
    (f' : Fresh 1 y'.2 y'.1) (hf : (execPublic σ).Along PublicOp.LengthFits x.1 ops)
    (ho : ∀ pre, pre <+: ops → ∀ r : PublicOp, r.IsRead →
      (execPublic <| filled σ.endianness 0).outputs (pre ++ [r]) y.1 =
        (execPublic <| filled σ.endianness 1).outputs (pre ++ [r]) y'.1) :
    (tracked σ).Along PublicOp.InBounds x ops := by
  induction ops generalizing x y y'
  case nil => trivial
  case cons o ops hi =>
    have hb : o.InBounds x := by
      by_contra hn
      cases o
      case setLength n =>
        have hl : x.2 < n.toNat := Nat.lt_of_not_le hn
        obtain ⟨bytes, h₀, hv⟩ := f.exposed h.shared.capacity' h.virtual_le (h.high_eq ▸ hl)
          (h.shared.realLength ▸ hf.left)
        obtain ⟨bytes', h₁, hv'⟩ := f'.exposed h'.shared.capacity' h'.virtual_le (h'.high_eq ▸ hl)
          (h'.shared.realLength ▸ hf.left)
        have he := ho [.setLength n] (List.prefix_append [_] _) (.readAll n) trivial
        rw [List.singleton_append, h₀, h₁] at he
        simp only [Option.some.injEq, List.cons.injEq, Out.dst.injEq, true_and, and_true] at he
        rw [he, hv'] at hv
        exact absurd hv <| by decide
      all_goals exact hn trivial
    refine ⟨hb, fun out x' hs => ?_⟩
    obtain ⟨y₁, hy, h₁⟩ :=
      (h.step (σ := σ) (τ := filled σ.endianness 0) rfl hσ (Heap.filled_total 0) hb).of_eq_some hs
    obtain ⟨y₁', hy', h₁'⟩ :=
      (h'.step (σ := σ) (τ := filled σ.endianness 1) rfl hσ (Heap.filled_total 1) hb).of_eq_some hs
    refine hi h₁ h₁' (f.step h.virtual_le h.high_le_real (h.inBounds hb) hy)
      (f'.step h'.virtual_le h'.high_le_real (h'.inBounds hb) hy')
        (hf.right _ _ <| execPublic_of_tracked hs) ?_
    intro pre hp r hr
    have he := ho (o :: pre) (List.cons_prefix_cons.mpr ⟨rfl, hp⟩) r hr
    rw [List.cons_append, Machine.outputs_cons <| execPublic_of_tracked hy,
      Machine.outputs_cons <| execPublic_of_tracked hy'] at he
    exact Option.map_injective (fun _ _ h => (List.cons.inj h).right) he

-- As long as no length is out of bounds, what a buffer reads depends only on what was written. The first
-- length that is out of bounds breaks this.
theorem run_oblivious_iff (σ : Platform) (hσ : σ.heap.Total) (init : Option (List Byte))
    (hi : ∀ src ∈ init, src.length < 2 ^ 32) :
    ∃ b, create σ init = some b ∧ ∀ ops, (execPublic σ).Along PublicOp.LengthFits b ops →
      (Oblivious σ.endianness init ops ↔
        (tracked σ).Along PublicOp.InBounds (b, b.virtualLength) ops) := by
  obtain ⟨b, c, hb, hc, h⟩ := create_tracks (τ := filled σ.endianness 0) hσ (Heap.filled_total 0) hi
  obtain ⟨b', c', hb', hc', h'⟩ := create_tracks (τ := filled σ.endianness 1) hσ (Heap.filled_total 1) hi
  cases hb.symm.trans hb'
  refine ⟨b, hb, fun ops hf => ⟨fun ho => ?_, oblivious_of_inBounds hσ hi hb⟩⟩
  refine inBounds_of_outputs_eq hσ h h' (create_fresh hi hc) (create_fresh hi hc') hf fun pre hp r hr => ?_
  have he := ho (.filled 0) (.filled 1) (Heap.filled_total 0) (Heap.filled_total 1) pre hp r hr
  rwa [results, results, ←filled, ←filled, hc, hc'] at he

theorem run_oblivious_iff_written :
    ∃ b, create (.windows <| .filled 0xCD) (some [1, 2, 3]) = some b ∧
      Oblivious .small (some [1, 2, 3]) [.setLength 1, .op <| .seek 0, .setLength 3, .op .readU8] := by
  have ⟨b, hb, h⟩ := run_oblivious_iff (.windows <| .filled 0xCD) (Heap.filled_total _)
    (some [1, 2, 3]) (by simp)
  refine ⟨b, hb, (h _ ?_).mpr ?_⟩
  case refine_1 =>
    exact ⟨fun _ => by decide, fun _ _ _ => ⟨trivial, fun _ _ _ =>
      ⟨fun _ => by decide, fun _ _ _ => ⟨trivial, fun _ _ _ => trivial⟩⟩⟩⟩
  case refine_2 =>
    cases hb
    refine ⟨Nat.le_of_ble_eq_true rfl, fun _ _ e => ?_⟩
    cases e
    refine ⟨trivial, fun _ _ e => ?_⟩
    cases e
    exact ⟨Nat.le_of_ble_eq_true rfl, fun _ _ _ => ⟨trivial, fun _ _ _ => trivial⟩⟩

-- The first byte of a new buffer is read before anything is written.
theorem results_setLength_readU8 (v : Byte) :
    results (filled .small v) none [.setLength 1, .op .readU8] = some [.unit, .u8 v] := by
  have hm : (malloc (filled .small v) GROW_SIZE)[0]? = some v := malloc_filled <| by decide
  have hs : execPublic (filled .small v) (.op .readU8) { new (filled .small v) with virtualLength := 1 } =
      some (.u8 v, { new (filled .small v) with virtualLength := 1, position := 1 }) := by
    rw [execPublic, exec, M.map_apply, readU8]
    simp [new, hm, sizeT]
  rw [results, create, Option.bind_some, Machine.outputs_cons rfl]
  exact congrArg (Option.map _) <| Machine.outputs_cons hs

-- The heap decides what is read.
theorem setLength_exposes_heap :
    results (filled .small 0) none [.setLength 1, .op .readU8] = some [.unit, .u8 0] ∧
    results (filled .small 1) none [.setLength 1, .op .readU8] = some [.unit, .u8 1] ∧
    ¬Oblivious .small none [.setLength 1] := by
  refine ⟨results_setLength_readU8 0, results_setLength_readU8 1, fun h => ?_⟩
  have he := h (.filled 0) (.filled 1) (Heap.filled_total 0) (Heap.filled_total 1) [.setLength 1]
    (List.prefix_refl _) (.op .readU8) trivial
  rw [←filled, ←filled, List.singleton_append, results_setLength_readU8, results_setLength_readU8] at he
  simp at he

end Oblivious

end AgBuffer
