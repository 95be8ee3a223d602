import MhoLauncher.AgBuffer.Refinement

open Bytes

namespace AgBuffer

variable {σ : Platform} {b b' b₁ b₂ : AgBuffer} {w w₁ w₂ : List Byte} {n : Nat}

-- In contrast to `Capacity`, this is also the case after an allocation has failed, or after a growth has
-- wrapped around. There is no block if not even the first allocation has succeeded.
structure Block (b : AgBuffer) : Prop where
  data_length : b.data = [] ∨ b.data.length = b.realLength
  real_lt     : b.realLength < 2 ^ 32

theorem Capacity.block (c : b.Capacity) : b.Block :=
  ⟨.inr c.data_length, c.real_lt⟩

theorem Block.length_le (h : b.Block) : b.data.length ≤ b.realLength := by
  cases h.data_length
  case inl h => rw [h]; exact Nat.zero_le _
  case inr h => exact h.le

-- There is room for `n` bytes at the cursor, possibly after the block has grown.
def Room (σ : Platform) (b : AgBuffer) (n : Nat) : Prop :=
  b.position + n ≤ b.data.length ∨
  b.realLength < sizeT (b.position + n) ∧ (σ.heap b.allocs).isSome ∧
    b.position + n ≤ sizeT (b.realLength + n + GROW_SIZE)

-- The number of times that the block grows when `n` bytes are written one at a time.
def growths (b : AgBuffer) (n : Nat) : Nat :=
  (b.position + n - b.realLength + GROW_SIZE) / (GROW_SIZE + 1)

-- The byte at the cursor is in the block, or in the part that the next growth adds to it.
def Near (b : AgBuffer) : Prop :=
  b.position < b.data.length ∨ b.realLength ≤ b.position ∧ b.position ≤ b.realLength + GROW_SIZE

-- There is room for `n` bytes that are written one at a time. In particular no growth wraps around, and all
-- of them succeed.
def RoomEach (σ : Platform) (b : AgBuffer) (n : Nat) : Prop :=
  n = 0 ∨ b.Near ∧ b.FitsEach n ∧ ∀ k < b.growths n, (σ.heap <| b.allocs + k).isSome

-- The difference between a buffer and the one after `w` has been written, byte by byte.
structure Stored (b : AgBuffer) (w : List Byte) (b' : AgBuffer) : Prop where
  block         : b'.Block
  length_le     : b.data.length ≤ b'.data.length
  position      : b'.position = b.position + w.length
  virtualLength : b'.virtualLength =
    if w = [] then b.virtualLength else max b.virtualLength (b.position + w.length)
  written       : ∀ i v, w[i]? = some v → b'.data[b.position + i]? = some v
  others        : ∀ i < b.data.length, i < b.position ∨ b.position + w.length ≤ i → b'.data[i]? = b.data[i]?

section Grow

theorem grow_failed (h : σ.heap b.allocs = none) : b.grow σ n = { b with allocs := b.allocs + 1 } := by
  simp only [grow, realloc, h, Option.map_none]

theorem Block.grow (h : b.Block) : (b.grow σ n).Block := by
  cases ha : σ.heap b.allocs
  case none =>
    rw [grow_failed ha]
    exact ⟨h.data_length, h.real_lt⟩
  case some =>
    have g := grow_allocated (b := b) (n := n) (by rw [ha]; rfl)
    exact ⟨.inr g.data_length, g.realLength ▸ sizeT_lt _⟩

theorem grow_allocs : (b.grow σ n).allocs = b.allocs + 1 := by
  rw [AgBuffer.grow]
  split <;> rfl

end Grow

section Stored

theorem Stored.nil (h : b.Block) : b.Stored [] b where
  block         := h
  length_le     := Nat.le_refl _
  position      := rfl
  virtualLength := rfl
  written _ _ h := nomatch h
  others _ _ _  := rfl

theorem Stored.append (h₁ : b.Stored w₁ b₁) (h₂ : b₁.Stored w₂ b₂) : b.Stored (w₁ ++ w₂) b₂ where
  block         := h₂.block
  length_le     := h₁.length_le.trans h₂.length_le
  position      := by rw [h₂.position, h₁.position, List.length_append, Nat.add_assoc]
  virtualLength := by
    rw [h₂.virtualLength, h₁.virtualLength, h₁.position, List.length_append]
    cases w₁ <;> cases w₂ <;> simp
    omega
  written i v hi := by
    by_cases hl : i < w₁.length
    case pos =>
      have hw := h₁.written i v <| List.getElem?_append_left hl ▸ hi
      have ⟨hd, _⟩ := List.getElem?_eq_some_iff.mp hw
      exact (h₂.others _ hd <| .inl <| by rw [h₁.position]; omega).trans hw
    case neg =>
      have hw := h₂.written (i - w₁.length) v <| List.getElem?_append_right (Nat.le_of_not_lt hl) ▸ hi
      rwa [h₁.position, Nat.add_assoc, Nat.add_sub_of_le (Nat.le_of_not_lt hl)] at hw
  others i hi ho := by
    rw [List.length_append] at ho
    have h := h₂.others i (hi.trans_le h₁.length_le) <| by rw [h₁.position]; omega
    exact h.trans <| h₁.others i hi <| by omega

theorem Stored.end_le (h : b.Stored w b') (hw : w ≠ []) : b.position + w.length ≤ b'.data.length := by
  have := List.length_pos_iff.mpr hw
  have ⟨hl, _⟩ := List.getElem?_eq_some_iff.mp <| h.written _ _ <| List.getElem?_eq_getElem <|
    Nat.sub_one_lt_of_lt this
  omega

theorem Stored.range_le (s : b.Stored w b')
    (hp : w ≠ [] ∨ b.position ≤ b.virtualLength ∧ b.position ≤ b.data.length) :
    b.position + w.length ≤ b'.virtualLength ∧ b.position + w.length ≤ b'.data.length := by
  have := s.length_le
  by_cases hw : w = []
  case neg => exact ⟨by rw [s.virtualLength, if_neg hw]; omega, s.end_le hw⟩
  case pos =>
    have ⟨hv, hd⟩ := hp.resolve_left <| not_not.mpr hw
    rw [s.virtualLength, if_pos hw, hw, List.length_nil]
    exact ⟨hv, hd.trans this⟩

-- The bytes that have been written can be told from the result.
theorem Stored.unique (h₁ : b.Stored w₁ b') (h₂ : b.Stored w₂ b') (hl : w₁.length = w₂.length) : w₁ = w₂ := by
  refine List.ext_getElem? fun i => ?_
  cases h : w₁[i]?
  case some v => 
    have ⟨hi, _⟩ := List.getElem?_eq_some_iff.mp h
    have h₂ := h₂.written i w₂[i] <| List.getElem?_eq_getElem <| hl ▸ hi
    rw [h₁.written i v h, Option.some.injEq] at h₂
    rw [h₂, List.getElem?_eq_getElem <| hl ▸ hi]
  case none =>
    rw [List.getElem?_eq_none_iff, hl, ←List.getElem?_eq_none_iff] at h
    exact h.symm

theorem getElem?_overwrite {l : List Byte} {p i : Nat} (h : p + w.length ≤ l.length) :
    (l.take p ++ w ++ l.drop (p + w.length))[i]? = if p ≤ i ∧ i < p + w.length then w[i - p]? else l[i]? := by
  have ht : (l.take p).length = p := List.length_take_of_le (by omega)
  rw [List.append_assoc, List.getElem?_append, List.getElem?_append, List.getElem?_drop, ht]
  split
  case isTrue hi => rw [List.getElem?_take_of_lt hi, if_neg (by omega)]
  case isFalse hi =>
    split
    case isTrue  => rw [if_pos (by omega)]
    case isFalse => rw [if_neg (by omega)]; congr 1; omega

-- A store into a block that has room.
theorem Block.store (h : b.Block) (hr : b.position + w.length ≤ b.data.length) (hw : w ≠ []) :
    ∃ b₁, b.store b.position w = some b₁ ∧ b.Stored w (b₁.advance w.length) ∧ b₁.realLength = b.realLength ∧
      b₁.allocs = b.allocs ∧ b₁.data.length = b.data.length := by
  have hs := sizeT_eq <| (hr.trans h.length_le).trans_lt h.real_lt
  have hg (i) := getElem?_overwrite (i := i) hr
  have hl : (b.data.take b.position ++ w ++ b.data.drop (b.position + w.length)).length = b.data.length := by
    simp
    omega
  refine ⟨_, if_pos hr, ?_, rfl, rfl, hl⟩
  constructor <;> simp only [advance, hs]
  case block =>
    exact ⟨h.data_length.imp
      (fun h => List.eq_nil_of_length_eq_zero <| by rw [hl, h]; rfl) hl.trans, h.real_lt⟩
  case length_le     => exact hl.ge
  case virtualLength => rw [if_neg hw]; split <;> omega
  case written =>
    intro i v hi
    obtain ⟨hi', _⟩ := List.getElem?_eq_some_iff.mp hi
    rw [hg, if_pos (by omega), Nat.add_sub_cancel_left, hi]
  case others => exact fun i _ ho => (hg i).trans <| if_neg (by omega)

end Stored

section Writes

-- The capacity after `n` bytes have been written at once.
structure Fitted (b : AgBuffer) (n : Nat) (b' : AgBuffer) : Prop where
  data_length : b'.data.length = if b.realLength < b.position + n then b'.realLength else b.data.length
  realLength  : b'.realLength =
    if b.realLength < b.position + n then sizeT (b.realLength + n + GROW_SIZE) else b.realLength
  allocs      : b'.allocs = if b.realLength < b.position + n then b.allocs + 1 else b.allocs

theorem Block.writeBlock (h : b.Block) (hw : w ≠ []) (hr : b.Room σ w.length) :
    ∃ b', writeBlock σ w b = some ((), b') ∧ b.Stored w b' ∧ b.Fitted w.length b' := by
  have := h.length_le
  have := h.real_lt
  cases hr
  case inl hr =>
    have hs := sizeT_eq (n := b.position + w.length) (by omega)
    have hn : ¬b.realLength < b.position + w.length := by omega
    obtain ⟨b₁, hb, hs₁, h₁, h₂, h₃⟩ := h.store hr hw
    refine ⟨_, by simp [AgBuffer.writeBlock, hs, hn, hb], hs₁, ?_⟩
    constructor <;> rw [if_neg hn] <;> assumption
  case inr hr =>
    obtain ⟨hl, ha, hr⟩ := hr
    have hs := sizeT_eq (n := b.position + w.length) <| hr.trans_lt <| sizeT_lt _
    have g := grow_allocated (b := b) (n := w.length) ha
    rw [←g.realLength, ←g.data_length, ←g.position] at hr
    obtain ⟨b₁, hb, hs₁, h₁, h₂, h₃⟩ := (h.grow (σ := σ) (n := w.length)).store hr hw
    rw [g.position] at hb hr
    have ht := g.data_take <| by rw [←g.data_length]; omega
    refine ⟨b₁.advance w.length, by simp [AgBuffer.writeBlock, hl, g.position, hb], ?_, ?_⟩
    case refine_1 =>
      constructor
      case block         => exact hs₁.block
      case length_le     => exact le_trans (by omega) hs₁.length_le
      case position      => rw [hs₁.position, g.position]
      case virtualLength => rw [hs₁.virtualLength, g.virtualLength, g.position]
      case written       => exact g.position ▸ hs₁.written
      case others =>
        intro i hi ho
        rw [hs₁.others i (by omega) (by rwa [g.position]), ←List.getElem?_take_of_lt hi, ht]
    case refine_2 =>
      rw [hs] at hl
      constructor <;> rw [if_pos hl]
      case data_length => exact h₃.trans <| g.data_length.trans h₁.symm
      case realLength  => exact h₁.trans g.realLength
      case allocs      => exact h₂.trans grow_allocs

-- Without room for the bytes they are stored outside of the block.
theorem Block.writeBlock_fails (h : b.Block) (hr : ¬b.Room σ w.length) :
    AgBuffer.writeBlock σ w b = none := by
  have := h.length_le
  have := h.real_lt
  have ⟨hp, hl⟩ := not_or.mp hr
  by_cases hs : b.realLength < sizeT (b.position + w.length)
  case neg => simp [AgBuffer.writeBlock, hs, AgBuffer.store, hp]
  case pos =>
    cases ha : σ.heap b.allocs
    case none => simp [AgBuffer.writeBlock, hs, AgBuffer.store, grow_failed ha, hp]
    case some =>
      have g := grow_allocated (σ := σ) (b := b) (n := w.length) (by rw [ha]; rfl)
      have hf : ¬b.position + w.length ≤ sizeT (b.realLength + w.length + GROW_SIZE) :=
        fun h => hl ⟨hs, by rw [ha]; rfl, h⟩
      simp [AgBuffer.writeBlock, hs, AgBuffer.store, g.position, g.data_length, g.realLength, hf]

theorem Block.stored_of_writeBlock (h : b.Block) (hw : w ≠ [])
    (he : AgBuffer.writeBlock σ w b = some ((), b')) :
    b.Stored w b' := by
  by_cases hr : b.Room σ w.length
  case neg => rw [h.writeBlock_fails hr] at he; contradiction
  case pos =>
    have ⟨_, he', s, _⟩ := h.writeBlock hw hr
    cases he.symm.trans he'
    exact s

theorem fitsEach_iff : b.FitsEach n ↔ b.realLength + (GROW_SIZE + 1) * b.growths n < 2 ^ 32 :=
  .rfl

theorem roomEach_iff (h : b.Block) (hn : b.Near) (hp : n = 0 → b.position ≤ b.realLength) :
    b.RoomEach σ n ↔ b.FitsEach n ∧ ∀ k < b.growths n, (σ.heap <| b.allocs + k).isSome := by
  simp only [RoomEach, hn, true_and, or_iff_right_iff_imp]
  intro hz
  have hp := hp hz
  have hg : b.growths n = 0 := by simp only [growths, hz, GROW_SIZE]; omega
  simp only [fitsEach_iff, hg]
  exact ⟨h.real_lt, fun k hk => absurd hk k.not_lt_zero⟩

theorem RoomEach.head (h : b.Block) (hr : b.RoomEach σ (n + 1)) : b.Room σ 1 := by
  have := h.length_le
  have := h.real_lt
  have ⟨hn, hf, ha⟩ := hr.resolve_left <| by simp
  cases hn
  case inl hn => exact .inl hn
  case inr hn =>
    simp only [fitsEach_iff, growths, GROW_SIZE] at *
    have hs : sizeT (b.realLength + 1 + 1024) = b.realLength + 1 + 1024 := sizeT_eq <| by omega
    exact .inr ⟨by rw [sizeT_eq] <;> omega, ha 0 (by omega), by rw [GROW_SIZE, hs]; omega⟩

-- After the byte at the cursor has been written, there has to be room for the remaining ones.
theorem RoomEach.succ_iff {v : Byte} (h : b.Block) (hr : b.Room σ 1) (s : b.Stored [v] b')
    (f : b.Fitted 1 b') :
    b.RoomEach σ (n + 1) ↔ b'.RoomEach σ n := by
  have := h.length_le
  have := h.real_lt
  have hb := h.data_length
  have hp : b'.position = b.position + 1 := s.position
  have hd := f.data_length
  have hl := f.realLength
  have ha := f.allocs
  by_cases hg : b.realLength < b.position + 1 <;>
    simp only [if_pos, if_neg, hg, not_false_eq_true] at hd hl ha
  case pos =>
    have ⟨_, hk, hr⟩ := hr.resolve_left <| by omega
    have hn : b'.realLength = b.realLength + (GROW_SIZE + 1) := by
      simp only [hl, sizeT, GROW_SIZE] at *; omega
    have hs : b.growths (n + 1) = b'.growths n + 1 := by simp only [growths, hn, hp, GROW_SIZE]; omega
    have hf : b.FitsEach (n + 1) ↔ b'.FitsEach n := by simp only [fitsEach_iff, hs, hn, GROW_SIZE]; omega
    have hh : (∀ k < b.growths (n + 1), (σ.heap <| b.allocs + k).isSome) ↔
        ∀ k < b'.growths n, (σ.heap <| b'.allocs + k).isSome := by
      rw [hs, Nat.forall_lt_succ_left, ha]
      simp only [Nat.add_zero, hk, true_and, Nat.add_assoc, Nat.add_comm 1]
    rw [←hl, hn] at hr
    rw [roomEach_iff (n := n + 1) h (.inr ⟨by omega, by omega⟩) (by simp), hf, hh]
    exact (roomEach_iff s.block (by rw [Near]; omega) fun _ => by omega).symm
  case neg =>
    have hr := hr.resolve_right <| by rw [sizeT_eq] <;> omega
    have hs : b.growths (n + 1) = b'.growths n := by simp only [growths, hl, hp, GROW_SIZE]; omega
    have hf : b.FitsEach (n + 1) ↔ b'.FitsEach n := by rw [fitsEach_iff, fitsEach_iff, hs, hl]
    have hc : b.data.length = b.realLength := hb.resolve_left <| List.ne_nil_of_length_pos <| by omega
    rw [roomEach_iff (n := n + 1) h (.inl hr) (by simp), hf, hs, ←ha]
    exact (roomEach_iff s.block (by rw [Near]; omega) fun _ => by omega).symm

-- The loop over the bytes of an integer or a string.
theorem Block.forM_writeU8 (h : b.Block) (hr : b.RoomEach σ w.length) :
    ∃ b', forM w (writeU8 σ) b = some ((), b') ∧ b.Stored w b' := by
  induction w generalizing b
  case nil => exact ⟨b, rfl, .nil h⟩
  case cons v w hi =>
    have ⟨b₁, hb₁, s₁, f₁⟩ := h.writeBlock (w := [v]) (by simp) <| hr.head h
    have ⟨b₂, hb₂, s₂⟩ := hi s₁.block <| (RoomEach.succ_iff h (hr.head h) s₁ f₁).mp hr
    exact ⟨b₂, M.seq_apply hb₁ hb₂, s₁.append s₂⟩

theorem Block.forM_writeU8_fails (h : b.Block) (hr : ¬b.RoomEach σ w.length) :
    forM w (writeU8 σ) b = none := by
  induction w generalizing b
  case nil => exact absurd (.inl rfl) hr
  case cons v w hi =>
    rw [List.forM_cons, M.bind_apply, writeU8]
    by_cases h₁ : b.Room σ 1
    case neg => rw [h.writeBlock_fails h₁, Option.bind_none]
    case pos =>
      obtain ⟨b₁, hb₁, s₁, f₁⟩ := h.writeBlock (w := [v]) (by simp) h₁
      rw [hb₁, Option.bind_some]
      exact hi s₁.block <| mt (RoomEach.succ_iff h h₁ s₁ f₁).mpr hr

theorem Block.stored_of_forM (h : b.Block) (he : forM w (AgBuffer.writeU8 σ) b = some ((), b')) :
    b.Stored w b' := by
  by_cases hr : b.RoomEach σ w.length
  case neg => rw [h.forM_writeU8_fails hr] at he; contradiction
  case pos =>
    have ⟨_, he', s⟩ := h.forM_writeU8 hr
    cases he.symm.trans he'
    exact s

end Writes

end AgBuffer
