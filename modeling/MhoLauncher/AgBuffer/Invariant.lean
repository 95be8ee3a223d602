import MhoLauncher.AgBuffer.Spec

namespace AgBuffer

variable {σ : Platform} {b b' : AgBuffer} {n : Nat} {w : List Byte}

@[simp]
theorem M.bind_apply {f : M α} {g : α → M β} : (f >>= g) b = (f b).bind fun r => g r.1 r.2 :=
  rfl

theorem M.seq_apply {f : M Unit} {g : M α} {b₁ : AgBuffer} {r : α × AgBuffer} (hf : f b = some ((), b₁))
    (hg : g b₁ = some r) : (do f; g) b = some r := by
  rw [M.bind_apply, hf]
  exact hg

@[simp]
theorem M.pure_apply {a : α} : (pure a : M α) b = some (a, b) :=
  rfl

@[simp]
theorem M.map_apply {f : α → β} {g : M α} : (f <$> g) b = (g b).map fun r => (f r.1, r.2) := by
  cases h : g b <;> simp [Functor.map, StateT.map, h]

@[simp]
theorem M.get_apply : (get : M AgBuffer) b = some (b, b) :=
  rfl

@[simp]
theorem M.modify_apply {f : AgBuffer → AgBuffer} : (modify f : M Unit) b = some ((), f b) :=
  rfl

theorem sizeT_eq (h : n < 2 ^ 32) : sizeT n = n :=
  Nat.mod_eq_of_lt h

theorem sizeT_lt (n : Nat) : sizeT n < 2 ^ 32 :=
  Nat.mod_lt _ (by simp)

-- The allocated block has exactly `realLength` bytes, and neither the length nor the cursor reach
-- past its end.
structure Capacity (b : AgBuffer) : Prop where
  data_length : b.data.length = b.realLength
  real_lt     : b.realLength < 2 ^ 32
  virtual_le  : b.virtualLength ≤ b.realLength
  position_le : b.position ≤ b.realLength

theorem Capacity.moved {p : Nat} (c : b.Capacity) (h : p ≤ b.realLength) :
    Capacity { b with position := p } :=
  ⟨c.data_length, c.real_lt, c.virtual_le, h⟩

theorem Capacity.withEndianness {e : Endianness} (c : b.Capacity) :
    Capacity { b with endianness := e } :=
  ⟨c.data_length, c.real_lt, c.virtual_le, c.position_le⟩

-- If a write of `n` bytes has to grow the block, then the new length does not wrap around.
def Fits (b : AgBuffer) (n : Nat) : Prop :=
  b.realLength < b.position + n → b.realLength + n + GROW_SIZE < 2 ^ 32

-- The bytes below `virtualLength`.
def contents (b : AgBuffer) : List Byte :=
  b.data.take b.virtualLength

theorem Capacity.contents_length (c : b.Capacity) : b.contents.length = b.virtualLength := by
  have := c.data_length
  have := c.virtual_le
  simp [contents]
  omega

-- The difference between a buffer and the one after `grow`.
structure Grown (b : AgBuffer) (n : Nat) (b' : AgBuffer) : Prop where
  position      : b'.position = b.position
  virtualLength : b'.virtualLength = b.virtualLength
  realLength    : b'.realLength = sizeT (b.realLength + n + GROW_SIZE)
  data_length   : b'.data.length = b'.realLength
  data_take     : b.data.length ≤ b'.realLength → b'.data.take b.data.length = b.data
  endianness    : b'.endianness = b.endianness

theorem grow_allocated (ha : (σ.heap b.allocs).isSome) : b.Grown n (b.grow σ n) := by
  have ⟨fresh, h⟩ := Option.isSome_iff_exists.mp ha
  constructor <;> simp [grow, realloc, h]
  case data_length => omega
  case data_take =>
    intro hl
    simp [List.take_of_length_le hl]

theorem grow_grown (hh : σ.heap.Total) : b.Grown n (b.grow σ n) :=
  grow_allocated <| hh b.allocs

theorem Grown.capacity (g : b.Grown n b') (c : b.Capacity) (h : b.realLength + n + GROW_SIZE < 2 ^ 32) :
    b'.Capacity where
  data_length := g.data_length
  real_lt     := g.realLength ▸ sizeT_lt _
  virtual_le  := by have := c.virtual_le; rw [g.virtualLength, g.realLength, sizeT_eq h]; omega
  position_le := by have := c.position_le; rw [g.position, g.realLength, sizeT_eq h]; omega

-- The difference between a buffer and the one after `w` has been written.
structure Written (b : AgBuffer) (w : List Byte) (b' : AgBuffer) : Prop where
  capacity      : b'.Capacity
  position      : b'.position = b.position + w.length
  virtualLength : b'.virtualLength = max b.virtualLength (b.position + w.length)
  realLength    : b'.realLength =
    if b.realLength < b.position + w.length then b.realLength + w.length + GROW_SIZE else b.realLength
  contents      : b.position ≤ b.virtualLength →
    b'.contents = b.contents.take b.position ++ w ++ b.contents.drop (b.position + w.length)
  endianness    : b'.endianness = b.endianness

theorem take_overwrite {l w : List α} {p v : Nat} (hp : p ≤ v) (hv : v ≤ l.length) :
    (l.take p ++ w ++ l.drop (p + w.length)).take (max v (p + w.length)) =
    (l.take v).take p ++ w ++ (l.take v).drop (p + w.length) := by
  have hl : (l.take p ++ w).length = p + w.length := by simp; omega
  have hm : max v (p + w.length) = (l.take p ++ w).length + (v - (p + w.length)) := by omega
  rw [hm, List.take_length_add_append, List.drop_take, List.take_take, Nat.min_eq_left hp]

-- A store into a block that is large enough.
theorem Capacity.store (c : b.Capacity) (h : b.position + w.length ≤ b.realLength) :
    ∃ b₁, b.store b.position w = some b₁ ∧ b.Written w (b₁.advance w.length) := by
  have := c.data_length
  have := c.virtual_le
  have hs := sizeT_eq <| h.trans_lt c.real_lt
  have hv : (if b.position + w.length > b.virtualLength then b.position + w.length else b.virtualLength) =
      max b.virtualLength (b.position + w.length) := by split <;> omega
  refine ⟨_, if_pos (by omega), ?_⟩
  constructor <;> simp only [advance, hs, hv]
  case capacity =>
    constructor <;> simp <;> have := c.real_lt <;> omega
  case realLength => rw [if_neg (by omega)]
  case contents => exact fun hp => take_overwrite hp (by omega)

theorem Capacity.writeBlock (c : b.Capacity) (hh : σ.heap.Total) (hf : b.Fits w.length) :
    ∃ b', writeBlock σ w b = some ((), b') ∧ b.Written w b' := by
  have := c.real_lt
  have := c.position_le
  by_cases hr : b.realLength < b.position + w.length
  case neg =>
    have hs := sizeT_eq (n := b.position + w.length) (by omega)
    have ⟨b₁, hb, h⟩ := c.store (w := w) (by omega)
    exact ⟨_, by simp [AgBuffer.writeBlock, hs, hr, hb], h⟩
  case pos =>
    have hs := sizeT_eq (n := b.position + w.length) (by have := hf hr; omega)
    have g := grow_grown (b := b) (n := w.length) hh
    have hl := g.realLength.trans <| sizeT_eq <| hf hr
    have ⟨b₁, hb, h⟩ := (g.capacity c <| hf hr).store (w := w) (by rw [g.position, hl]; omega)
    rw [g.position] at hb
    refine ⟨b₁.advance w.length, by simp [AgBuffer.writeBlock, hs, hr, g.position, hb], ?_⟩
    have hd := g.data_take (by rw [c.data_length]; omega)
    have hc : (b.grow σ w.length).contents = b.contents := by
      have := c.data_length
      have := c.virtual_le
      simp only [AgBuffer.contents, g.virtualLength]
      conv => rhs; rw [←hd, List.take_take, Nat.min_eq_left (by omega)]
    constructor
    case capacity      => exact h.capacity
    case position      => rw [h.position, g.position]
    case virtualLength => rw [h.virtualLength, g.virtualLength, g.position]
    case realLength    => rw [h.realLength, g.position, hl, if_neg (by omega), if_pos hr]
    case contents      =>
      exact fun hp => by rw [h.contents (by rwa [g.position, g.virtualLength]), g.position, hc]
    case endianness    => rw [h.endianness, g.endianness]

end AgBuffer
