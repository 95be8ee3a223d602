import MhoLauncher.AgBuffer.Runs

open Bytes

namespace AgBuffer

-- A number of calls of `read_u8` deliver one byte each, and after them there is none left.
inductive Delivers : AgBuffer → Nat → Prop
  | done {b v} (h : readU8 b = some (v, b)) : Delivers b 0
  | next {b b' v n} (h : readU8 b = some (v, b')) (hp : b'.position = b.position + 1) (hd : Delivers b' n) :
    Delivers b (n + 1)

variable {σ : Platform} {b b' : AgBuffer} {n : Nat}

structure CursorInside (b : AgBuffer) : Prop where
  position_le : b.position ≤ b.virtualLength
  available   : getAvailable b = some (b.virtualLength - b.position, b)
  delivers    : b.Delivers (b.virtualLength - b.position)

-- A new length is not smaller than the position of the cursor.
def PublicOp.KeepsCursor (b : AgBuffer) : PublicOp → Prop
  | setLength n => b.position ≤ n.toNat
  | _           => True

-- The growth that a new length asks for does not wrap around.
def PublicOp.LengthFits (b : AgBuffer) : PublicOp → Prop
  | setLength n => b.realLength < n.toNat → n.toNat + GROW_SIZE < 2 ^ 32
  | _           => True

theorem Capacity.delivers (c : b.Capacity) (h : b.virtualLength = b.position + n) : b.Delivers n := by
  induction n generalizing b
  case zero => exact .done <| if_pos <| by omega
  case succ n hi =>
    have := c.data_length
    have := c.virtual_le
    have := c.real_lt
    have hl : b.position < b.data.length := by omega
    have hs := sizeT_eq (n := b.position + 1) (by omega)
    have hp : ¬b.position ≥ b.virtualLength := by omega
    have hr : AgBuffer.readU8 b = some (b.data[b.position], { b with position := b.position + 1 }) := by
      simp [AgBuffer.readU8, hl, hs, hp]
    have c' : Capacity { b with position := b.position + 1 } := c.moved <| by omega
    exact .next hr rfl <| hi c' <| by simp only; omega

theorem Capacity.cursorInside (c : b.Capacity) (h : b.position ≤ b.virtualLength) : b.CursorInside where
  position_le := h
  available := by
    have := c.virtual_le
    have := c.real_lt
    simp [getAvailable, sizeT]
    omega
  delivers := c.delivers (Nat.add_sub_of_le h).symm

-- The cursor is inside of a block that has the bytes.
def Inside (b : AgBuffer) : Prop :=
  b.Capacity ∧ b.position ≤ b.virtualLength

theorem Inside.kept (σ : Platform) : Kept σ Inside where
  write hw b _ b' h he := by
    have s := h.left.block.stored_of_writeBlock hw he
    refine ⟨s.capacity h.left hw, ?_⟩
    rw [s.position, s.virtualLength, if_neg hw]
    exact Nat.le_max_right ..
  move hp h := ⟨h.left.moved <| hp.trans h.left.virtual_le, hp⟩
  order h   := ⟨h.left.withEndianness, h.right⟩

theorem setLength_inside (c : b.Capacity) (hh : σ.heap.Total) {n : DWord}
    (hf : b.realLength < n.toNat → n.toNat + GROW_SIZE < 2 ^ 32) (h : setLength σ n.toNat b = some ((), b')) :
    b'.Capacity ∧ b'.position = b.position ∧ b'.virtualLength = n.toNat := by
  refine ⟨(setLength_capacity_iff c hh n.isLt h).mpr hf, ?_⟩
  cases h
  refine ⟨?_, rfl⟩
  by_cases hl : b.realLength < n.toNat
  case pos => simp only [gt_iff_lt, if_pos hl, (grow_grown hh).position]
  case neg => simp only [gt_iff_lt, if_neg hl]

-- Only a new length can move the end over the cursor.
theorem Inside.step {o : PublicOp} {out : Out} (h : b.Inside) (hh : σ.heap.Total) (hf : o.LengthFits b)
    (he : execPublic σ o b = some (out, b')) :
    b'.Capacity ∧ (b'.position ≤ b'.virtualLength ↔ o.KeepsCursor b) := by
  cases o
  case setLength n =>
    cases he
    obtain ⟨c, hp, hv⟩ := setLength_inside h.left hh hf rfl
    rw [PublicOp.KeepsCursor, hp, hv]
    exact ⟨c, .rfl⟩
  all_goals
    have hi := (Inside.kept σ).execPublic _ (by simp) _ _ _ h he
    exact ⟨hi.left, iff_of_true hi.right trivial⟩

theorem Inside.step_iff {o : PublicOp} (h : b.Inside) (hh : σ.heap.Total) (hf : o.LengthFits b) :
    (∀ out b', execPublic σ o b = some (out, b') → b'.CursorInside) ↔ o.KeepsCursor b := by
  constructor
  case mp =>
    intro hi
    cases o
    case setLength n => exact (h.step hh hf rfl).right.mp (hi .unit _ rfl).position_le
    all_goals trivial
  case mpr =>
    intro hk out b' he
    have hs := h.step hh hf he
    exact hs.left.cursorInside <| hs.right.mpr hk

-- As long as no new length is smaller than the position, the cursor is inside in all states of a run. The
-- first new length that is smaller breaks this.
theorem run_cursorInside_iff (σ : Platform) (hh : σ.heap.Total) (init : Option (List Byte))
    (hi : ∀ src ∈ init, src.length < 2 ^ 32) :
    ∃ b, create σ init = some b ∧ b.CursorInside ∧
      ∀ ops, (execPublic σ).Along PublicOp.LengthFits b ops →
        ((execPublic σ).Along
          (fun b o => ∀ out b', execPublic σ o b = some (out, b') → b'.CursorInside) b ops ↔
          (execPublic σ).Along PublicOp.KeepsCursor b ops) := by
  obtain ⟨b, hb, r⟩ := create_represents hh hi
  have h : b.Inside := ⟨r.capacity, r.position_le⟩
  refine ⟨b, hb, r.capacity.cursorInside r.position_le, fun ops a => ?_⟩
  refine a.iff_of_invariant h (fun h hf => h.step_iff hh hf) fun h hf hp he => ?_
  exact ⟨(h.step hh hf he).left, (hp _ _ he).position_le⟩

theorem run_cursorInside_iff_shrunk :
    ∃ b, create (.windows <| .filled 0xCD) (some [1, 2, 3]) = some b ∧
      (execPublic <| .windows <| .filled 0xCD).Along
        (fun b o => ∀ out b', execPublic (.windows <| .filled 0xCD) o b = some (out, b') → b'.CursorInside) b
        [.op <| .seek 1, .setLength 2, .op .readU8] := by
  have ⟨b, hb, _, h⟩ :=
    run_cursorInside_iff (.windows <| .filled 0xCD) (Heap.filled_total _) (some [1, 2, 3]) (by simp)
  refine ⟨b, hb, (h _ ?_).mpr ?_⟩
  case refine_1 =>
    refine ⟨trivial, fun _ b' _ => ⟨fun _ => ?_, fun _ _ _ => ⟨trivial, fun _ _ _ => trivial⟩⟩⟩
    decide
  case refine_2 =>
    refine ⟨trivial, fun _ b' e => ⟨?_, fun _ _ _ => ⟨trivial, fun _ _ _ => trivial⟩⟩⟩
    cases hb
    cases e
    exact Nat.le_of_ble_eq_true rfl

-- The cursor is left behind the new end, so what is available wraps around.
theorem setLength_leaves_cursor :
    ∃ b b', create (.windows <| .filled 0xCD) (some [1, 2, 3]) = some b ∧
      (execPublic <| .windows <| .filled 0xCD).run [.setLength 1, .op .getAvailable] b =
        some ([.unit, .size 0xFFFFFFFE], b') ∧ ¬b'.CursorInside := by
  refine ⟨_, _, rfl, rfl, fun h => ?_⟩
  exact absurd h.position_le <| by decide

end AgBuffer
