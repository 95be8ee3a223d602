import MhoLauncher.AgBuffer.Block

open Bytes

namespace AgBuffer

variable {σ : Platform} {b b' : AgBuffer} {w w' : List Byte} {e : Endianness} {n : Nat}

def skip (b : AgBuffer) (n : Nat) : AgBuffer :=
  { b with position := b.position + n }

-- The bytes at the cursor, all of which are below `virtualLength`.
structure Ahead (b : AgBuffer) (w : List Byte) : Prop where
  bytes       : ∀ i v, w[i]? = some v → b.data[b.position + i]? = some v
  data_le     : b.position + w.length ≤ b.data.length
  virtual_le  : b.position + w.length ≤ b.virtualLength
  end_lt      : b.position + w.length < 2 ^ 32

theorem Ahead.skip (a : b.Ahead (w ++ w')) : (b.skip w.length).Ahead w' := by
  have := a.data_le
  have := a.virtual_le
  have := a.end_lt
  simp only [List.length_append] at *
  constructor <;> rw [AgBuffer.skip]
  case bytes =>
    intro i v hi
    rw [Nat.add_assoc]
    exact a.bytes _ _ <| by rw [List.getElem?_append_right (by omega), Nat.add_sub_cancel_left, hi]
  all_goals simp only; omega

theorem Ahead.load (a : b.Ahead (w ++ w')) : b.load b.position w.length = some w := by
  have := a.data_le
  rw [List.length_append] at this
  rw [AgBuffer.load, if_pos (by omega), Option.some.injEq]
  refine List.ext_getElem? fun i => ?_
  by_cases hi : i < w.length
  case pos =>
    rw [List.getElem?_take_of_lt hi, List.getElem?_drop, List.getElem?_eq_getElem hi]
    exact a.bytes _ _ <| by rw [List.getElem?_append_left hi, List.getElem?_eq_getElem hi]
  case neg =>
    rw [List.getElem?_eq_none (by simp; omega), List.getElem?_eq_none (by omega)]

-- A computation reads the bytes `w` that are at the cursor, and thereby gets the value `a`.
def Reads (e : Endianness) (p : M α) (w : List Byte) (a : α) : Prop :=
  ∀ ⦃b w'⦄, b.endianness = e → b.Ahead (w ++ w') → p b = some (a, b.skip w.length)

namespace Reads

theorem pure (a : α) : Reads e (pure a) [] a :=
  fun _ _ _ _ => rfl

theorem bind {p : M α} {q : α → M β} {a : α} {a' : β} (hp : Reads e p w a) (hq : Reads e (q a) w' a') :
    Reads e (p >>= q) (w ++ w') a' := by
  intro b w'' he ha
  rw [List.append_assoc] at ha
  have h := hq (b := b.skip w.length) he ha.skip
  rw [M.bind_apply, hp he ha, Option.bind_some, h, skip, skip, skip, List.length_append, Nat.add_assoc]

theorem map {p : M α} {f : α → β} {a : α} (hp : Reads e p w a) : Reads e (f <$> p) w (f a) := by
  intro b w' he ha
  rw [M.map_apply, hp he ha, Option.map_some]

-- A value is decoded in the byte order of the buffer.
theorem order {f : Endianness → α} {a : α} (h : f e = a) : Reads e (do return f (← get).endianness) [] a := by
  intro b _ he _
  cases he
  cases h
  rfl

theorem readU8 (v : Byte) : Reads e readU8 [v] v := by
  intro b w' _ ha
  have hd : b.data[b.position]? = some v := ha.bytes 0 v rfl
  have hl := ha.virtual_le
  have ht := ha.end_lt
  rw [List.length_append, List.length_singleton] at hl ht
  rw [AgBuffer.readU8, if_neg (by omega), hd, skip, List.length_singleton, sizeT_eq (by omega)]
  rfl

theorem readU16 (v : Word) : Reads e (readU16 σ) (toLE 2 <| swapEndianness16 σ v e) v := by
  refine bind (w := [_]) (readU8 _) <| bind (w := [_]) (readU8 _) <| order ?_
  rw [←ofLE_two, ←toLE_two, ofLE_toLE _ (by simp), swapEndianness16_involutive]

theorem readU32 (v : DWord) : Reads e (readU32 σ) (toLE 4 <| swapEndianness32 σ v e) v := by
  rw [toLE_four]
  refine bind (w := [_]) (readU8 _) <| bind (w := [_]) (readU8 _) <| bind (w := [_]) (readU8 _) <|
    bind (w := [_]) (readU8 _) <| order ?_
  rw [←ofLE_four, ←toLE_four, ofLE_toLE _ (by simp), swapEndianness32_involutive]

theorem readString_loop {s : List Byte} (hs : 0 ∉ s) {fuel : Nat} (hf : s.length < fuel) :
    Reads e (readString.loop fuel) (s ++ [0]) s := by
  induction s generalizing fuel
  case nil =>
    cases fuel
    case zero => contradiction
    case succ =>
      rw [List.nil_append, ←List.append_nil [0]]
      exact bind (readU8 0) <| pure []
  case cons v s hi =>
    cases fuel
    case zero => contradiction
    case succ fuel =>
      have ⟨hv, hs⟩ := not_or.mp <| mt List.mem_cons.mpr hs
      rw [List.cons_append, ←List.singleton_append]
      refine bind (readU8 v) ?_
      rw [if_neg <| Ne.symm hv, ←List.append_nil (s ++ [0])]
      exact bind (hi hs <| Nat.lt_of_succ_lt_succ hf) <| pure _

theorem readString {s : List Byte} (hs : 0 ∉ s) : Reads e readString (s ++ [0]) s := by
  intro b w' he ha
  have := ha.virtual_le
  simp only [List.length_append] at this
  exact readString_loop hs (by omega) he ha

theorem readData (src dst : List Byte) :
    Reads e (readData (some dst) src.length) src (some <| src ++ dst.drop src.length) := by
  intro b w' _ ha
  have hl := ha.virtual_le
  have ht := ha.end_lt
  rw [List.length_append] at hl ht
  have hs := sizeT_eq (n := b.position + src.length) (by omega)
  simp only [AgBuffer.readData, hs, ha.load]
  rw [if_neg (by omega), if_neg (by omega)]
  rfl

end Reads
end AgBuffer
