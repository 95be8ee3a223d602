import Mathlib

abbrev Byte := BitVec 8

abbrev Word := BitVec 16

abbrev DWord := BitVec 32

abbrev QWord := BitVec 64

namespace Bytes

-- The lowest `n` bytes of a word, least significant byte first.
def toLE : Nat → BitVec w → List Byte
  | 0,     _ => []
  | n + 1, x => x.setWidth 8 :: toLE n (x >>> 8)

-- The word whose lowest bytes are the given ones, least significant byte first.
def ofLE (w : Nat) : List Byte → BitVec w
  | []      => 0
  | b :: bs => b.setWidth w ||| (ofLE w bs <<< 8)

variable {w : Nat}

@[simp]
theorem toLE_length (n : Nat) (x : BitVec w) : (toLE n x).length = n := by
  induction n generalizing x <;> simp_all [toLE]

theorem getLsbD_ofLE_toLE (n : Nat) (x : BitVec w) (i : Nat) :
    (ofLE w (toLE n x)).getLsbD i = (decide (i < 8 * n) && x.getLsbD i) := by
  induction n generalizing x i <;> simp only [toLE, ofLE]
  case zero => simp
  case succ n hi =>
    simp only [BitVec.getLsbD_or, BitVec.getLsbD_shiftLeft, BitVec.getLsbD_setWidth, hi,
      BitVec.getLsbD_ushiftRight]
    by_cases hw : i < w
    case neg => simp [hw, x.getLsbD_of_ge i (by omega)]
    case pos =>
      by_cases hl : i < 8
      case pos => simp [hw, hl, show i < 8 * (n + 1) by omega]
      case neg =>
        have hs : 8 + (i - 8) = i := by omega
        have hn : (i - 8 < 8 * n) ↔ (i < 8 * (n + 1)) := by omega
        simp [hw, hl, hs, hn]

theorem ofLE_toLE {n : Nat} (x : BitVec w) (h : w ≤ 8 * n) : ofLE w (toLE n x) = x := by
  apply BitVec.eq_of_getLsbD_eq
  intro i hi
  have : i < 8 * n := by omega
  simp [getLsbD_ofLE_toLE, this]

theorem toLE_injective {n : Nat} (h : w ≤ 8 * n) : Function.Injective (toLE n : BitVec w → _) :=
  fun x y e => by rw [←ofLE_toLE x h, ←ofLE_toLE y h, e]

theorem getLsbD_ofLE_of_ge (bs : List Byte) (i : Nat) (h : 8 * bs.length ≤ i) :
    (ofLE w bs).getLsbD i = false := by
  induction bs generalizing i <;> simp only [ofLE]
  case nil => simp
  case cons b bs hi =>
    simp only [List.length_cons] at h
    have : ¬ i < 8 := by omega
    simp [this, hi (i - 8) (by omega), b.getLsbD_of_ge i (by omega)]

theorem ofLE_cons_shift (b : Byte) {bs : List Byte} (h : 8 * (bs.length + 1) ≤ w) :
    ofLE w (b :: bs) >>> 8 = ofLE w bs := by
  apply BitVec.eq_of_getLsbD_eq
  intro i hi
  simp only [ofLE, BitVec.getLsbD_ushiftRight, BitVec.getLsbD_or, BitVec.getLsbD_setWidth,
    BitVec.getLsbD_shiftLeft]
  by_cases hw : 8 + i < w
  case pos => simp [hw]
  case neg => simp [hw, getLsbD_ofLE_of_ge bs i (by omega)]

theorem toLE_ofLE (bs : List Byte) (h : 8 * bs.length ≤ w) : toLE bs.length (ofLE w bs) = bs := by
  induction bs
  case nil => rfl
  case cons b bs hi =>
    simp only [List.length_cons] at h
    simp only [List.length_cons, toLE, ofLE_cons_shift b h, hi (by omega), List.cons.injEq, and_true]
    apply BitVec.eq_of_getLsbD_eq
    intro i hi
    have : i < w := by omega
    simp [ofLE, this, hi]

@[simp]
theorem toLE_one (b : Byte) : toLE 1 b = [b] := by
  simp [toLE]

theorem toLE_two (x : Word) : toLE 2 x = [x.setWidth 8, (x >>> 8).setWidth 8] :=
  rfl

theorem toLE_four (x : DWord) :
    toLE 4 x = [x.setWidth 8, (x >>> 8).setWidth 8, (x >>> 16).setWidth 8, (x >>> 24).setWidth 8] := by
  simp [toLE, ←BitVec.shiftRight_add]

theorem ofLE_two (b₀ b₁ : Byte) : ofLE 16 [b₀, b₁] = b₀.setWidth 16 ||| (b₁.setWidth 16 <<< 8) := by
  simp [ofLE]

theorem ofLE_four (b₀ b₁ b₂ b₃ : Byte) :
    ofLE 32 [b₀, b₁, b₂, b₃] =
    b₀.setWidth 32 ||| (b₁.setWidth 32 <<< 8) ||| (b₂.setWidth 32 <<< 16) ||| (b₃.setWidth 32 <<< 24) := by
  simp [ofLE, BitVec.shiftLeft_or_distrib, ←BitVec.shiftLeft_add, BitVec.or_assoc]

theorem flatMap_toLE_length (n : Nat) (vs : List (BitVec w)) :
    (vs.flatMap <| toLE n).length = n * vs.length := by
  induction vs
  case nil => rfl
  case cons v vs hi =>
    rw [List.flatMap_cons, List.length_append, hi, toLE_length, List.length_cons, Nat.mul_succ, Nat.add_comm]

-- The bytes of the `i`-th word of a sequence.
theorem flatMap_toLE_slice {n i : Nat} {vs : List (BitVec w)} {v : BitVec w} (h : vs[i]? = some v) :
    ((vs.flatMap <| toLE n).drop (n * i)).take n = toLE n v := by
  induction vs generalizing i
  case nil => contradiction
  case cons u vs hi =>
    cases i
    case zero =>
      cases h
      simp
    case succ i =>
      have hl : n * (i + 1) = (toLE n u).length + n * i := by simp [Nat.mul_succ, Nat.add_comm]
      rw [List.flatMap_cons, hl, List.drop_length_add_append]
      exact hi h

theorem flatMap_toLE_injective {n : Nat} (h : w ≤ 8 * n) {us vs : List (BitVec w)}
    (hl : us.length = vs.length)
    (he : us.flatMap (toLE n) = vs.flatMap (toLE n)) : us = vs := by
  induction us generalizing vs <;> cases vs <;> try contradiction
  case nil.nil => rfl
  case cons.cons u us hi v vs =>
    rw [List.flatMap_cons, List.flatMap_cons] at he
    have ⟨h₁, h₂⟩ := List.append_inj he <| by rw [toLE_length, toLE_length]
    rw [toLE_injective h h₁, hi (Nat.succ.inj hl) h₂]

end Bytes
