import Mathlib
import MhoLauncher.Library.Bytes

namespace Bytes

variable {w n k i : Nat} {x y : BitVec w}

-- Where a bit comes from if adjacent blocks of `k` bits change their places.
def exchanged (k i : Nat) : Nat :=
  if i / k % 2 = 0 then i + k else i - k

-- Where a bit comes from if the order of `n` bytes is reversed.
def reversed (n i : Nat) : Nat :=
  8 * (n - 1 - i / 8) + i % 8

section Exchange

variable {hi lo : BitVec w} (hk : 0 < k)

include hk

-- The mask selects the upper block of every pair.
theorem getLsbD_upper (hh : ∀ i < w, hi.getLsbD i = decide (i / k % 2 = 1)) :
    (x &&& hi).getLsbD (i + k) = (decide (i / k % 2 = 0) && x.getLsbD (i + k)) := by
  have hd : (i + k) / k = i / k + 1 := Nat.add_div_right i hk
  rw [BitVec.getLsbD_and, Bool.and_comm]
  by_cases hw : i + k < w
  case pos => rw [hh _ hw, hd]; congr 2; exact propext <| by omega
  case neg => rw [x.getLsbD_of_ge _ <| Nat.le_of_not_lt hw, Bool.and_false, Bool.and_false]

-- The mask selects the lower block of every pair.
theorem getLsbD_lower (hl : ∀ i < w, lo.getLsbD i = decide (i / k % 2 = 0)) (h : i < w) (hi : k ≤ i) :
    (x &&& lo).getLsbD (i - k) = (decide (i / k % 2 = 1) && x.getLsbD (i - k)) := by
  have hd : i / k = (i - k) / k + 1 := Nat.div_eq_sub_div hk hi
  rw [BitVec.getLsbD_and, Bool.and_comm, hl _ (by omega), hd]
  congr 2
  exact propext <| by omega

-- The two shifts exchange the blocks that the masks select.
theorem getLsbD_exchange (hh : ∀ i < w, hi.getLsbD i = decide (i / k % 2 = 1))
    (hl : ∀ i < w, lo.getLsbD i = decide (i / k % 2 = 0)) (h : i < w) :
    (((x &&& hi) >>> k) ||| ((x &&& lo) <<< k)).getLsbD i = x.getLsbD (exchanged k i) := by
  rw [BitVec.getLsbD_or, BitVec.getLsbD_ushiftRight, BitVec.getLsbD_shiftLeft, Nat.add_comm k i,
    getLsbD_upper hk hh, exchanged]
  by_cases hi : i < k
  case pos =>
    have he : i / k % 2 = 0 := by rw [Nat.div_eq_of_lt hi]
    simp [hi, he]
  case neg =>
    rw [getLsbD_lower hk hl h (Nat.le_of_not_lt hi)]
    rcases Nat.mod_two_eq_zero_or_one (i / k) with he | he <;> simp [hi, he, h]

end Exchange

-- The exchange of the two halves needs no masks.
theorem getLsbD_halves (hw : w = 2 * k) (h : i < w) :
    ((x >>> k) ||| (x <<< k)).getLsbD i = x.getLsbD (exchanged k i) := by
  rw [BitVec.getLsbD_or, BitVec.getLsbD_ushiftRight, BitVec.getLsbD_shiftLeft, Nat.add_comm k i, exchanged]
  by_cases hi : i < k
  case pos =>
    have he : i / k % 2 = 0 := by rw [Nat.div_eq_of_lt hi]
    simp [hi, he]
  case neg =>
    have hd : i / k = 1 := Nat.div_eq_of_lt_le (by omega) (by omega)
    have hr : x.getLsbD (i + k) = false := x.getLsbD_of_ge _ <| by omega
    simp [hi, hd, hr, h]

theorem getElem?_toLE (x : BitVec w) (hi : i < n) : (toLE n x)[i]? = some ((x >>> (8 * i)).setWidth 8) := by
  induction n generalizing x i
  case zero => omega
  case succ n hn =>
    cases i
    case zero => simp [toLE]
    case succ i =>
      rw [toLE, List.getElem?_cons_succ, hn _ (by omega), ←BitVec.shiftRight_add, Nat.mul_succ, Nat.add_comm]

-- The bytes of a word are those of another one in reverse order if all bits are.
theorem toLE_eq_reverse (h : ∀ i < 8 * n, y.getLsbD i = x.getLsbD (reversed n i)) :
    toLE n y = (toLE n x).reverse := by
  refine List.ext_getElem? fun i => ?_
  by_cases hi : i < n
  case neg => rw [List.getElem?_eq_none (by simpa using hi), List.getElem?_eq_none (by simpa using hi)]
  case pos =>
    rw [List.getElem?_reverse (by simpa using hi), toLE_length, getElem?_toLE _ hi, getElem?_toLE _ (by omega)]
    refine congrArg some <| BitVec.eq_of_getLsbD_eq fun j hj => ?_
    have hr : reversed n (8 * i + j) = 8 * (n - 1 - i) + j := by
      rw [reversed]
      omega
    simp only [BitVec.getLsbD_setWidth, BitVec.getLsbD_ushiftRight, h _ (show 8 * i + j < 8 * n by omega), hr]

end Bytes
