import Mathlib
import MhoLauncher.Library.X86.Basic

namespace X86

-- The flags that an addition sets.
def statusFlags : DWord := 0x8D5

variable {f g x y : DWord} {i j : Nat} {b : Bool}

theorem getLsbD_setFlag (h : i < 32) : (setFlag f i b).getLsbD j = if j = i then b else f.getLsbD j := by
  have hm : ((1 : DWord) <<< i).getLsbD j = decide (j = i) := by
    rw [BitVec.getLsbD_shiftLeft, show (1 : DWord) = 1#32 from rfl, BitVec.getLsbD_one, Bool.eq_iff_iff]
    simp only [Bool.and_eq_true, Bool.not_eq_true', decide_eq_true_eq, decide_eq_false_iff_not]
    omega
  by_cases hj : j < 32
  case neg =>
    have hi : j ≠ i := by omega
    have hj := Nat.le_of_not_lt hj
    rw [BitVec.getLsbD_of_ge _ _ hj, BitVec.getLsbD_of_ge _ _ hj, if_neg hi]
  case pos =>
    cases b
    case false =>
      rw [setFlag, if_neg Bool.false_ne_true, BitVec.getLsbD_and, BitVec.getLsbD_not, hm]
      by_cases he : j = i <;> simp [he, hj]
    case true =>
      rw [setFlag, if_pos rfl, BitVec.getLsbD_or, hm]
      by_cases he : j = i <;> simp [he]

theorem getLsbD_statusFlags : ∀ j < 32, statusFlags.getLsbD j = decide (j ∈ [0, 2, 4, 6, 7, 11]) := by
  decide

theorem getLsbD_addFlags (h : j < 32) :
    (addFlags f x y).getLsbD j =
      if statusFlags.getLsbD j then (addFlags 0 x y).getLsbD j else f.getLsbD j := by
  rw [getLsbD_statusFlags j h]
  simp (disch := decide) only [addFlags, getLsbD_setFlag]
  by_cases hj : j ∈ [0, 2, 4, 6, 7, 11]
  case neg =>
    simp only [List.mem_cons, List.not_mem_nil, or_false, not_or] at hj
    simp only [hj, decide_false, if_false, List.mem_cons, List.not_mem_nil, or_false, Bool.false_eq_true]
  case pos =>
    rw [decide_eq_true hj, if_pos rfl]
    simp only [List.mem_cons, List.not_mem_nil, or_false] at hj
    obtain rfl | rfl | rfl | rfl | rfl | rfl := hj <;> rfl

-- An addition replaces the status flags and keeps the others.
theorem addFlags_eq_iff :
    addFlags f x y = g ↔ g &&& statusFlags = addFlags 0 x y ∧ f &&& ~~~statusFlags = g &&& ~~~statusFlags := by
  simp only [BitVec.eq_of_getLsbD_eq_iff, BitVec.getLsbD_and, BitVec.getLsbD_not, ←forall_and]
  refine forall₂_congr fun j hj => ?_
  have h₀ := getLsbD_addFlags (f := 0) (x := x) (y := y) hj
  rw [getLsbD_addFlags hj]
  cases hs : statusFlags.getLsbD j
  case true  => simp [eq_comm]
  case false => simp_all

end X86
