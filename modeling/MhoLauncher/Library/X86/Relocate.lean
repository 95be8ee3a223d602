import Mathlib
import MhoLauncher.Library.X86.Format

open Bytes

namespace X86

deriving instance DecidableEq for Format

-- The bytes are those of instructions none of whose operands is relative to the `eip`.
def Relocatable (bs : List Byte) : Prop :=
  ∃ es : List Encoding, es.flatMap Encoding.bytes = bs ∧ ∀ e ∈ es, ¬e.format.isRelative

-- Looks for the boundaries of the first `n` instructions.
def relocates : Nat → List Byte → Bool
  | _,     []      => true
  | 0,     _       => false
  | n + 1, b :: bs =>
    match format (b :: bs) with
    | none   => false
    | some f =>
      let own := (b :: bs).take f.length
      own.length = f.length ∧ format own = some f ∧ ¬f.isRelative ∧ relocates n ((b :: bs).drop f.length)

variable {n : Nat} {bs : List Byte}

theorem Relocatable.of_relocates (h : relocates n bs) : Relocatable bs := by
  fun_induction relocates n bs
  case case1 => exact ⟨[], rfl, nofun⟩
  case case2 => contradiction
  case case3 => contradiction
  case case4 n b bs f hf own hi =>
    have ⟨hl, ho, hr, hn⟩ := of_decide_eq_true h
    have ⟨es, he, hs⟩ := hi hn
    refine ⟨⟨own, f, ho, hl.symm⟩ :: es, ?_, ?_⟩
    case refine_1 => rw [List.flatMap_cons, he, List.take_append_drop]
    case refine_2 =>
      intro e hm
      cases hm
      case head    => exact hr
      case tail hm => exact hs e hm

end X86
