import MhoLauncher.AgBuffer.Endianness

open Bytes

namespace AgBuffer

-- The bytes that an integer consists of in memory.
def representation (σ : Platform) (n : Nat) (x : BitVec w) : List Byte :=
  match σ.endianness with
  | .small => toLE n x
  | .big   => (toLE n x).reverse

def getSystemEndianness (σ : Platform) : Endianness :=
  let value : DWord := 0x01
  if (representation σ 4 value).head? = some 0x01 then .small else .big

def swapEndianness64 (σ : Platform) (x : QWord) (e : Endianness) : QWord :=
  if e ≠ σ.endianness then
    let x := (x >>> 32) ||| (x <<< 32)
    let x := ((x &&& 0xFFFF0000FFFF0000) >>> 16) ||| ((x &&& 0x0000FFFF0000FFFF) <<< 16)
    ((x &&& 0xFF00FF00FF00FF00) >>> 8) ||| ((x &&& 0x00FF00FF00FF00FF) <<< 8)
  else
    x

-- The pointers are positions in the array, where the end of an empty array lies before its start.
-- Accesses outside of the array fail.
def swapEndianness.loop (data : List Byte) (p : Nat) (dataEnd : Int) : Option (List Byte) :=
  if p < dataEnd then do
    let temp ← data[p]?
    let last ← data[dataEnd.toNat]?
    loop (data.set p last |>.set dataEnd.toNat temp) (p + 1) (dataEnd - 1)
  else
    some data
termination_by (dataEnd - p).toNat

def swapEndianness (σ : Platform) (data : List Byte) (length : Nat) (e : Endianness) : Option (List Byte) :=
  if e ≠ σ.endianness then swapEndianness.loop data 0 (length - 1) else some data

section Integers

variable {σ : Platform} {e : Endianness}

theorem getSystemEndianness_eq : getSystemEndianness σ = σ.endianness := by
  cases h : σ.endianness <;> simp only [getSystemEndianness, representation, h] <;> decide

theorem toLE_swapEndianness64 (x : QWord) (h : e ≠ σ.endianness) :
    toLE 8 (swapEndianness64 σ x e) = (toLE 8 x).reverse := by
  refine toLE_eq_reverse fun i hi => ?_
  have hr : ∀ i < 64, exchanged 8 i < 64 ∧ exchanged 16 (exchanged 8 i) < 64 ∧
      exchanged 32 (exchanged 16 (exchanged 8 i)) = reversed 8 i := by decide
  obtain ⟨h₁, h₂, he⟩ := hr i hi
  rw [swapEndianness64, if_pos h, getLsbD_exchange (by decide) (by decide) (by decide) hi,
    getLsbD_exchange (by decide) (by decide) (by decide) h₁, getLsbD_halves (k := 32) rfl h₂, he]

-- An overload for integers of `n` bytes reverses their bytes.
structure Swaps (σ : Platform) (n : Nat) (e : Endianness) (swap : BitVec w → BitVec w) : Prop where
  width : w = 8 * n
  bytes : ∀ x, toLE n (swap x) = if e = σ.endianness then toLE n x else (toLE n x).reverse

theorem swaps_swapEndianness16 : Swaps σ 2 e (swapEndianness16 σ · e) where
  width   := rfl
  bytes x := toLE_swapEndianness16 (s := ⟨∅, e⟩) x

theorem swaps_swapEndianness32 : Swaps σ 4 e (swapEndianness32 σ · e) where
  width   := rfl
  bytes x := toLE_swapEndianness32 (s := ⟨∅, e⟩) x

theorem swaps_swapEndianness64 : Swaps σ 8 e (swapEndianness64 σ · e) where
  width := rfl
  bytes x := by
    by_cases h : e = σ.endianness
    case pos => rw [swapEndianness64, if_neg (not_not.mpr h), if_pos h]
    case neg => rw [toLE_swapEndianness64 x h, if_neg h]

variable {n : Nat} {swap : BitVec w → BitVec w}

theorem Swaps.representation (s : Swaps σ n e swap) (x : BitVec w) :
    AgBuffer.representation σ n (swap x) =
    if e = σ.endianness then AgBuffer.representation σ n x else (AgBuffer.representation σ n x).reverse := by
  simp only [AgBuffer.representation, s.bytes]
  cases σ.endianness <;> cases e <;> simp

theorem Swaps.involutive (s : Swaps σ n e swap) : Function.Involutive swap := by
  intro x
  refine toLE_injective s.width.le ?_
  rw [s.bytes, s.bytes]
  split
  case isTrue  => rfl
  case isFalse => exact List.reverse_reverse _

end Integers

section Buffer

variable {σ : Platform} {e : Endianness} {bs rest : List Byte}

-- The bytes between the two pointers are those that have not changed places yet.
theorem loop_eq (pre mid post : List Byte) :
    swapEndianness.loop (pre ++ mid ++ post) pre.length (pre.length + mid.length - 1) =
      some (pre ++ mid.reverse ++ post) := by
  induction mid using List.bidirectionalRec generalizing pre post
  case nil =>
    rw [swapEndianness.loop, if_neg (by simp)]
    rfl
  case singleton a =>
    rw [swapEndianness.loop, if_neg (by simp)]
    rfl
  case cons_append a mid b hi =>
    have he : (pre.length : Int) + (a :: (mid ++ [b])).length - 1 = (pre.length + (mid.length + 1) : Nat) := by
      simp
      omega
    have hd : pre ++ a :: (mid ++ [b]) ++ post = pre ++ a :: (mid ++ b :: post) := by simp
    have h₁ : (pre ++ a :: (mid ++ b :: post))[pre.length]? = some a := by simp
    have h₂ : (pre ++ a :: (mid ++ b :: post))[pre.length + (mid.length + 1)]? = some b := by simp
    have hs : ((pre ++ a :: (mid ++ b :: post)).set pre.length b).set (pre.length + (mid.length + 1)) a =
        pre ++ [b] ++ mid ++ a :: post := by simp
    have hi := hi (pre ++ [b]) (a :: post)
    have hp : ((pre ++ [b]).length : Int) + mid.length - 1 = (pre.length + (mid.length + 1) : Nat) - 1 := by
      simp
      omega
    rw [hp, List.length_append] at hi
    rw [swapEndianness.loop, he, hd, if_pos (by omega), h₁, Int.toNat_natCast, h₂]
    simp only [Option.bind_eq_bind, Option.bind_some, hs]
    refine hi.trans ?_
    simp

theorem swapEndianness_eq (bs rest : List Byte) :
    swapEndianness σ (bs ++ rest) bs.length e =
      some ((if e = σ.endianness then bs else bs.reverse) ++ rest) := by
  have hl := loop_eq [] bs rest
  simp only [List.nil_append, List.length_nil, Nat.cast_zero, Int.zero_add] at hl
  by_cases h : e = σ.endianness
  case pos => rw [swapEndianness, if_neg (not_not.mpr h), if_pos h]
  case neg => rw [swapEndianness, if_pos h, if_neg h, hl]

theorem swapEndianness_twice (bs rest : List Byte) :
    (swapEndianness σ (bs ++ rest) bs.length e).bind (swapEndianness σ · bs.length e) = some (bs ++ rest) := by
  have hl : bs.length = (if e = σ.endianness then bs else bs.reverse).length := by
    split <;> simp
  rw [swapEndianness_eq, Option.bind_some, hl, swapEndianness_eq]
  split
  case isTrue  => rfl
  case isFalse => rw [List.reverse_reverse]

-- The bytes of an integer are swapped like those of a buffer.
theorem Swaps.buffer {n : Nat} {swap : BitVec w → BitVec w} (s : Swaps σ n e swap) (x : BitVec w) :
    swapEndianness σ (AgBuffer.representation σ n x) n e = some (AgBuffer.representation σ n (swap x)) := by
  have hl : (AgBuffer.representation σ n x).length = n := by
    rw [AgBuffer.representation]
    split <;> simp
  have hb := swapEndianness_eq (σ := σ) (e := e) (AgBuffer.representation σ n x) []
  rwa [List.append_nil, List.append_nil, hl, ←s.representation] at hb

end Buffer

-- The bytes behind those that are swapped can be missing, so none of them is accessed.
theorem swapEndianness_agree (σ : Platform) (e : Endianness) :
    (∀ bs rest, swapEndianness σ (bs ++ rest) bs.length e =
      some ((if e = σ.endianness then bs else bs.reverse) ++ rest)) ∧
    (∀ bs rest, (swapEndianness σ (bs ++ rest) bs.length e).bind (swapEndianness σ · bs.length e) =
      some (bs ++ rest)) ∧
    (∀ x, swapEndianness σ (representation σ 2 x) 2 e = some (representation σ 2 (swapEndianness16 σ x e))) ∧
    (∀ x, swapEndianness σ (representation σ 4 x) 4 e = some (representation σ 4 (swapEndianness32 σ x e))) ∧
    (∀ x, swapEndianness σ (representation σ 8 x) 8 e = some (representation σ 8 (swapEndianness64 σ x e))) ∧
    Function.Involutive (swapEndianness16 σ · e) ∧ Function.Involutive (swapEndianness32 σ · e) ∧
    Function.Involutive (swapEndianness64 σ · e) :=
  ⟨swapEndianness_eq, swapEndianness_twice, swaps_swapEndianness16.buffer, swaps_swapEndianness32.buffer,
    swaps_swapEndianness64.buffer, swaps_swapEndianness16.involutive, swaps_swapEndianness32.involutive,
    swaps_swapEndianness64.involutive⟩

end AgBuffer
