import Mathlib
import MhoLauncher.Library.Bytes

open Bytes

-- The encodings UTF-16 and UTF-8.
namespace Unicode

def IsHigh (u : Word) : Prop :=
  0xD800 ≤ u.toNat ∧ u.toNat < 0xDC00

def IsLow (u : Word) : Prop :=
  0xDC00 ≤ u.toNat ∧ u.toNat < 0xE000

instance (u : Word) : Decidable (IsHigh u) :=
  inferInstanceAs <| Decidable (_ ∧ _)

instance (u : Word) : Decidable (IsLow u) :=
  inferInstanceAs <| Decidable (_ ∧ _)

-- A surrogate on its own is replaced.
def single (u : Word) : Char :=
  if IsHigh u ∨ IsLow u then '\uFFFD' else Char.ofNat u.toNat

def pair (u v : Word) : Char :=
  Char.ofNat (0x10000 + (u.toNat - 0xD800) * 0x400 + (v.toNat - 0xDC00))

def ofUTF16 : List Word → List Char
  | []          => []
  | [u]         => [single u]
  | u :: v :: s => if IsHigh u ∧ IsLow v then pair u v :: ofUTF16 s else single u :: ofUTF16 (v :: s)

def toUTF8 (s : List Char) : List Byte :=
  s.flatMap fun c => (String.utf8EncodeChar c).map UInt8.toBitVec

-- The lengths of the prefixes that end with a character.
def boundaries (s : List Char) : Set Nat :=
  { k | ∃ n, k = (toUTF8 <| s.take n).length }

variable {u v : Word} {s : List Word} {cs : List Char} {c : Char}

theorem pair_toNat (hu : IsHigh u) (hv : IsLow v) :
    (pair u v).toNat = 0x10000 + (u.toNat - 0xD800) * 0x400 + (v.toNat - 0xDC00) := by
  have hc : (0x10000 + (u.toNat - 0xD800) * 0x400 + (v.toNat - 0xDC00)).isValidChar := by
    rw [IsHigh] at hu
    rw [IsLow] at hv
    right
    omega
  rw [pair, Char.toNat_ofNat, if_pos hc]

theorem single_ne_nul (h : u ≠ 0) : single u ≠ '\x00' := by
  rw [single]
  split
  case isTrue => decide
  case isFalse hs =>
    rw [IsHigh, IsLow] at hs
    have hu := u.isLt
    have hc : u.toNat.isValidChar := by
      rw [Nat.isValidChar]
      omega
    intro he
    have hz := congrArg Char.toNat he
    rw [Char.toNat_ofNat, if_pos hc] at hz
    exact h <| BitVec.eq_of_toNat_eq hz

theorem nul_notMem_ofUTF16 (h : 0 ∉ s) : '\x00' ∉ ofUTF16 s := by
  fun_induction ofUTF16 s
  case case1 => exact List.not_mem_nil
  case case2 u =>
    have hu : u ≠ 0 := fun he => h <| he ▸ .head _
    simpa using (single_ne_nul hu).symm
  case case3 u v s hp hi =>
    have hn : pair u v ≠ '\x00' := by
      intro he
      have hz := congrArg Char.toNat he
      rw [pair_toNat hp.1 hp.2] at hz
      exact absurd hz <| by simp
    rw [List.mem_cons, not_or]
    exact ⟨hn.symm, hi fun hm => h <| .tail _ <| .tail _ hm⟩
  case case4 u v s hp hi =>
    have hu : u ≠ 0 := fun he => h <| he ▸ .head _
    rw [List.mem_cons, not_or]
    exact ⟨(single_ne_nul hu).symm, hi fun hm => h <| .tail _ hm⟩

theorem zero_notMem_utf8EncodeChar (h : c ≠ '\x00') : 0 ∉ String.utf8EncodeChar c := by
  have hc : c.val.toNat ≠ 0 := fun he => h <| Char.ext <| UInt32.toNat_inj.mp he
  have hv : c.val.toNat < 0x110000 := by
    have := c.valid
    rw [UInt32.isValidChar, Nat.isValidChar] at this
    omega
  have hb {n : Nat} {l : List UInt8} (hn : n % 256 ≠ 0) (hl : 0 ∉ l) : 0 ∉ UInt8.ofNat n :: l := by
    rw [List.mem_cons, not_or]
    exact ⟨fun he => hn (congrArg UInt8.toNat he).symm, hl⟩
  fun_cases String.utf8EncodeChar c
  case case1 => exact hb (by omega) List.not_mem_nil
  case case2 => exact hb (by omega) <| hb (by omega) List.not_mem_nil
  case case3 => exact hb (by omega) <| hb (by omega) <| hb (by omega) List.not_mem_nil
  case case4 => exact hb (by omega) <| hb (by omega) <| hb (by omega) <| hb (by omega) List.not_mem_nil

theorem zero_notMem_toUTF8 (h : '\x00' ∉ cs) : 0 ∉ toUTF8 cs := by
  intro hz
  have ⟨c, hc, hm⟩ := List.mem_flatMap.mp hz
  have ⟨b, hb, he⟩ := List.mem_map.mp hm
  have hn : c ≠ '\x00' := fun he => h <| he ▸ hc
  have hb₀ : b = 0 := UInt8.toBitVec_inj.mp he
  exact zero_notMem_utf8EncodeChar hn <| hb₀ ▸ hb

theorem pair_utf8Size (hu : IsHigh u) (hv : IsLow v) : (pair u v).utf8Size = 4 := by
  have ht : 0x10000 ≤ (pair u v).val.toNat := by
    have := pair_toNat hu hv
    rw [Char.toNat] at this
    omega
  have hl {n : UInt32} (hn : n.toNat < 0x10000) : ¬(pair u v).val ≤ n := by
    rw [UInt32.le_iff_toNat_le]
    omega
  rw [Char.utf8Size]
  exact (if_neg <| hl (by decide)).trans <| (if_neg <| hl (by decide)).trans <| if_neg <| hl (by decide)

theorem length_toUTF8_cons (c : Char) (cs : List Char) :
    (toUTF8 (c :: cs)).length = c.utf8Size + (toUTF8 cs).length := by
  rw [toUTF8, List.flatMap_cons, List.length_append, List.length_map, String.length_utf8EncodeChar, toUTF8]

-- A pair of units becomes four bytes, and every other unit becomes at least one.
theorem length_le_toUTF8 (s : List Word) : s.length ≤ (toUTF8 <| ofUTF16 s).length := by
  fun_induction ofUTF16 s
  case case1 => exact Nat.zero_le _
  case case2 u =>
    rw [length_toUTF8_cons, List.length_singleton]
    exact Nat.le_add_right_of_le <| Char.utf8Size_pos _
  case case3 u v s h hi =>
    rw [length_toUTF8_cons, pair_utf8Size h.1 h.2, List.length_cons, List.length_cons]
    omega
  case case4 u v s _ hi =>
    have hp := (single u).utf8Size_pos
    rw [length_toUTF8_cons, List.length_cons]
    omega

end Unicode
