import MhoLauncher.Library.ByteOrder
import MhoLauncher.AgBuffer.Spec

open Bytes

namespace AgBuffer

variable {σ : Platform} {host : Endianness} {s : Stream}

theorem toLE_swapEndianness16 (x : Word) :
    toLE 2 (swapEndianness16 σ x s.endianness) = s.order σ.endianness (toLE 2 x) := by
  by_cases h : s.endianness = σ.endianness
  case pos => simp [swapEndianness16, Stream.order, h]
  case neg =>
    rw [swapEndianness16, Stream.order, if_pos h, if_neg h]
    refine toLE_eq_reverse fun i hi => ?_
    have hr : ∀ i < 16, exchanged 8 i = reversed 2 i := by decide
    rw [getLsbD_halves (k := 8) rfl hi, hr i hi]

theorem toLE_swapEndianness32 (x : DWord) :
    toLE 4 (swapEndianness32 σ x s.endianness) = s.order σ.endianness (toLE 4 x) := by
  by_cases h : s.endianness = σ.endianness
  case pos => simp [swapEndianness32, Stream.order, h]
  case neg =>
    rw [swapEndianness32, Stream.order, if_pos h, if_neg h]
    refine toLE_eq_reverse fun i hi => ?_
    have hr : ∀ i < 32, exchanged 8 i < 32 ∧ exchanged 16 (exchanged 8 i) = reversed 4 i := by decide
    obtain ⟨h₁, he⟩ := hr i hi
    rw [getLsbD_exchange (by decide) (by decide) (by decide) hi, getLsbD_halves (k := 16) rfl h₁, he]

@[simp]
theorem Stream.order_length (bs : List Byte) : (s.order host bs).length = bs.length := by
  by_cases h : s.endianness = host <;> simp [order, h]

@[simp]
theorem Stream.order_order (bs : List Byte) : s.order host (s.order host bs) = bs := by
  by_cases h : s.endianness = host <;> simp [order, h]

theorem swapEndianness16_involutive (x : Word) (e : Endianness) :
    swapEndianness16 σ (swapEndianness16 σ x e) e = x := by
  apply toLE_injective (n := 2) (by simp)
  rw [toLE_swapEndianness16 (s := ⟨∅, e⟩), toLE_swapEndianness16 (s := ⟨∅, e⟩), Stream.order_order]

theorem swapEndianness32_involutive (x : DWord) (e : Endianness) :
    swapEndianness32 σ (swapEndianness32 σ x e) e = x := by
  apply toLE_injective (n := 4) (by simp)
  rw [toLE_swapEndianness32 (s := ⟨∅, e⟩), toLE_swapEndianness32 (s := ⟨∅, e⟩), Stream.order_order]

theorem swapEndianness16_ofLE {bs : List Byte} (h : bs.length = 2) :
    swapEndianness16 σ (ofLE 16 bs) s.endianness = ofLE 16 (s.order σ.endianness bs) := by
  apply toLE_injective (n := 2) (by simp)
  have h₁ := toLE_ofLE (w := 16) bs (by omega)
  have h₂ := toLE_ofLE (w := 16) (s.order σ.endianness bs) (by simp; omega)
  rw [Stream.order_length] at h₂
  rw [h] at h₁ h₂
  rw [toLE_swapEndianness16, h₁, h₂]

theorem swapEndianness32_ofLE {bs : List Byte} (h : bs.length = 4) :
    swapEndianness32 σ (ofLE 32 bs) s.endianness = ofLE 32 (s.order σ.endianness bs) := by
  apply toLE_injective (n := 4) (by simp)
  have h₁ := toLE_ofLE (w := 32) bs (by omega)
  have h₂ := toLE_ofLE (w := 32) (s.order σ.endianness bs) (by simp; omega)
  rw [Stream.order_length] at h₂
  rw [h] at h₁ h₂
  rw [toLE_swapEndianness32, h₁, h₂]

end AgBuffer
