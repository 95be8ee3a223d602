import Mathlib

-- What the threads of a system have in total of something that each of them has a number of.
def total {ι α : Type*} [Fintype ι] (f : α → ℕ) (c : ι → α) : ℕ :=
  ∑ i, f (c i)

section

variable {ι α : Type*} [Fintype ι] {f g : α → ℕ} {c : ι → α} {p : ι} {a : α}

-- If one thread moves, the total changes by as much as what this thread has.
theorem total_update [DecidableEq ι] : total f (Function.update c p a) + f (c p) = total f c + f a := by
  have h : ∀ d : ι → α, total f d = f (d p) + ∑ i ∈ Finset.univ.erase p, f (d i) :=
    fun d => (Finset.add_sum_erase _ _ <| Finset.mem_univ p).symm
  have he : ∑ i ∈ Finset.univ.erase p, f (Function.update c p a i) = ∑ i ∈ Finset.univ.erase p, f (c i) :=
    Finset.sum_congr rfl fun i hi => by rw [Function.update_of_ne <| Finset.ne_of_mem_erase hi]
  rw [h, h c, he, Function.update_self]
  omega

theorem apply_le_total : f (c p) ≤ total f c :=
  Finset.single_le_sum (f := fun i => f (c i)) (fun _ _ => Nat.zero_le _) <| Finset.mem_univ p

theorem total_eq_zero_iff : total f c = 0 ↔ ∀ i, f (c i) = 0 := by
  simp [total]

theorem exists_of_total_ne_zero (h : total f c ≠ 0) : ∃ i, f (c i) ≠ 0 :=
  not_forall.mp <| total_eq_zero_iff.not.mp h

theorem total_le_card (h : ∀ a, f a ≤ 1) : total f c ≤ Fintype.card ι :=
  (Finset.sum_le_card_nsmul _ _ 1 fun i _ => h (c i)).trans <| by simp

end
