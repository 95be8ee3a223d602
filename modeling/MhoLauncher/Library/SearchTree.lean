import Mathlib

-- Binary trees whose elements are ordered by a key.
namespace SearchTree

variable {α κ : Type*} [LinearOrder κ] (key : α → κ)

def toList : BinaryTree α → List α
  | .nil        => []
  | .node a l r => toList l ++ a :: toList r

def Ordered : BinaryTree α → Prop
  | .nil        => True
  | .node a l r => Ordered l ∧ Ordered r ∧ (∀ b ∈ toList l, key b < key a) ∧ ∀ b ∈ toList r, key a < key b

-- The element has the least key that is not below `x`.
structure IsLowerBound (x : κ) (t : BinaryTree α) (a : α) : Prop where
  mem   : a ∈ toList t
  le    : x ≤ key a
  least : ∀ b ∈ toList t, x ≤ key b → key a ≤ key b

def lowerBound (x : κ) : BinaryTree α → Option α
  | .nil        => none
  | .node a l r => if key a < x then lowerBound x r else (lowerBound x l).or (some a)

variable {key} {x : κ} {t l r : BinaryTree α} {a b : α}

theorem mem_toList_node : b ∈ toList (.node a l r) ↔ b = a ∨ b ∈ toList l ∨ b ∈ toList r := by
  simp only [toList, List.mem_append, List.mem_cons]
  exact or_left_comm

theorem lowerBound_eq_none (h : lowerBound key x t = none) (ho : Ordered key t) :
    ∀ b ∈ toList t, key b < x := by
  induction t
  case nil => exact fun _ hb => absurd hb List.not_mem_nil
  case node a l r _ hr =>
    have ⟨_, hor, hl, _⟩ := ho
    rw [lowerBound] at h
    split at h
    case isTrue ha =>
      intro b hb
      obtain rfl | hb | hb := mem_toList_node.mp hb
      · exact ha
      · exact (hl b hb).trans ha
      · exact hr h hor b hb
    case isFalse => simp at h

theorem lowerBound_eq_some (h : lowerBound key x t = some a) (ho : Ordered key t) :
    IsLowerBound key x t a := by
  induction t
  case nil => simp [lowerBound] at h
  case node c l r hl hr =>
    have ⟨hol, hor, hlc, hcr⟩ := ho
    rw [lowerBound] at h
    split at h
    case isTrue hc =>
      have ⟨hm, hx, hn⟩ := hr h hor
      refine ⟨mem_toList_node.mpr <| .inr <| .inr hm, hx, fun b hb hb' => ?_⟩
      obtain rfl | hb | hb := mem_toList_node.mp hb
      · exact absurd hc hb'.not_gt
      · exact absurd ((hlc b hb).trans hc) hb'.not_gt
      · exact hn b hb hb'
    case isFalse hc =>
      cases hb : lowerBound key x l
      case none =>
        rw [hb, Option.none_or, Option.some.injEq] at h
        subst h
        refine ⟨mem_toList_node.mpr <| .inl rfl, not_lt.mp hc, fun b hb' hx => ?_⟩
        obtain rfl | hb' | hb' := mem_toList_node.mp hb'
        · exact le_rfl
        · exact absurd (lowerBound_eq_none hb hol b hb') hx.not_gt
        · exact (hcr b hb').le
      case some d =>
        rw [hb, Option.some_or, Option.some.injEq] at h
        have ⟨hm, hx, hn⟩ := hl (hb.trans <| congrArg some h) hol
        refine ⟨mem_toList_node.mpr <| .inr <| .inl hm, hx, fun b hb hb' => ?_⟩
        obtain rfl | hb | hb := mem_toList_node.mp hb
        · exact (hlc a hm).le
        · exact hn b hb hb'
        · exact ((hlc a hm).trans <| hcr b hb).le

theorem Ordered.key_injective (h : Ordered key t) (ha : a ∈ toList t) (hb : b ∈ toList t)
    (he : key a = key b) :
    a = b := by
  induction t
  case nil => exact absurd ha List.not_mem_nil
  case node c l r hl hr =>
    have ⟨hol, hor, hlc, hcr⟩ := h
    obtain ha' | ha' | ha' := mem_toList_node.mp ha <;> obtain hb' | hb' | hb' := mem_toList_node.mp hb
    · exact ha'.trans hb'.symm
    · exact absurd (ha' ▸ he) (hlc b hb').ne'
    · exact absurd (ha' ▸ he) (hcr b hb').ne
    · exact absurd (hb' ▸ he) (hlc a ha').ne
    · exact hl hol ha' hb'
    · exact absurd he ((hlc a ha').trans <| hcr b hb').ne
    · exact absurd (hb' ▸ he) (hcr a ha').ne'
    · exact absurd he ((hlc b hb').trans <| hcr a ha').ne'
    · exact hr hor ha' hb'

theorem isLowerBound_iff (ho : Ordered key t) : IsLowerBound key x t a ↔ lowerBound key x t = some a := by
  constructor
  case mpr => exact (lowerBound_eq_some · ho)
  case mp =>
    intro h
    cases hb : lowerBound key x t
    case none   => exact absurd (lowerBound_eq_none hb ho a h.mem) h.le.not_gt
    case some b =>
      have hl := lowerBound_eq_some hb ho
      have he := le_antisymm (hl.least a h.mem h.le) (h.least b hl.mem hl.le)
      rw [ho.key_injective hl.mem h.mem he]

end SearchTree
