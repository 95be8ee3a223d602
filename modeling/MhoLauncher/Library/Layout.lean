import Mathlib

-- A sequence of parts that are laid out one after the other. Every part has a key.
abbrev Layout (κ α : Type*) := List (κ × List α)

namespace Layout

variable {κ α : Type*} {l l₁ l₂ : Layout κ α} {k k' : κ} {s s' : List α}

def items (l : Layout κ α) : List α :=
  l.flatMap Prod.snd

def keys (l : Layout κ α) : List κ :=
  l.map Prod.fst

@[simp]
theorem items_nil : items ([] : Layout κ α) = [] :=
  rfl

@[simp]
theorem items_cons (p : κ × List α) : items (p :: l) = p.2 ++ items l :=
  rfl

@[simp]
theorem items_append : items (l₁ ++ l₂) = items l₁ ++ items l₂ :=
  List.flatMap_append

@[simp]
theorem keys_cons (p : κ × List α) : keys (p :: l) = p.1 :: keys l :=
  rfl

@[simp]
theorem keys_append : keys (l₁ ++ l₂) = keys l₁ ++ keys l₂ :=
  List.map_append

theorem mem_keys (h : (k, s) ∈ l) : k ∈ keys l :=
  List.mem_map_of_mem h

variable [DecidableEq κ]

-- The position of the first item of a part.
def offset : Layout κ α → κ → Nat
  | [],          _ => 0
  | (k, s) :: l, i => if k = i then 0 else s.length + offset l i

theorem offset_append_of_mem (h : k ∈ keys l₁) : offset (l₁ ++ l₂) k = offset l₁ k := by
  induction l₁
  case nil => contradiction
  case cons p l₁ hi =>
    by_cases he : p.1 = k
    case pos => simp [offset, he]
    case neg => simp [offset, he, hi <| (List.mem_cons.mp h).resolve_left (Ne.symm he)]

theorem offset_append_of_not_mem (h : k ∉ keys l₁) :
    offset (l₁ ++ l₂) k = (items l₁).length + offset l₂ k := by
  induction l₁
  case nil => simp
  case cons p l₁ hi =>
    rw [keys_cons, List.mem_cons, not_or] at h
    simp [offset, Ne.symm h.left, hi h.right, Nat.add_assoc]

-- A part splits the layout into the parts before and after it.
theorem split (h : (k, s) ∈ l) (hn : (keys l).Nodup) :
    ∃ l₁ l₂, l = l₁ ++ (k, s) :: l₂ ∧ k ∉ keys l₁ ∧ k ∉ keys l₂ ∧ offset l k = (items l₁).length := by
  have ⟨l₁, l₂, he⟩ := List.append_of_mem h
  subst he
  simp only [keys_append, keys_cons, List.nodup_append, List.nodup_cons] at hn
  have h₁ : k ∉ keys l₁ := fun hm => hn.right.right _ hm _ (List.mem_cons_self ..) rfl
  exact ⟨l₁, l₂, rfl, h₁, hn.right.left.left, by rw [offset_append_of_not_mem h₁]; simp [offset]⟩

-- The items of a range within a part.
theorem slice {i n : Nat} (h : (k, s) ∈ l) (hn : (keys l).Nodup) (hi : i + n ≤ s.length) :
    ((items l).drop (offset l k + i)).take n = (s.drop i).take n := by
  have ⟨l₁, l₂, he, _, _, ho⟩ := split h hn
  rw [ho, he, items_append, items_cons, List.drop_length_add_append,
    List.drop_append_of_le_length (by simp; omega), List.take_append_of_le_length (by simp; omega)]

theorem offset_add_length_le (h : (k, s) ∈ l) (hn : (keys l).Nodup) :
    offset l k + s.length ≤ (items l).length := by
  have ⟨l₁, l₂, he, _, _, ho⟩ := split h hn
  rw [ho]
  simp [he]

-- Different parts do not overlap.
theorem disjoint (h : (k, s) ∈ l) (h' : (k', s') ∈ l) (hk : k ≠ k') (hn : (keys l).Nodup) :
    offset l k + s.length ≤ offset l k' ∨ offset l k' + s'.length ≤ offset l k := by
  have ⟨l₁, l₂, he, h₁, _, ho⟩ := split h hn
  rw [he, List.mem_append, List.mem_cons] at h'
  rcases h' with h' | h' | h'
  case inl =>
    right
    rw [he, keys_append, List.nodup_append] at hn
    have := offset_add_length_le h' hn.left
    rwa [ho, he, offset_append_of_mem (mem_keys h')]
  case inr.inl => cases h'; contradiction
  case inr.inr =>
    left
    rw [ho, he, offset_append_of_not_mem, offset, if_neg hk]
    case _ => omega
    case _ =>
      intro hm
      rw [he, keys_append, List.nodup_append] at hn
      exact hn.right.right _ hm _ (List.mem_cons_of_mem _ <| mem_keys h') rfl

-- The parts cover the layout.
theorem exists_part {i : Nat} (h : i < (items l).length) (hn : (keys l).Nodup) :
    ∃ k s, (k, s) ∈ l ∧ offset l k ≤ i ∧ i < offset l k + s.length := by
  induction l generalizing i
  case nil => contradiction
  case cons p l hi =>
    rw [keys_cons, List.nodup_cons] at hn
    by_cases hp : i < p.2.length
    case pos => exact ⟨p.1, p.2, List.mem_cons_self .., by simp [offset, hp]⟩
    case neg =>
      have ⟨k, s, hm, hl⟩ := hi (i := i - p.2.length) (by simp at h; omega) hn.right
      have hk : p.1 ≠ k := fun he => hn.left <| he ▸ mem_keys hm
      refine ⟨k, s, List.mem_cons_of_mem _ hm, ?_⟩
      simp only [offset, if_neg hk]
      omega

-- Exchanges the items of a part.
def replace (l : Layout κ α) (k : κ) (s : List α) : Layout κ α :=
  l.map fun p => if p.1 = k then (k, s) else p

theorem replace_of_not_mem (h : k ∉ keys l) : replace l k s = l := by
  simp only [keys, List.mem_map, not_exists, not_and] at h
  exact (List.map_congr_left fun p hp => if_neg (h p hp)).trans l.map_id

theorem replace_of_split (h₁ : k ∉ keys l₁) (h₂ : k ∉ keys l₂) :
    replace (l₁ ++ (k, s) :: l₂) k s' = l₁ ++ (k, s') :: l₂ := by
  have hs : replace (l₁ ++ (k, s) :: l₂) k s' = replace l₁ k s' ++ (k, s') :: replace l₂ k s' := by
    simp [replace]
  rw [hs, replace_of_not_mem h₁, replace_of_not_mem h₂]

theorem items_replace (h : (k, s) ∈ l) (hn : (keys l).Nodup) (hl : s'.length = s.length) :
    items (replace l k s') =
    (items l).take (offset l k) ++ s' ++ (items l).drop (offset l k + s'.length) := by
  have ⟨l₁, l₂, he, h₁, h₂, ho⟩ := split h hn
  rw [ho, he, replace_of_split h₁ h₂]
  simp [hl]

-- The layout with the given keys, where the items of a part are a function of its key.
def build (f : κ → List α) (ks : List κ) : Layout κ α :=
  ks.map fun k => (k, f k)

variable {f : κ → List α} {ks : List κ}

omit [DecidableEq κ] in
@[simp]
theorem keys_build : keys (build f ks) = ks := by
  simp [keys, build, Function.comp_def]

omit [DecidableEq κ] in
theorem mem_build : (k, s) ∈ build f ks ↔ k ∈ ks ∧ f k = s := by
  simp [build]

theorem replace_build : replace (build f ks) k s = build (Function.update f k s) ks := by
  simp only [replace, build, List.map_map]
  refine List.map_congr_left fun i _ => ?_
  by_cases h : i = k <;> simp [h]

-- The positions only depend on the lengths of the parts.
theorem offset_build_congr {g : κ → List α} (h : ∀ k, (f k).length = (g k).length) :
    offset (build f ks) = offset (build g ks) := by
  funext i
  induction ks
  case nil => rfl
  case cons k ks hi =>
    simp only [build, List.map_cons, offset, h k] at hi ⊢
    rw [hi]

omit [DecidableEq κ] in
theorem items_build_length_congr {g : κ → List α} (h : ∀ k, (f k).length = (g k).length) :
    (items <| build f ks).length = (items <| build g ks).length := by
  induction ks
  case nil => rfl
  case cons k ks hi =>
    simp only [build, List.map_cons, items_cons, List.length_append, h k] at hi ⊢
    rw [hi]

theorem existsUnique_build {i : Nat} (h : i < (items <| build f ks).length) (hn : ks.Nodup) :
    ∃! k, k ∈ ks ∧ offset (build f ks) k ≤ i ∧ i < offset (build f ks) k + (f k).length := by
  have hn' : (keys <| build f ks).Nodup := by simpa
  have ⟨k, s, hm, hl⟩ := exists_part h hn'
  have ⟨hk, hs⟩ := mem_build.mp hm
  refine ⟨k, ⟨hk, hs ▸ hl⟩, fun k' ⟨hk', hl'⟩ => ?_⟩
  by_contra hne
  have := disjoint (mem_build.mpr ⟨hk', rfl⟩) hm hne hn'
  omega

end Layout
