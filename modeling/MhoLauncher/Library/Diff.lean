import Mathlib

-- A change of a set.
inductive Edit (α : Type)
  | add    (a : α)
  | remove (a : α)
  deriving DecidableEq

namespace Edit

variable {α : Type} [DecidableEq α]

-- An edit can only be applied if it changes the set.
def apply (s : Finset α) : Edit α → Option (Finset α)
  | add a    => if a ∈ s then none else some (insert a s)
  | remove a => if a ∈ s then some (s.erase a) else none

def replay (s : Finset α) (es : List (Edit α)) : Option (Finset α) :=
  es.foldlM apply s

-- The elements that only the new list contains are added before those that only the old list contains are
-- removed.
def diff (old new : List α) : List (Edit α) :=
  (new.filter (· ∉ old)).map add ++ (old.filter (· ∉ new)).map remove

variable {s t u : Finset α} {es es' : List (Edit α)} {l old new : List α} {a : α}

theorem replay_append (h : replay s es = some t) (h' : replay t es' = some u) :
    replay s (es ++ es') = some u := by
  rw [replay, List.foldlM_append]
  exact Option.bind_eq_some_iff.mpr ⟨t, h, h'⟩

theorem replay_add (hn : l.Nodup) (hd : ∀ a ∈ l, a ∉ s) : replay s (l.map add) = some (s ∪ l.toFinset) := by
  induction l generalizing s
  case nil => simp [replay]
  case cons a l hi =>
    have ⟨ha, hn⟩ := List.nodup_cons.mp hn
    have ⟨has, hd⟩ := List.forall_mem_cons.mp hd
    have hi := hi (s := insert a s) hn fun b hb hs => by
      cases Finset.mem_insert.mp hs
      case inl he => exact ha <| he ▸ hb
      case inr hs => exact hd b hb hs
    have ha : apply s (add a) = some (insert a s) := if_neg has
    rw [List.toFinset_cons, Finset.union_insert, ←Finset.insert_union]
    exact Option.bind_eq_some_iff.mpr ⟨_, ha, hi⟩

theorem replay_remove (hn : l.Nodup) (hs : ∀ a ∈ l, a ∈ s) :
    replay s (l.map remove) = some (s \ l.toFinset) := by
  induction l generalizing s
  case nil => simp [replay]
  case cons a l hi =>
    have ⟨ha, hn⟩ := List.nodup_cons.mp hn
    have ⟨has, hs⟩ := List.forall_mem_cons.mp hs
    have hi := hi (s := s.erase a) hn fun b hb =>
      Finset.mem_erase.mpr ⟨fun he => ha <| he ▸ hb, hs b hb⟩
    have ha : apply s (remove a) = some (s.erase a) := if_pos has
    rw [List.toFinset_cons, Finset.sdiff_insert, ←Finset.erase_sdiff_comm]
    exact Option.bind_eq_some_iff.mpr ⟨_, ha, hi⟩

@[simp]
theorem mem_diff_add : add a ∈ diff old new ↔ a ∈ new ∧ a ∉ old := by
  simp [diff]

@[simp]
theorem mem_diff_remove : remove a ∈ diff old new ↔ a ∈ old ∧ a ∉ new := by
  simp [diff]

theorem diff_nodup (ho : old.Nodup) (hn : new.Nodup) : (diff old new).Nodup := by
  apply List.nodup_append'.mpr
  constructor
  case left => exact (hn.filter _).map fun _ _ => Edit.add.inj
  case right =>
    refine ⟨(ho.filter _).map fun _ _ => Edit.remove.inj, fun e ha hr => ?_⟩
    have ⟨_, _, ha⟩ := List.mem_map.mp ha
    have ⟨_, _, hr⟩ := List.mem_map.mp hr
    cases ha.trans hr.symm

theorem replay_diff (ho : old.Nodup) (hn : new.Nodup) :
    replay old.toFinset (diff old new) = some new.toFinset := by
  have ha := replay_add (s := old.toFinset) (hn.filter (· ∉ old)) fun a ha => by
    simpa using (List.mem_filter.mp ha).right
  have hr := replay_remove (s := old.toFinset ∪ (new.filter (· ∉ old)).toFinset)
    (ho.filter (· ∉ new)) fun a ha => by
    simp [(List.mem_filter.mp ha).left]
  refine replay_append ha hr |>.trans <| congrArg some ?_
  ext a
  by_cases ho : a ∈ old <;> by_cases hn : a ∈ new <;> simp [ho, hn]

end Edit
