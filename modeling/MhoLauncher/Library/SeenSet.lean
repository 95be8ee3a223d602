import Mathlib
import MhoLauncher.Library.Machine

-- Distinct keys in the order in which they were added, of which there are at most `cap`.
structure SeenSet (κ : Type*) (cap : Nat) where
  keys      : List κ
  nodup     : keys.Nodup
  length_le : keys.length ≤ cap

namespace SeenSet

variable {κ : Type*} {cap : Nat}

instance : EmptyCollection (SeenSet κ cap) where
  emptyCollection := ⟨[], .nil, Nat.zero_le _⟩

def add (s : SeenSet κ cap) (k : κ) (hk : k ∉ s.keys) (hl : s.keys.length < cap) : SeenSet κ cap where
  keys      := s.keys ++ [k]
  nodup     := List.nodup_append.mpr ⟨s.nodup, List.nodup_singleton k, fun _ h _ h' e =>
    hk <| List.mem_singleton.mp h' ▸ e ▸ h⟩
  length_le := List.length_append.trans_le hl

variable [DecidableEq κ]

-- Adds a key, and tells whether it was added.
def note (k : κ) (s : SeenSet κ cap) : Bool × SeenSet κ cap :=
  if h : k ∉ s.keys ∧ s.keys.length < cap then (true, s.add k h.left h.right) else (false, s)

-- The key does not occur among the given ones, of which less than `cap` are different.
def IsNew (cap : Nat) (pre : List κ) (k : κ) : Prop :=
  k ∉ pre ∧ pre.toFinset.card < cap

instance (pre : List κ) (k : κ) : Decidable (IsNew cap pre k) :=
  inferInstanceAs <| Decidable (_ ∧ _)

-- The answers for a sequence of keys that follows the given ones.
def answers (cap : Nat) : List κ → List κ → List Bool
  | _,   []      => []
  | pre, k :: ks => decide (IsNew cap pre k) :: answers cap (pre ++ [k]) ks

-- The keys that got the answer `true`.
def reported : List κ → List Bool → List κ
  | k :: ks, b :: bs => if b then k :: reported ks bs else reported ks bs
  | _,       _       => []

-- What a set knows about the keys that were noted. As long as it is not full, this is everything.
structure Records (pre : List κ) (s : SeenSet κ cap) : Prop where
  noted : ∀ k ∈ s.keys, k ∈ pre
  all   : s.keys.length < cap → ∀ k ∈ pre, k ∈ s.keys

variable {pre ks : List κ} {s : SeenSet κ cap} {k : κ} {i : Nat}

omit [DecidableEq κ] in
theorem records_empty : Records [] (∅ : SeenSet κ cap) :=
  ⟨fun _ h => h, fun _ _ h => h⟩

theorem answers_length : (answers cap pre ks).length = ks.length := by
  induction ks generalizing pre
  case nil          => rfl
  case cons k ks hi => rw [answers, List.length_cons, List.length_cons, hi]

theorem answers_getElem? (h : ks[i]? = some k) :
    (answers cap pre ks)[i]? = some (decide <| IsNew cap (pre ++ ks.take i) k) := by
  induction ks generalizing pre i
  case nil => cases h
  case cons k' ks hi =>
    cases i
    case zero =>
      cases h
      rw [answers, List.take_zero, List.append_nil]
      rfl
    case succ i =>
      rw [answers, List.getElem?_cons_succ, hi h, List.append_assoc]
      rfl

namespace Records

theorem length_lt_iff (h : Records pre s) : s.keys.length < cap ↔ pre.toFinset.card < cap := by
  have hc : s.keys.toFinset.card = s.keys.length := List.toFinset_card_of_nodup s.nodup
  have hs : s.keys.toFinset ⊆ pre.toFinset := fun k hk =>
    List.mem_toFinset.mpr <| h.noted k <| List.mem_toFinset.mp hk
  constructor
  case mp =>
    intro hl
    have ha : pre.toFinset ⊆ s.keys.toFinset := fun k hk =>
      List.mem_toFinset.mpr <| h.all hl k <| List.mem_toFinset.mp hk
    rwa [ha.antisymm hs, hc]
  case mpr => exact (hc.ge.trans <| Finset.card_le_card hs).trans_lt

theorem isNew_iff (h : Records pre s) : IsNew cap pre k ↔ k ∉ s.keys ∧ s.keys.length < cap := by
  rw [IsNew, ←h.length_lt_iff]
  exact and_congr_left fun hl => not_congr ⟨h.all hl k, h.noted k⟩

omit [DecidableEq κ] in
-- The new key is known, or the set is full.
theorem snoc {s' : SeenSet κ cap} (h : Records pre s)
    (hs : ∀ k' ∈ s'.keys, k' ∈ s.keys ∨ k' = k)
    (ha : s'.keys.length < cap → s.keys.length < cap ∧ k ∈ s'.keys ∧ ∀ k' ∈ s.keys, k' ∈ s'.keys) :
    Records (pre ++ [k]) s' where
  noted k' hk := by
    rcases hs k' hk with hk | hk
    case inl => exact List.mem_append_left _ <| h.noted k' hk
    case inr => exact List.mem_append_right _ <| List.mem_singleton.mpr hk
  all hl k' hk := by
    obtain ⟨hl, hm, hs⟩ := ha hl
    rcases List.mem_append.mp hk with hk | hk
    case inl => exact hs k' <| h.all hl k' hk
    case inr => exact List.mem_singleton.mp hk ▸ hm

theorem note (h : Records pre s) (k : κ) :
    (s.note k).1 = decide (IsNew cap pre k) ∧ Records (pre ++ [k]) (s.note k).2 ∧
      (s.note k).2.keys = s.keys ++ reported [k] [decide <| IsNew cap pre k] := by
  by_cases hn : k ∉ s.keys ∧ s.keys.length < cap
  case pos =>
    have hd : decide (IsNew cap pre k) = true := decide_eq_true <| h.isNew_iff.mpr hn
    rw [SeenSet.note, dif_pos hn, hd]
    refine ⟨rfl, h.snoc (fun k' hk => ?_) fun _ => ⟨hn.right, ?_, fun k' hk => ?_⟩, rfl⟩
    · exact (List.mem_append.mp hk).imp_right List.mem_singleton.mp
    · exact List.mem_append_right _ <| List.mem_singleton_self k
    · exact List.mem_append_left _ hk
  case neg =>
    have hd : decide (IsNew cap pre k) = false := decide_eq_false <| h.isNew_iff.not.mpr hn
    rw [SeenSet.note, dif_neg hn, hd]
    refine ⟨rfl, h.snoc (fun _ => .inl) fun hl => ⟨hl, ?_, fun _ => id⟩, (List.append_nil _).symm⟩
    exact not_not.mp fun hk => hn ⟨hk, hl⟩

theorem run (h : Records pre s) (ks : List κ) :
    (Machine.Spec.run SeenSet.note ks s).1 = answers cap pre ks ∧
      (Machine.Spec.run SeenSet.note ks s).2.keys = s.keys ++ reported ks (answers cap pre ks) := by
  induction ks generalizing pre s
  case nil => exact ⟨rfl, (List.append_nil _).symm⟩
  case cons k ks hi =>
    obtain ⟨ha, hr, hk⟩ := h.note k
    obtain ⟨ha', hk'⟩ := hi hr
    constructor
    case left => exact congrArg₂ List.cons ha ha'
    case right =>
      rw [Machine.Spec.run, hk', hk, List.append_assoc, answers]
      congr 1
      simp only [reported]
      split <;> rfl

end Records

end SeenSet
