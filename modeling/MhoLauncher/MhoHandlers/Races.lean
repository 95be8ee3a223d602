import Mathlib
import MhoLauncher.MhoHandlers.CallerPairs

open Relation

namespace MhoHandlers.Races

-- An entry of `g_seen` is read and written in two halves.
inductive Half
  | func
  | ret
  deriving DecidableEq

namespace Half

def other : Half → Half
  | func => ret
  | ret  => func

def of : Half → DWord × DWord → DWord
  | func => Prod.fst
  | ret  => Prod.snd

def set (pair : DWord × DWord) : Half → DWord → DWord × DWord
  | func, v => (v, pair.2)
  | ret,  v => (pair.1, v)

variable {half : Half} {pair pair' : DWord × DWord} {v : DWord}

@[simp]
theorem of_set : half.of (half.set pair v) = v := by
  cases half <;> rfl

@[simp]
theorem of_set_other : half.of (half.other.set pair v) = half.of pair := by
  cases half <;> rfl

theorem set_set : half.other.set (half.set pair (half.of pair')) (half.other.of pair') = pair' := by
  cases half <;> rfl

theorem ext (h : half.of pair = half.of pair') (ho : half.other.of pair = half.other.of pair') :
    pair = pair' := by
  cases half
  case func => exact Prod.ext h ho
  case ret  => exact Prod.ext ho h

theorem eq_or_other (half half' : Half) : half' = half ∨ half' = half.other := by
  cases half <;> cases half' <;> simp [other]

end Half

-- Where a thread is in `log_handler_call`, between two accesses to the table. The pair consists of the function
-- and the return address.
inductive Call
  | idle
  | entered (pair : DWord × DWord)
  | scanning (pair : DWord × DWord) (n i : ℕ)
  -- A half of the `i`-th entry was read.
  | reading (pair : DWord × DWord) (n i : ℕ) (half : Half) (value : DWord)
  -- `note_caller_pair_new` returns false, since the pair is in the table or the table is full.
  | muted (pair : DWord × DWord)
  | full (pair : DWord × DWord)
  | storing (pair : DWord × DWord) (n : ℕ)
  -- A half of the new entry was written, and then both.
  | stored (pair : DWord × DWord) (n : ℕ) (half : Half)
  | counting (pair : DWord × DWord) (n : ℕ)
  -- `note_caller_pair_new` returns true, and the call chain is logged.
  | reported (pair : DWord × DWord)

-- The variables `g_seen_count` and `g_seen` with what is behind it in memory, and the threads. The last field
-- is the history: the pairs that were found to be new, with the index that they are stored at.
structure State (ι : Type) where
  gSeenCount : ℕ
  gSeen      : ℕ → DWord × DWord
  call       : ι → Call
  found      : List (ℕ × DWord × DWord)

variable {ι : Type} [DecidableEq ι]

def State.initial : State ι where
  gSeenCount := 0
  gSeen      := fun _ => (0, 0)
  call       := fun _ => .idle
  found      := []

def State.goto (s : State ι) (p : ι) (c : Call) : State ι :=
  { s with call := Function.update s.call p c }

def State.store (s : State ι) (i : ℕ) (half : Half) (pair : DWord × DWord) : State ι :=
  { s with gSeen := Function.update s.gSeen i <| half.set (s.gSeen i) (half.of pair) }

-- One access of a thread. The halves are accessed in any order.
inductive Step (p : ι) : State ι → State ι → Prop
  | enter {s} (pair) : s.call p = .idle →
    Step p s (s.goto p (.entered pair))
  | load {s pair} : s.call p = .entered pair →
    Step p s (s.goto p (.scanning pair s.gSeenCount 0))
  | read {s pair n i} (half : Half) : s.call p = .scanning pair n i → i < n →
    Step p s (s.goto p (.reading pair n i half (half.of (s.gSeen i))))
  | compare {s pair n i half value} : s.call p = .reading pair n i half value →
    Step p s (s.goto p
      (if value = half.of pair ∧ half.other.of (s.gSeen i) = half.other.of pair then
        .muted pair
      else
        .scanning pair n (i + 1)))
  | full {s pair n i} : s.call p = .scanning pair n i → ¬i < n → n ≥ 256 →
    Step p s (s.goto p (.full pair))
  | find {s pair n i} : s.call p = .scanning pair n i → ¬i < n → ¬n ≥ 256 →
    Step p s { s.goto p (.storing pair n) with found := s.found ++ [(n, pair)] }
  | storeFirst {s pair n} (half : Half) : s.call p = .storing pair n →
    Step p s ((s.goto p (.stored pair n half)).store n half pair)
  | storeSecond {s pair n half} : s.call p = .stored pair n half →
    Step p s ((s.goto p (.counting pair n)).store n half.other pair)
  | count {s pair n} : s.call p = .counting pair n →
    Step p s { s.goto p (.reported pair) with gSeenCount := n + 1 }
  | leave {s pair} : s.call p = .muted pair ∨ s.call p = .full pair ∨ s.call p = .reported pair →
    Step p s (s.goto p .idle)

abbrev Runs : State ι → State ι → Prop :=
  ReflTransGen fun s s' => ∃ p, Step p s s'

-- The entry that a thread is about to access.
def Call.accesses : Call → Option ℕ
  | scanning _ n i                   => if i < n then some i else none
  | reading _ _ i .. | storing _ i   => some i
  | stored _ i _                     => some i
  | _                                => none

section Inv

variable {s s' : State ι} {p : ι} {c : Call} {i n : ℕ} {half : Half} {v : DWord} {pair : DWord × DWord}

-- A pair with this half was found to be new, and is stored at this index.
def Found (s : State ι) (i : ℕ) (half : Half) (v : DWord) : Prop :=
  ∃ pair, (i, pair) ∈ s.found ∧ half.of pair = v

-- Both halves of the entries were stored.
def Filled (s : State ι) (n : ℕ) : Prop :=
  ∀ i < n, ∀ half : Half, Found s i half (half.of (s.gSeen i))

def Call.Sound (s : State ι) : Call → Prop
  | idle | entered _ | full _ | reported _ => True
  | scanning _ n _                => n ≤ 256 ∧ Filled s n
  | reading _ n i half value      => n ≤ 256 ∧ Filled s n ∧ i < n ∧ Found s i half value
  | muted pair                    => ∃ i, ∀ half : Half, Found s i half (half.of pair)
  | storing pair n                => n < 256 ∧ Filled s n ∧ (n, pair) ∈ s.found
  | stored pair n half            =>
    n < 256 ∧ Filled s n ∧ (n, pair) ∈ s.found ∧ Found s n half (half.of (s.gSeen n))
  | counting _ n                  => n < 256 ∧ Filled s (n + 1)

structure Inv (s : State ι) : Prop where
  count  : s.gSeenCount ≤ 256
  filled : Filled s s.gSeenCount
  call   : ∀ p, (s.call p).Sound s

-- Pairs are only added, and each half that is written belongs to one of them.
structure Grows (s s' : State ι) : Prop where
  found : s.found ⊆ s'.found
  gSeen : ∀ i (half : Half),
    half.of (s'.gSeen i) = half.of (s.gSeen i) ∨ Found s' i half (half.of (s'.gSeen i))

omit [DecidableEq ι]

theorem Grows.of_eq (hf : s'.found = s.found) (hg : s'.gSeen = s.gSeen) : Grows s s' where
  found       := hf ▸ List.Subset.refl _
  gSeen _ _   := .inl <| hg ▸ rfl

theorem Found.grow (h : Found s i half v) (hs : Grows s s') : Found s' i half v :=
  have ⟨pair, hp, hv⟩ := h
  ⟨pair, hs.found hp, hv⟩

theorem Filled.grow (h : Filled s n) (hs : Grows s s') : Filled s' n := by
  intro i hi half
  cases hs.gSeen i half
  case inl he => exact he ▸ (h i hi half).grow hs
  case inr hf => exact hf

theorem Call.Sound.grow (h : c.Sound s) (hs : Grows s s') : c.Sound s' := by
  cases c
  case scanning => exact ⟨h.left, h.right.grow hs⟩
  case reading  => exact ⟨h.left, h.right.left.grow hs, h.right.right.left, h.right.right.right.grow hs⟩
  case muted =>
    obtain ⟨i, h⟩ := h
    exact ⟨i, fun half => (h half).grow hs⟩
  case storing  => exact ⟨h.left, h.right.left.grow hs, hs.found h.right.right⟩
  case counting => exact ⟨h.left, h.right.grow hs⟩
  case stored pair n half =>
    obtain ⟨hn, hf, hm, hv⟩ := h
    refine ⟨hn, hf.grow hs, hs.found hm, ?_⟩
    cases hs.gSeen n half
    case inl he => exact he ▸ hv.grow hs
    case inr hf => exact hf
  all_goals trivial

variable [DecidableEq ι]

theorem Grows.store (hf : (i, pair) ∈ s.found) :
    Grows s ((s.goto p c).store i half pair) where
  found     := List.Subset.refl _
  gSeen j h := by
    dsimp only [State.store, State.goto]
    by_cases hj : j = i
    case neg => exact .inl <| by rw [Function.update_of_ne hj]
    case pos =>
      rw [hj, Function.update_self]
      cases Half.eq_or_other half h
      case inl he => exact .inr ⟨pair, hf, by rw [he, Half.of_set]⟩
      case inr he => exact .inl <| by rw [he]; cases half <;> rfl

theorem Inv.move (h : Inv s) (hs : Grows s s') (hu : s'.call = Function.update s.call p c) (hc : c.Sound s')
    (hn : s'.gSeenCount ≤ 256) (hf : Filled s' s'.gSeenCount) : Inv s' where
  count  := hn
  filled := hf
  call q := by
    rw [hu]
    by_cases hq : q = p
    case pos => rw [hq, Function.update_self]; exact hc
    case neg => rw [Function.update_of_ne hq]; exact (h.call q).grow hs

-- The number of entries stays the same.
theorem Inv.goto (h : Inv s) (hs : Grows s s') (hu : s'.call = Function.update s.call p c)
    (he : s'.gSeenCount = s.gSeenCount) (hc : c.Sound s') : Inv s' :=
  h.move hs hu hc (he ▸ h.count) (he ▸ h.filled.grow hs)

theorem Inv.step (h : Inv s) (hs : Step p s s') : Inv s' := by
  have hp := h.call p
  have hg {c : Call} : Grows s (s.goto p c) := .of_eq rfl rfl
  cases hs
  case enter pair hc => exact h.goto hg rfl rfl trivial
  case load pair hc  => exact h.goto hg rfl rfl ⟨h.count, h.filled.grow hg⟩
  case full hc _ _   => exact h.goto hg rfl rfl trivial
  case leave hc      => exact h.goto hg rfl rfl trivial
  case read pair n i half hc hi =>
    rw [hc] at hp
    exact h.goto hg rfl rfl ⟨hp.left, hp.right.grow hg, hi, (hp.right i hi half).grow hg⟩
  case compare pair n i half value hc =>
    rw [hc] at hp
    obtain ⟨hn, hf, hi, hv⟩ := hp
    refine h.goto hg rfl rfl ?_
    split
    case isFalse => exact ⟨hn, hf.grow hg⟩
    case isTrue he =>
      refine ⟨i, fun half' => ?_⟩
      cases Half.eq_or_other half half' <;> rename_i hh <;> rw [hh]
      case inl => exact he.left ▸ hv.grow hg
      case inr => exact he.right ▸ (hf i hi half.other).grow hg
  case find pair n i hc hi hn =>
    rw [hc] at hp
    have hg : Grows s { s.goto p (.storing pair n) with found := s.found ++ [(n, pair)] } :=
      ⟨List.subset_append_left .., fun _ _ => .inl rfl⟩
    have hm : (n, pair) ∈ s.found ++ [(n, pair)] := List.mem_append_right _ <| List.mem_singleton_self _
    exact h.goto hg rfl rfl ⟨not_le.mp hn, hp.right.grow hg, hm⟩
  case storeFirst pair n half hc =>
    rw [hc] at hp
    obtain ⟨hn, hf, hm⟩ := hp
    have hg : Grows s ((s.goto p (.stored pair n half)).store n half pair) := .store hm
    refine h.goto hg rfl rfl ⟨hn, hf.grow hg, hm, pair, hm, ?_⟩
    dsimp only [State.store]
    rw [Function.update_self, Half.of_set]
  case storeSecond pair n half hc =>
    rw [hc] at hp
    obtain ⟨hn, hf, hm, hv⟩ := hp
    have hg : Grows s ((s.goto p (.counting pair n)).store n half.other pair) := .store hm
    refine h.goto hg rfl rfl ⟨hn, fun i hi half' => ?_⟩
    cases Nat.lt_succ_iff_lt_or_eq.mp hi
    case inl hi => exact hf.grow hg i hi half'
    case inr hi =>
      dsimp only [State.store]
      rw [hi, Function.update_self]
      cases Half.eq_or_other half half' <;> rename_i hh <;> rw [hh]
      case inl => exact Half.of_set_other.symm ▸ hv.grow hg
      case inr => exact ⟨pair, hm, Half.of_set.symm⟩
  case count pair n hc =>
    rw [hc] at hp
    exact h.move (.of_eq rfl rfl) rfl trivial hp.left (hp.right.grow <| .of_eq rfl rfl)

theorem Inv.runs (h : Inv s) (hs : Runs s s') : Inv s' := by
  induction hs
  case refl       => exact h
  case tail hs hi => exact hs.elim fun _ hs => hi.step hs

omit [DecidableEq ι] in
theorem Inv.initial : Inv (.initial : State ι) where
  count        := Nat.zero_le _
  filled _ hi  := absurd hi <| Nat.not_lt_zero _
  call _       := trivial

omit [DecidableEq ι] in
theorem Call.Sound.accesses (h : c.Sound s) (ha : c.accesses = some i) : i < 256 := by
  cases c
  case scanning pair n j =>
    obtain ⟨hj, rfl⟩ := Option.ite_none_right_eq_some.mp ha |>.imp_right Option.some.inj
    exact hj.trans_le h.left
  case reading => exact Option.some.inj ha ▸ h.right.right.left.trans_le h.left
  case storing => exact Option.some.inj ha ▸ h.left
  case stored  => exact Option.some.inj ha ▸ h.left
  all_goals nomatch ha

end Inv

variable {s : State ι}

-- Whatever the threads do at the same time, the table is only accessed inside. A call is only muted if one of
-- the entries was taken for a pair with its function and for a pair with its return address. This is its own
-- pair if no entry was taken twice.
theorem mutes_accounted (h : Runs .initial s) :
    s.gSeenCount ≤ 256 ∧ (∀ p i, (s.call p).accesses = some i → i < 256) ∧
    ∀ p pair, s.call p = .muted pair →
      (∃ i func ret, (i, pair.1, ret) ∈ s.found ∧ (i, func, pair.2) ∈ s.found) ∧
      ((s.found.map Prod.fst).Nodup → ∃ i, (i, pair) ∈ s.found) := by
  have h := Inv.initial.runs h
  refine ⟨h.count, fun p i => (h.call p).accesses, fun p pair hp => ?_⟩
  obtain ⟨i, hm⟩ : (Call.muted pair).Sound s := hp ▸ h.call p
  obtain ⟨⟨func, ret⟩, hf, he : func = pair.1⟩ := hm .func
  obtain ⟨⟨func', ret'⟩, hr, he' : ret' = pair.2⟩ := hm .ret
  subst he he'
  refine ⟨⟨i, func', ret, hf, hr⟩, fun hd => ⟨i, ?_⟩⟩
  have hp : (i, pair.1, ret) = (i, func', pair.2) := List.inj_on_of_nodup_map hd hf hr rfl
  have hret : ret = pair.2 := congrArg (·.2.2) hp
  exact Prod.mk.eta (p := pair) ▸ hret ▸ hf

section Example

theorem Step.hit {p : ι} {n i : ℕ} {half : Half} {pair : DWord × DWord}
    (hc : s.call p = .reading pair n i half (half.of pair))
    (he : half.other.of (s.gSeen i) = half.other.of pair) : Step p s (s.goto p (.muted pair)) := by
  have hs : Step p s _ := .compare hc
  rwa [if_pos ⟨rfl, he⟩] at hs

-- Three threads call the function 1 from 2, the function 3 from 4 and the function 1 from 4. The first two take
-- the same entry, of which each writes another half first. The third call is muted, although no call had its
-- pair before.
theorem exists_torn : ∃ s : State (Fin 3), Runs .initial s ∧ s.call 2 = .muted (1, 4) ∧
    s.found = [(0, 1, 2), (0, 3, 4)] := by
  have hs : Runs (.initial : State (Fin 3)) _ := .single ⟨0, .enter (1, 2) rfl⟩
  have hs := hs.tail ⟨1, .enter (3, 4) rfl⟩
  have hs := hs.tail ⟨0, .load rfl⟩
  have hs := hs.tail ⟨1, .load rfl⟩
  have hs := hs.tail ⟨0, .find rfl (lt_irrefl 0) (by decide)⟩
  have hs := hs.tail ⟨1, .find rfl (lt_irrefl 0) (by decide)⟩
  have hs := hs.tail ⟨0, .storeFirst .ret rfl⟩
  have hs := hs.tail ⟨1, .storeFirst .func rfl⟩
  have hs := hs.tail ⟨0, .storeSecond rfl⟩
  have hs := hs.tail ⟨1, .storeSecond rfl⟩
  have hs := hs.tail ⟨0, .count rfl⟩
  have hs := hs.tail ⟨2, .enter (1, 4) rfl⟩
  have hs := hs.tail ⟨2, .load rfl⟩
  have hs := hs.tail ⟨2, .read .func rfl (by decide)⟩
  have hs := hs.tail ⟨2, .hit rfl rfl⟩
  exact ⟨_, hs, rfl, rfl⟩

theorem mutes_accounted_torn : ∃ s : State (Fin 3), s.call 2 = .muted (1, 4) ∧
    s.found = [(0, 1, 2), (0, 3, 4)] ∧ ∃ i func ret, (i, 1, ret) ∈ s.found ∧ (i, func, 4) ∈ s.found := by
  obtain ⟨s, hs, hm, hf⟩ := exists_torn
  exact ⟨s, hm, hf, (mutes_accounted hs).right.right 2 (1, 4) hm |>.left⟩

end Example

end MhoHandlers.Races
