import Mathlib
import MhoLauncher.MhoHandlers.Races

open Relation

namespace MhoHandlers.Races

variable {ι : Type} {s t t' : State ι} {p : ι} {pair : DWord × DWord} {b : Bool} {n : ℕ} {c : Call}

-- The table with whole entries, as a single thread sees it.
def State.table (s : State ι) : Seen where
  count := s.gSeenCount
  seen  := .ofFn fun i => pairKey (s.gSeen i).1 (s.gSeen i).2

-- The result of `note_caller_pair_new`, once it is known.
def Call.result : Call → Option Bool
  | muted _ | full _ => some false
  | reported _       => some true
  | _                => none

-- None of the first `n` entries is the pair.
def New (s : State ι) (n : ℕ) (pair : DWord × DWord) : Prop :=
  ∀ i < n, s.gSeen i ≠ pair

def Same (s t : State ι) : Prop :=
  t.gSeenCount = s.gSeenCount ∧ t.gSeen = s.gSeen

theorem State.mem_entries (h : s.gSeenCount ≤ 256) :
    pairKey pair.1 pair.2 ∈ s.table.entries ↔ ¬New s s.gSeenCount pair := by
  simp only [New, not_forall, not_not, Seen.entries, table, List.mem_take_iff_getElem, Vector.length_toList,
    Nat.min_eq_left h, Vector.getElem_toList, Vector.getElem_ofFn]
  refine exists_congr fun i => exists_congr fun hi => ?_
  constructor
  case mp  => exact fun he => pairKey_injective he
  case mpr => exact fun he => by rw [he]

theorem State.table_add (hc : t.gSeenCount = s.gSeenCount + 1) (hn : s.gSeenCount < 256)
    (hg : t.gSeen = Function.update s.gSeen s.gSeenCount pair) :
    t.table = ⟨s.gSeenCount + 1, s.table.seen.set s.gSeenCount (pairKey pair.1 pair.2) hn⟩ := by
  rw [table, hc, hg]
  refine congrArg (Seen.mk _) <| Vector.ext fun i hi => ?_
  rw [Vector.getElem_ofFn, Vector.getElem_set]
  split
  case isTrue he  => rw [he, Function.update_self]
  case isFalse he => rw [Function.update_of_ne (Ne.symm he), table, Vector.getElem_ofFn]

-- What a call has found out and done since it was entered in the state `s`, if no other thread moves.
def Call.Since (s t : State ι) (pair : DWord × DWord) : Call → Prop
  | idle                         => False
  | entered pair'                => pair' = pair ∧ Same s t
  | scanning pair' n i           => pair' = pair ∧ Same s t ∧ n = s.gSeenCount ∧ New s i pair
  | reading pair' n i half value =>
    pair' = pair ∧ Same s t ∧ n = s.gSeenCount ∧ New s i pair ∧ i < n ∧ value = half.of (s.gSeen i)
  | muted _                      => Same s t ∧ ¬New s s.gSeenCount pair
  | full _                       => Same s t ∧ New s s.gSeenCount pair ∧ s.gSeenCount ≥ 256
  | storing pair' n              => pair' = pair ∧ Same s t ∧ n = s.gSeenCount ∧ New s n pair ∧ n < 256
  | stored pair' n half          =>
    pair' = pair ∧ t.gSeen = Function.update s.gSeen n (half.set (s.gSeen n) (half.of pair)) ∧
      n = s.gSeenCount ∧ New s n pair ∧ n < 256
  | counting _ n                 =>
    t.gSeen = Function.update s.gSeen n pair ∧ n = s.gSeenCount ∧ New s n pair ∧ n < 256
  | reported _                   =>
    t.gSeen = Function.update s.gSeen s.gSeenCount pair ∧ t.gSeenCount = s.gSeenCount + 1 ∧
      New s s.gSeenCount pair ∧ s.gSeenCount < 256

theorem Same.table_eq (h : Same s t) : t.table = s.table := by
  rw [State.table, State.table, h.left, h.right]

-- The call has done what the sequential function does.
theorem Call.Since.result (h : c.Since s t pair) (hr : c.result = some b) (hn : s.gSeenCount ≤ 256) :
    noteCallerPairNew pair s.table = some (b, t.table) := by
  have hm : pairKey pair.1 pair.2 ∈ s.table.entries ↔ ¬New s s.gSeenCount pair := State.mem_entries hn
  cases c
  case muted =>
    cases hr
    rw [h.left.table_eq]
    exact noteCallerPairNew_mem hn <| hm.mpr h.right
  case full =>
    cases hr
    rw [h.left.table_eq]
    exact noteCallerPairNew_full hn h.right.right fun hk => hm.mp hk h.right.left
  case reported =>
    cases hr
    obtain ⟨hg, hc, hw, hl⟩ := h
    rw [State.table_add hc hl hg]
    exact noteCallerPairNew_add hl fun hk => hm.mp hk hw
  all_goals nomatch hr

variable [DecidableEq ι]

@[simp]
theorem State.call_goto : (s.goto p c).call p = c :=
  Function.update_self ..

omit [DecidableEq ι] in
@[simp]
theorem State.call_store {i : ℕ} {half : Half} : (s.store i half pair).call = s.call :=
  rfl

omit [DecidableEq ι] in
theorem New.succ {i : ℕ} (h : New s i pair) (hi : s.gSeen i ≠ pair) : New s (i + 1) pair := by
  intro j hj
  cases Nat.lt_succ_iff_lt_or_eq.mp hj
  case inl hj => exact h j hj
  case inr hj => exact hj ▸ hi

theorem Step.since (hs : Step p t t') (h : (t.call p).Since s t pair) (hd : t'.call p ≠ .idle) :
    (t'.call p).Since s t' pair := by
  cases hs
  case enter hc => exact (hc ▸ h).elim
  case leave    => exact absurd State.call_goto hd
  all_goals
    rw [‹t.call p = _›] at h
    simp only [State.call_goto, State.call_store]
  case load =>
    obtain ⟨rfl, hs⟩ := h
    exact ⟨rfl, hs, hs.left, fun _ hi => absurd hi <| Nat.not_lt_zero _⟩
  case read i half hc hi =>
    obtain ⟨rfl, hs, rfl, hw⟩ := h
    exact ⟨rfl, hs, rfl, hw, hi, by rw [hs.right]⟩
  case compare i half value hc =>
    obtain ⟨rfl, hs, rfl, hw, hi, rfl⟩ := h
    rw [hs.right]
    split
    case isTrue he  => exact ⟨hs, fun hn => hn i hi <| Half.ext he.left he.right⟩
    case isFalse he => exact ⟨rfl, hs, rfl, hw.succ fun hp => he ⟨by rw [hp], by rw [hp]⟩⟩
  case full hi hn =>
    obtain ⟨rfl, hs, rfl, hw⟩ := h
    exact ⟨hs, fun j hj => hw j <| hj.trans_le <| not_lt.mp hi, hn⟩
  case find hi hn =>
    obtain ⟨rfl, hs, rfl, hw⟩ := h
    exact ⟨rfl, hs, rfl, fun j hj => hw j <| hj.trans_le <| not_lt.mp hi, not_le.mp hn⟩
  case storeFirst =>
    obtain ⟨rfl, hs, hn, hw, hl⟩ := h
    refine ⟨rfl, ?_, hn, hw, hl⟩
    dsimp only [State.store, State.goto]
    rw [hs.right]
  case storeSecond =>
    obtain ⟨rfl, hg, hn, hw, hl⟩ := h
    refine ⟨?_, hn, hw, hl⟩
    dsimp only [State.store, State.goto]
    rw [hg, Function.update_self, Function.update_idem, Half.set_set]
  case count =>
    obtain ⟨hg, rfl, hw, hl⟩ := h
    exact ⟨hg, rfl, hw, hl⟩

-- A run of a thread in its call, in which the other threads do nothing.
abbrev Alone (p : ι) : State ι → State ι → Prop :=
  ReflTransGen fun s s' => Step p s s' ∧ s'.call p ≠ .idle

theorem Alone.since (hs : Alone p t t') (h : (t.call p).Since s t pair) : (t'.call p).Since s t' pair := by
  induction hs
  case refl       => exact h
  case tail hs hi => exact hs.left.since hi hs.right

-- A call can be completed by its thread alone.
def Returns (p : ι) (s : State ι) : Prop :=
  ∃ s' b, Alone p s s' ∧ (s'.call p).result = some b

theorem Step.returns (hs : Step p t t') (hc : t'.call p = c) (hd : c ≠ .idle)
    (h : t'.call p = c → Returns p t') : Returns p t :=
  have ⟨s', b, ha, hr⟩ := h hc
  ⟨s', b, .head ⟨hs, hc ▸ hd⟩ ha, hr⟩

theorem Returns.of_result (hc : s.call p = c) (hr : c.result = some b) : Returns p s :=
  ⟨s, b, .refl, hc ▸ hr⟩

theorem Returns.storing (h : s.call p = .storing pair n) : Returns p s :=
  (Step.storeFirst .func h).returns State.call_goto nofun fun h =>
  (Step.storeSecond h).returns State.call_goto nofun fun h =>
  (Step.count h).returns State.call_goto nofun fun h => of_result h rfl

theorem Returns.scanned {i : ℕ} (h : s.call p = .scanning pair n i) (hi : ¬i < n) : Returns p s := by
  by_cases hn : n ≥ 256
  case pos => exact (Step.full h hi hn).returns State.call_goto nofun fun h => of_result h rfl
  case neg => exact (Step.find h hi hn).returns State.call_goto nofun storing

-- Induction on the number of entries that are left.
theorem Returns.scanning {k i : ℕ} (hk : n ≤ i + k) (h : s.call p = .scanning pair n i) : Returns p s := by
  induction k generalizing s i
  case zero => exact scanned h <| Nat.not_lt.mpr hk
  case succ k ih =>
    by_cases hi : i < n
    case neg => exact scanned h hi
    case pos =>
      refine (Step.read .func h hi).returns State.call_goto nofun fun h => ?_
      have hs := Step.compare h
      split at hs
      case isTrue  => exact hs.returns State.call_goto nofun fun h => of_result h rfl
      case isFalse => exact hs.returns State.call_goto nofun <| ih <| by omega

theorem Returns.entered (h : s.call p = .entered pair) : Returns p s :=
  (Step.load h).returns State.call_goto nofun <| scanning <| Nat.le_add_left ..

-- A run in which each call is completed before the next one is entered. The first list consists of the threads
-- with the pairs of their calls, and the second one of the results.
inductive Serial : List (ι × DWord × DWord) → List Bool → State ι → State ι → Prop
  | nil {s : State ι} : Serial [] [] s s
  | cons {s s' t : State ι} {p : ι} {pair : DWord × DWord} {b : Bool} {calls bs} : s.call p = .idle →
    Alone p (s.goto p (.entered pair)) s' → (s'.call p).result = some b →
    Serial calls bs (s'.goto p .idle) t → Serial ((p, pair) :: calls) (b :: bs) s t

section Serial

variable {calls : List (ι × DWord × DWord)} {bs : List Bool}

omit [DecidableEq ι] in
theorem Call.ended (h : c.result = some b) :
    ∃ pair, c = .muted pair ∨ c = .full pair ∨ c = .reported pair := by
  cases c
  case muted pair    => exact ⟨pair, .inl rfl⟩
  case full pair     => exact ⟨pair, .inr <| .inl rfl⟩
  case reported pair => exact ⟨pair, .inr <| .inr rfl⟩
  all_goals nomatch h

theorem runs_of_alone (hc : s.call p = .idle) (h : Alone p (s.goto p (.entered pair)) t)
    (hr : (t.call p).result = some b) : Runs s (t.goto p .idle) := by
  have ⟨_, he⟩ := Call.ended hr
  have hr : Runs (s.goto p (.entered pair)) t := h.lift id fun _ _ hs => ⟨p, hs.left⟩
  exact .head ⟨p, .enter pair hc⟩ <| hr.tail ⟨p, .leave he⟩

theorem Serial.runs (h : Serial calls bs s t) : Runs s t := by
  induction h
  case nil                 => exact .refl
  case cons hc ha hr hs hi => exact (runs_of_alone hc ha hr).trans hi

theorem Serial.refines (h : Serial calls bs s t) (hs : Inv s) :
    noteCallerPairNew.run (calls.map Prod.snd) s.table = some (bs, t.table) := by
  induction h
  case nil => rfl
  case cons s s' t p pair b calls bs hc ha hr _ hi =>
    have hp : ((s.goto p (.entered pair)).call p).Since s (s.goto p (.entered pair)) pair := by
      rw [State.call_goto]
      exact ⟨rfl, rfl, rfl⟩
    have hb := (ha.since hp).result hr hs.count
    exact Machine.run_cons_some hb <| hi <| hs.runs <| runs_of_alone hc ha hr

theorem Step.call_of_ne {q : ι} (h : Step p s t) (hq : q ≠ p) : t.call q = s.call q := by
  cases h <;> exact Function.update_of_ne hq ..

theorem Alone.call_of_ne {q : ι} (h : Alone p s t) (hq : q ≠ p) : t.call q = s.call q := by
  induction h
  case refl       => rfl
  case tail hs hi => exact (hs.left.call_of_ne hq).trans hi

theorem exists_serial (calls : List (ι × DWord × DWord)) (h : ∀ p, s.call p = .idle) :
    ∃ bs t, Serial calls bs s t := by
  induction calls generalizing s
  case nil => exact ⟨[], s, .nil⟩
  case cons call calls hi =>
    obtain ⟨p, pair⟩ := call
    obtain ⟨s', b, ha, hr⟩ : Returns p (s.goto p (.entered pair)) := .entered State.call_goto
    have hd : ∀ q, (s'.goto p .idle).call q = .idle := by
      intro q
      by_cases hq : q = p
      case pos => rw [hq, State.call_goto]
      case neg =>
        have he : (s'.goto p .idle).call q = s'.call q := Function.update_of_ne hq ..
        rw [he, ha.call_of_ne hq]
        exact (Function.update_of_ne hq ..).trans (h q)
    obtain ⟨bs, t, hs⟩ := hi hd
    exact ⟨b :: bs, t, .cons (h p) ha hr hs⟩

omit [DecidableEq ι] in
theorem table_initial : (.initial : State ι).table = .initial :=
  congrArg (Seen.mk 0) <| Vector.ext fun i hi => by simp [State.initial, pairKey]

-- Calls that do not overlap can always be completed, and they do what the calls of a single thread do.
theorem serial_calls (calls : List (ι × DWord × DWord)) : (∃ bs s, Serial calls bs .initial s) ∧
    ∀ bs s, Serial calls bs .initial s → Runs .initial s ∧
      noteCallerPairNew.run (calls.map Prod.snd) .initial = some (bs, s.table) := by
  refine ⟨exists_serial calls fun _ => rfl, fun bs s h => ⟨h.runs, ?_⟩⟩
  have hr := h.refines .initial
  rwa [table_initial] at hr

end Serial

end MhoHandlers.Races
