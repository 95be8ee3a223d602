import Mathlib
import MhoLauncher.ConcurrentQueue.Semaphore
import MhoLauncher.Library.Inevitable

open Channel Relation

namespace ConcurrentQueue

variable {ι μ : Type} [DecidableEq ι] [Fintype ι] {mMaxSpins : ℕ} {s s' : State ι μ} {p : ι}

-- While a thread sleeps, all elements of the queue are acquired by other threads or not signaled yet.
def Unavailable (s : State ι μ) : Prop :=
  s.mSema = 0 ∧ total List.length s.inner = total Call.permits s.call + total Call.unsignaled s.call

-- A thread has ended its call, or sleeps until the next signal.
def Rests (p : ι) (s : State ι μ) : Prop :=
  s.call p = .idle ∨ (∃ max, s.call p = .sleeping max) ∧ Unavailable s

-- An operation of a thread within its call. A `compare_exchange_weak` that fails although the count is the
-- expected one changes nothing. Only the timed functions come back from their sleep without being woken up.
structure Advances (mMaxSpins : ℕ) (timed : Bool) (p : ι) (s s' : State ι μ) : Prop where
  step  : Step mMaxSpins p s s'
  call  : s.call p ≠ .idle
  ne    : s' ≠ s
  wakes : timed ∨ ∀ max, s.call p = .sleeping max → s'.call p ≠ .adjusting max

-- No other thread is about to release the kernel's semaphore.
structure Ready (p : ι) (s : State ι μ) : Prop where
  balanced : Balanced s
  released : ∀ q, q ≠ p → (s.call q).released = 0

omit [Fintype ι] in
theorem Step.call_of_ne {q : ι} (h : Step mMaxSpins p s s') (hq : q ≠ p) : s'.call q = s.call q := by
  cases h <;> exact Function.update_of_ne hq ..

theorem Ready.step (h : Ready p s) (hs : Step mMaxSpins p s s') : Ready p s' where
  balanced       := h.balanced.step hs
  released q hq  := hs.call_of_ne hq ▸ h.released q hq

omit [Fintype ι] in
@[simp]
theorem State.goto_call_self {c : Call} : (s.goto p c).call p = c :=
  Function.update_self ..

theorem Ready.total_released (h : Ready p s) (hp : (s.call p).released = 0) :
    total Call.released s.call = 0 := by
  refine total_eq_zero_iff.mpr fun q => ?_
  by_cases hq : q = p
  case pos => rw [hq, hp]
  case neg => exact h.released q hq

omit [DecidableEq ι] in
-- The elements that are acquired are in the queue.
theorem Balanced.exists_element (h : Balanced s) (hp : (s.call p).permits ≠ 0) : ∃ q, s.inner q ≠ [] := by
  have hl := apply_le_total (f := Call.permits) (c := s.call) (p := p)
  have ht : total List.length s.inner ≠ 0 := by have := h.elements; omega
  obtain ⟨q, hq⟩ := exists_of_total_ne_zero ht
  exact ⟨q, fun he => hq <| he ▸ rfl⟩

-- The kernel's semaphore is released for a thread that waits, or the count can be re-adjusted.
theorem Ready.sema_pos (h : Ready p s) (hp : (s.call p).waiting = 1) (hr : (s.call p).released = 0)
    (hm : s.mCount ≥ 0) : s.mSema > 0 := by
  have hl := apply_le_total (f := Call.waiting) (c := s.call) (p := p)
  have hw := h.balanced.waiting
  have ht := h.total_released hr
  omega

theorem Ready.unavailable {max : ℕ} (h : Ready p s) (hp : s.call p = .sleeping max) (hm : s.mSema = 0) :
    Unavailable s := by
  have hc : ¬s.mCount ≥ 0 := fun hc => (h.sema_pos (hp ▸ rfl) (hp ▸ rfl) hc).ne' hm
  have he := h.balanced.elements
  have ht := h.total_released (hp ▸ rfl)
  exact ⟨hm, by omega⟩

omit [DecidableEq ι] in
-- Every released unit is one that a thread waits for.
theorem Balanced.sema_add_released_le (h : Balanced s) : s.mSema + (s.call p).released ≤ Fintype.card ι := by
  have hl := apply_le_total (f := Call.released) (c := s.call) (p := p)
  have hw := h.waiting
  have hc : total Call.waiting s.call ≤ Fintype.card ι :=
    total_le_card fun c => by cases c <;> simp [Call.waiting]
  omega

-- A call that goes on with `signal`.
def Call.Signals : Call → Prop
  | enqueued _ | releasing _ => True
  | _                        => False

-- Where a call is after something was acquired.
def Call.Dequeues : Call → Prop
  | tryWaitMany .. | dequeuing _ => True
  | _                            => False

theorem Call.dequeues_acquired {max : ℕ} : (acquired max).Dequeues := by
  rw [acquired]
  split <;> trivial

theorem Call.Dequeues.not_signals {c : Call} (h : c.Dequeues) : ¬c.Signals := by
  cases c <;> first | exact id | exact False.elim h

theorem Call.not_signals_onZero {max : ℕ} {caller : Caller} : ¬(caller.onZero mMaxSpins max).Signals := by
  cases caller
  case tryDequeueBulk => exact id
  case again          => exact id
  case waitMany       => rw [Caller.onZero]; split <;> exact id

omit [Fintype ι] in
theorem Step.signals (hs : Step mMaxSpins p s s') (hi : s.call p ≠ .idle) (h : (s'.call p).Signals) :
    (s.call p).Signals := by
  cases hs
  case enqueueBulk hp | tryDequeueBulk hp | waitDequeueBulk hp => exact absurd hp hi
  case signal hp | release hp _ => rw [hp]; trivial
  all_goals rw [State.goto_call_self] at h
  case zero           => exact absurd h Call.not_signals_onZero
  case wake | tryWait => exact absurd h Call.dequeues_acquired.not_signals
  case fetchSub =>
    split at h
    case isTrue  => exact absurd h Call.dequeues_acquired.not_signals
    case isFalse => exact False.elim h
  all_goals exact False.elim h

-- The maximum of the kernel's semaphore is not reached.
structure Able (p : ι) (s : State ι μ) : Prop extends Ready p s where
  card : (s.call p).Signals → Fintype.card ι ≤ 0x7fffffff

theorem Able.step (h : Able p s) (hs : Step mMaxSpins p s s') (hi : s.call p ≠ .idle) : Able p s' where
  toReady := h.toReady.step hs
  card hc := h.card <| hs.signals hi hc

section Progress

variable {timed : Bool} {c c' : Call}

omit [Fintype ι] in
-- An operation that leads to another place in the call, from one where the thread is awake.
theorem Advances.of_step (hp : s.call p = c) (hs : Step mMaxSpins p s s') (hc : s'.call p = c') (hi : c ≠ .idle)
    (hn : c' ≠ c) (hw : ∀ max, c ≠ .sleeping max) : Advances mMaxSpins timed p s s' where
  step  := hs
  call  := hp ▸ hi
  ne    := fun h => hn <| hc.symm.trans <| h ▸ hp
  wakes := .inr fun max hm => absurd (hp.symm.trans hm) <| hw max

theorem Call.onZero_ne {caller caller' : Caller} {max max' : ℕ} {oldCount : ℤ} :
    caller.onZero mMaxSpins max ≠ .tried caller' max' oldCount := by
  cases caller
  case waitMany => rw [Caller.onZero]; split <;> simp
  all_goals simp [Caller.onZero]

theorem Call.acquired_ne {max : ℕ} (hc : ¬c.Dequeues) : acquired max ≠ c :=
  fun h => hc <| h ▸ dequeues_acquired

omit [Fintype ι] in
theorem exists_advances_tried {caller : Caller} {max : ℕ} {oldCount : ℤ}
    (hp : s.call p = .tried caller max oldCount) : ∃ s', Advances mMaxSpins timed p s s' := by
  by_cases ho : oldCount > 0
  case neg => exact ⟨_, .of_step hp (.zero hp ho) State.goto_call_self nofun Call.onZero_ne nofun⟩
  case pos =>
    by_cases hm : s.mCount = oldCount
    case pos => exact ⟨_, .of_step hp (.exchange hp ho hm) State.goto_call_self nofun nofun nofun⟩
    case neg =>
      have hn : Call.tried caller max s.mCount ≠ .tried caller max oldCount := fun h => hm <| by injection h
      exact ⟨_, .of_step hp (.exchangeFails hp ho) State.goto_call_self nofun hn nofun⟩

omit [Fintype ι] in
theorem exists_advances_spinning {max spin : ℕ} (hp : s.call p = .spinning max spin) :
    ∃ s', Advances mMaxSpins timed p s s' := by
  cases spin
  case succ spin => exact ⟨_, .of_step hp (.spin hp) State.goto_call_self nofun nofun nofun⟩
  case zero =>
    refine ⟨_, .of_step hp (.fetchSub hp) State.goto_call_self nofun ?_ nofun⟩
    split
    case isTrue  => exact Call.acquired_ne id
    case isFalse => nofun

omit [Fintype ι] in
theorem exists_advances_spun {max spin : ℕ} {oldCount : ℤ} (hp : s.call p = .spun max spin oldCount) :
    ∃ s', Advances mMaxSpins timed p s s' := by
  by_cases hm : oldCount > 0 ∧ s.mCount = oldCount
  case neg => exact ⟨_, .of_step hp (.spinAgain hp hm) State.goto_call_self nofun nofun nofun⟩
  case pos =>
    have hs : Step mMaxSpins p s _ := .spinExchange hp hm.left hm.right
    exact ⟨_, .of_step hp hs State.goto_call_self nofun nofun nofun⟩

omit [Fintype ι] in
theorem exists_advances_sleeping {max : ℕ} (hp : s.call p = .sleeping max) (hm : s.mSema ≠ 0) :
    ∃ s', Advances mMaxSpins timed p s s' := by
  have hs : Step mMaxSpins p s _ := .wake hp <| Nat.pos_of_ne_zero hm
  have hc : ∀ c, ¬c.Dequeues → Call.acquired max ≠ c := fun _ => Call.acquired_ne
  exact ⟨_, hs, hp ▸ nofun, fun he => hc _ id <| State.goto_call_self.symm.trans <| he ▸ hp,
    .inr fun _ _ he => hc _ id <| State.goto_call_self.symm.trans he⟩

omit [Fintype ι] in
theorem exists_advances_adjusted {max : ℕ} {oldCount : ℤ} (hp : s.call p = .adjusted max oldCount) :
    ∃ s', Advances mMaxSpins timed p s s' := by
  by_cases ho : oldCount ≥ 0
  case pos =>
    by_cases hm : s.mSema = 0
    case pos => exact ⟨_, .of_step hp (.tryWaitFails hp ho hm) State.goto_call_self nofun nofun nofun⟩
    case neg =>
      have hs : Step mMaxSpins p s _ := .tryWait hp ho <| Nat.pos_of_ne_zero hm
      exact ⟨_, .of_step hp hs State.goto_call_self nofun (Call.acquired_ne id) nofun⟩
  case neg =>
    have ho := not_le.mp ho
    by_cases hm : s.mCount = oldCount
    case pos => exact ⟨_, .of_step hp (.adjust hp ho hm) State.goto_call_self nofun nofun nofun⟩
    case neg => exact ⟨_, .of_step hp (.adjustFails hp ho hm) State.goto_call_self nofun nofun nofun⟩

theorem Ready.exists_advances_dequeuing {left : ℕ} (h : Ready p s) (hp : s.call p = .dequeuing left) :
    ∃ s', Advances mMaxSpins timed p s s' := by
  cases left
  case zero => exact ⟨_, .of_step hp (.dequeued hp) State.goto_call_self nofun nofun nofun⟩
  case succ left =>
    obtain ⟨q, hq⟩ := h.balanced.exists_element (p := p) <| hp ▸ Nat.succ_ne_zero left
    obtain ⟨item, rest, he⟩ := List.exists_cons_of_ne_nil hq
    have hn : Call.dequeuing left ≠ .dequeuing (left + 1) := fun h => by injection h; omega
    exact ⟨_, .of_step hp (.dequeue hp he) State.goto_call_self nofun hn nofun⟩

theorem Able.exists_advances_releasing {n : ℕ} (h : Able p s) (hp : s.call p = .releasing n) :
    ∃ s', Advances mMaxSpins timed p s s' := by
  have hl := h.balanced.sema_add_released_le (p := p)
  rw [hp] at hl
  have hc := h.card <| hp ▸ trivial
  exact ⟨_, .of_step hp (.release hp <| hl.trans hc) State.goto_call_self nofun nofun nofun⟩

-- Where the thread does not rest, it has an operation that does not depend on the time.
theorem Able.advances (h : Able p s) (hr : ¬Rests p s) : ∃ s', Advances mMaxSpins timed p s s' := by
  cases hp : s.call p
  case idle        => exact absurd (.inl hp) hr
  case releasing   => exact h.exists_advances_releasing hp
  case tryWaitMany => exact ⟨_, .of_step hp (.load hp) State.goto_call_self nofun nofun nofun⟩
  case tried       => exact exists_advances_tried hp
  case spinning    => exact exists_advances_spinning hp
  case spun        => exact exists_advances_spun hp
  case sleeping    => exact exists_advances_sleeping hp fun hm => hr <| .inr ⟨⟨_, hp⟩, h.unavailable hp hm⟩
  case adjusting   => exact ⟨_, .of_step hp (.reload hp) State.goto_call_self nofun nofun nofun⟩
  case adjusted    => exact exists_advances_adjusted hp
  case dequeuing   => exact h.exists_advances_dequeuing hp
  case enqueued count =>
    refine ⟨_, .of_step hp (.signal hp) State.goto_call_self nofun ?_ nofun⟩
    split <;> nofun

end Progress

section Rank

-- How many operations `tryWaitMany` is followed by at most.
def Caller.rank (mMaxSpins max : ℕ) : Caller → ℕ
  | tryDequeueBulk => max + 1
  | again          => max + 2
  | waitMany       => max + 2 * mMaxSpins + 8

-- How many operations are left in a call at most, if no other thread changes the count. An exchange whose
-- expected count is not the current one is done again.
def Call.rank (mMaxSpins : ℕ) (mCount : ℤ) : Call → ℕ
  | idle                      => 0
  | enqueued _                => 2
  | releasing _               => 1
  | tryWaitMany caller max    => caller.rank mMaxSpins max + 2
  | tried caller max oldCount => caller.rank mMaxSpins max + if oldCount = mCount then 1 else 2
  | spinning max spin         => max + 2 * spin + 8
  | spun max spin _           => max + 2 * spin + 9
  | sleeping max              => max + 7
  | adjusting max             => max + 6
  | adjusted max oldCount     => max + if oldCount = mCount then 5 else 7
  | dequeuing left            => left + 1

def State.rank (mMaxSpins : ℕ) (p : ι) (s : State ι μ) : ℕ :=
  (s.call p).rank mMaxSpins s.mCount

variable {mCount oldCount : ℤ} {max : ℕ}

theorem Call.rank_acquired_lt : (acquired max).rank mMaxSpins mCount < max + 5 := by
  rw [acquired]
  split
  case isTrue  => simp only [rank, Caller.rank]; omega
  case isFalse => simp only [rank]; omega

theorem Call.rank_onZero_le {caller : Caller} :
    (caller.onZero mMaxSpins max).rank mMaxSpins mCount ≤ caller.rank mMaxSpins max := by
  cases caller
  case tryDequeueBulk => exact Nat.zero_le _
  case again          => simp only [Caller.onZero, rank, Caller.rank]; omega
  case waitMany =>
    rw [Caller.onZero]
    split
    case isTrue  => exact le_refl _
    case isFalse => exact Nat.zero_le _

theorem toNat_newCount_le (h : oldCount > 0) : (oldCount - newCount oldCount max).toNat ≤ max := by
  rw [newCount]
  split <;> omega

theorem Caller.held_lt_rank {caller : Caller} : caller.held + max < caller.rank mMaxSpins max := by
  cases caller <;> simp only [held, rank] <;> omega

-- The thread does not wait in vain for the kernel's semaphore, since nobody is about to release it.
theorem Ready.rank_lt (h : Ready p s) (hs : Step mMaxSpins p s s') (hi : s.call p ≠ .idle) (hn : s' ≠ s) :
    s'.rank mMaxSpins p < s.rank mMaxSpins p := by
  unfold State.rank
  cases hs
  case enqueueBulk hp | tryDequeueBulk hp | waitDequeueBulk hp => exact absurd hp hi
  all_goals rw [State.goto_call_self, ‹s.call p = _›]
  case signal => split <;> simp only [Call.rank] <;> omega
  case release | load | spinAgain | timeout | reload | dequeue | dequeued => simp [Call.rank, State.goto]
  case spin => simp only [Call.rank]; omega
  case exchange caller max oldCount hp ho hm =>
    have hr : caller.held + max < caller.rank mMaxSpins max := Caller.held_lt_rank
    have hl : (oldCount - newCount oldCount max).toNat ≤ max := toNat_newCount_le ho
    simp only [Call.rank, hm, if_true]
    omega
  case exchangeFails hp ho =>
    have hm : _ ≠ s.mCount := fun hm => hn <| by rw [← hm, State.goto, ← hp, Function.update_eq_self]
    simp [Call.rank, State.goto, hm]
  case zero => exact Call.rank_onZero_le.trans_lt <| by simp only [Call.rank]; split <;> omega
  case spinExchange max _ oldCount hp ho _ =>
    have hl : (oldCount - newCount oldCount max).toNat ≤ max := toNat_newCount_le ho
    simp only [Call.rank]
    omega
  case fetchSub max hp =>
    split
    case isTrue  => exact Call.rank_acquired_lt.trans <| by simp only [Call.rank]; omega
    case isFalse => simp [Call.rank]
  case wake    => exact Call.rank_acquired_lt.trans <| by simp only [Call.rank]; omega
  case tryWait => exact Call.rank_acquired_lt.trans_le <| by simp only [Call.rank]; split <;> omega
  case tryWaitFails max oldCount hp ho hm =>
    have hc : oldCount ≠ s.mCount := fun hc => (h.sema_pos (hp ▸ rfl) (hp ▸ rfl) <| hc ▸ ho).ne' hm
    simp [Call.rank, hc]
  case adjust => simp only [Call.rank]; split <;> omega
  case adjustFails hm => simp [Call.rank, hm.symm]

end Rank

theorem Balanced.reachable (h : Runs mMaxSpins .initial s) : Balanced s :=
  Balanced.initial.runs h

-- A thread goes to sleep, and another one enqueues an element and is about to wake it.
theorem exists_releasing : ∃ s : State Bool ℕ, Runs 0 .initial s ∧ s.call true = .sleeping 1 ∧
    s.call false = .releasing 1 ∧ s.mSema = 0 := by
  have hs : Runs 0 _ _ := .tail .refl ⟨true, .waitDequeueBulk 1 (s := (.initial : State Bool ℕ)) rfl⟩
  have hs := hs.tail ⟨true, .load rfl⟩
  have hs := hs.tail ⟨true, .zero rfl (lt_irrefl 0)⟩
  have hs := hs.tail ⟨true, .fetchSub rfl⟩
  have hs := hs.tail ⟨false, .enqueueBulk [7] rfl⟩
  have hs := hs.tail ⟨false, .signal rfl⟩
  exact ⟨_, hs, rfl, rfl, rfl⟩

-- An element that was enqueued is received once, in the order of its producer. A thread that was granted
-- elements finds them in the queue, whatever the other threads do, and the count stays between the numbers
-- of the threads and of the elements.
theorem elements_accounted (h : Runs mMaxSpins .initial s) :
    (∀ p, s.sent p = sentBy p s.received ++ s.inner p) ∧
    total Call.permits s.call ≤ total List.length s.inner ∧
    (∀ p, (s.call p).permits ≠ 0 → ∃ q, s.inner q ≠ []) ∧
    -(Fintype.card ι : ℤ) ≤ s.mCount ∧ s.mCount ≤ total List.length s.inner := by
  have hb := Balanced.reachable h
  have hc : Conserved s := Conserved.runs (fun _ => rfl) h
  have hw : total Call.waiting s.call ≤ Fintype.card ι :=
    total_le_card fun c => by cases c <;> simp [Call.waiting]
  have he := hb.elements
  have ht := hb.waiting
  exact ⟨hc, by omega, fun _ => hb.exists_element, by omega, by omega⟩

theorem elements_accounted_releasing : ∃ s : State Bool ℕ, s.call true = .sleeping 1 ∧
    s.call false = .releasing 1 ∧ ∀ p, s.sent p = sentBy p s.received ++ s.inner p := by
  obtain ⟨s, hs, ht, hf, _⟩ := exists_releasing
  exact ⟨s, ht, hf, (elements_accounted hs).left⟩

-- The units that the kernel's semaphore has, or is about to be released for, are as many as there are waiting
-- threads with an element for each of them.
theorem no_lost_wakeup (h : Runs mMaxSpins .initial s) :
    s.mSema + total Call.released s.call = min (total Call.waiting s.call)
      (total List.length s.inner - total Call.permits s.call - total Call.unsignaled s.call) := by
  have ⟨hw, he⟩ := Balanced.reachable h
  omega

theorem no_lost_wakeup_releasing : ∃ s : State Bool ℕ, s.call true = .sleeping 1 ∧
    s.call false = .releasing 1 ∧ s.mSema + total Call.released s.call = min (total Call.waiting s.call)
      (total List.length s.inner - total Call.permits s.call - total Call.unsignaled s.call) := by
  obtain ⟨s, hs, ht, hf, _⟩ := exists_releasing
  exact ⟨s, ht, hf, no_lost_wakeup hs⟩

theorem Able.inevitable (timed : Bool) (h : Able p s) :
    Inevitable (Advances mMaxSpins timed p) (Rests p) (s.rank mMaxSpins p) s :=
  Inevitable.of_rank (f := State.rank mMaxSpins p) (fun hi ha => Able.step hi ha.step ha.call)
    (fun hi => or_iff_not_imp_left.mpr hi.advances)
    (fun hi ha => hi.rank_lt ha.step ha.call ha.ne) h le_rfl

-- A timeout while the kernel's semaphore is released for the thread, so that it gets out of the loop that
-- re-adjusts the count by taking the unit.
theorem exists_adjusting : ∃ s : State Bool ℕ, Runs 0 .initial s ∧ s.call true = .adjusting 1 ∧
    s.call false = .idle ∧ s.mSema = 1 := by
  obtain ⟨s, hs, ht, hf, hm⟩ := exists_releasing
  have hs := hs.tail ⟨false, .release hf (by rw [hm]; decide)⟩
  have hs := hs.tail ⟨true, .timeout ht⟩
  refine ⟨_, hs, rfl, rfl, ?_⟩
  simp [State.goto, hm]

-- No thread depends on another one to get out of the loops, except for one that stands between the two halves
-- of `signal`. However it runs on alone, its call ends, or it sleeps, after finitely many operations, and the
-- loop around `ReleaseSemaphore` is left at once.
theorem completes_or_sleeps (timed : Bool) (h : Runs mMaxSpins .initial s)
    (hn : Fintype.card ι ≤ 0x7fffffff) (hr : ∀ q, q ≠ p → (s.call q).released = 0) :
    Inevitable (Advances mMaxSpins timed p) (Rests p) (s.rank mMaxSpins p) s :=
  Able.inevitable timed ⟨⟨Balanced.reachable h, hr⟩, fun _ => hn⟩

theorem completes_or_sleeps_adjusting : ∃ s : State Bool ℕ, s.call true = .adjusting 1 ∧ s.mSema = 1 ∧
    Inevitable (Advances 0 false true) (Rests true) 7 s := by
  obtain ⟨s, hs, ht, hf, hm⟩ := exists_adjusting
  have h := completes_or_sleeps (p := true) false hs (by simp) fun q hq => by
    rw [Bool.eq_false_of_not_eq_true hq, hf]
    rfl
  rw [State.rank, ht] at h
  exact ⟨s, ht, hm, h⟩

end ConcurrentQueue
