import Mathlib
import MhoLauncher.Library.Channel
import MhoLauncher.Library.Total

open Channel Relation

namespace ConcurrentQueue

-- The caller of `tryWaitMany`, which decides what happens if nothing was acquired.
inductive Caller
  | tryDequeueBulk
  | waitMany
  -- The call at the end of `waitManyWithPartialSpinning`, where one unit is already acquired.
  | again

-- Where a thread is in a call to a `BlockingConcurrentQueue`, between two operations on the shared state. The
-- functions for one item are the ones for many with `max = 1`: `wait` is `waitMany`, `tryWait` is
-- `tryWaitMany`, and `waitWithPartialSpinning` is `waitManyWithPartialSpinning`.
inductive Call
  | idle
  -- `inner.enqueue_bulk` returned. The semaphore is not signaled yet.
  | enqueued (count : ℕ)
  -- `signal`, before `m_sema.signal`.
  | releasing (toRelease : ℕ)
  | tryWaitMany (caller : Caller) (max : ℕ)
  | tried (caller : Caller) (max : ℕ) (oldCount : ℤ)
  -- `waitManyWithPartialSpinning`, in its first loop.
  | spinning (max spin : ℕ)
  | spun (max spin : ℕ) (oldCount : ℤ)
  -- In `m_sema.wait` or `m_sema.timed_wait`.
  | sleeping (max : ℕ)
  -- In the loop that re-adjusts the count.
  | adjusting (max : ℕ)
  | adjusted (max : ℕ) (oldCount : ℤ)
  -- The result of the semaphore is `max`, and `max - count` is left.
  | dequeuing (left : ℕ)

-- The fields of `LightweightSemaphore`, where `mSema` is the count of the kernel's semaphore, the elements of
-- `inner` and the threads. The last two fields are the history of the elements.
structure State (ι μ : Type) where
  mCount   : ℤ
  mSema    : ℕ
  inner    : Channel ι μ
  call     : ι → Call
  sent     : Channel ι μ
  received : List (ι × μ)

variable {ι μ : Type} [DecidableEq ι] {mMaxSpins : ℕ}

def State.initial : State ι μ where
  mCount   := 0
  mSema    := 0
  inner    := fun _ => []
  call     := fun _ => .idle
  sent     := fun _ => []
  received := []

def State.goto (s : State ι μ) (p : ι) (c : Call) : State ι μ :=
  { s with call := Function.update s.call p c }

-- The count after `max` units are taken from it, or all if there are less.
def newCount (oldCount : ℤ) (max : ℕ) : ℤ :=
  if oldCount > max then oldCount - max else 0

def toRelease (oldCount : ℤ) (count : ℕ) : ℤ :=
  if -oldCount < count then -oldCount else count

-- What follows on one unit that was acquired by `waitManyWithPartialSpinning`.
def Call.acquired (max : ℕ) : Call :=
  if max > 1 then .tryWaitMany .again (max - 1) else .dequeuing 1

def Caller.held : Caller → ℕ
  | tryDequeueBulk | waitMany => 0
  | again                     => 1

-- What follows on a result of 0 from `tryWaitMany`.
def Caller.onZero (mMaxSpins max : ℕ) : Caller → Call
  | tryDequeueBulk => .idle
  | waitMany       => if max > 0 then .spinning max mMaxSpins else .idle
  | again          => .dequeuing 1

-- One operation of a thread on the shared state.
inductive Step (mMaxSpins : ℕ) (p : ι) : State ι μ → State ι μ → Prop
  | enqueueBulk {s} (items : List μ) : s.call p = .idle →
    Step mMaxSpins p s { s.goto p (.enqueued items.length) with
      inner := Function.update s.inner p (s.inner p ++ items)
      sent  := Function.update s.sent p (s.sent p ++ items) }
  | signal {s count} : s.call p = .enqueued count →
    Step mMaxSpins p s { s.goto p
        (if toRelease s.mCount count > 0 then .releasing (toRelease s.mCount count).toNat else .idle) with
      mCount := s.mCount + count }
  -- `ReleaseSemaphore` fails if the count would become larger than the maximum, and is called again.
  | release {s n} : s.call p = .releasing n → s.mSema + n ≤ 0x7fffffff →
    Step mMaxSpins p s { s.goto p .idle with mSema := s.mSema + n }
  | tryDequeueBulk {s} (max : ℕ) : s.call p = .idle →
    Step mMaxSpins p s (s.goto p (.tryWaitMany .tryDequeueBulk max))
  | waitDequeueBulk {s} (max : ℕ) : s.call p = .idle →
    Step mMaxSpins p s (s.goto p (.tryWaitMany .waitMany max))
  | load {s caller max} : s.call p = .tryWaitMany caller max →
    Step mMaxSpins p s (s.goto p (.tried caller max s.mCount))
  | exchange {s caller max oldCount} : s.call p = .tried caller max oldCount → oldCount > 0 →
    s.mCount = oldCount →
    Step mMaxSpins p s { s.goto p (.dequeuing (caller.held + (oldCount - newCount oldCount max).toNat)) with
      mCount := newCount oldCount max }
  -- `compare_exchange_weak` can also fail if the count is the expected one.
  | exchangeFails {s caller max oldCount} : s.call p = .tried caller max oldCount → oldCount > 0 →
    Step mMaxSpins p s (s.goto p (.tried caller max s.mCount))
  | zero {s caller max oldCount} : s.call p = .tried caller max oldCount → ¬oldCount > 0 →
    Step mMaxSpins p s (s.goto p (caller.onZero mMaxSpins max))
  | spin {s max spin} : s.call p = .spinning max (spin + 1) →
    Step mMaxSpins p s (s.goto p (.spun max spin s.mCount))
  | spinExchange {s max spin oldCount} : s.call p = .spun max spin oldCount → oldCount > 0 →
    s.mCount = oldCount →
    Step mMaxSpins p s { s.goto p (.dequeuing (oldCount - newCount oldCount max).toNat) with
      mCount := newCount oldCount max }
  | spinAgain {s max spin oldCount} : s.call p = .spun max spin oldCount →
    ¬(oldCount > 0 ∧ s.mCount = oldCount) →
    Step mMaxSpins p s (s.goto p (.spinning max spin))
  | fetchSub {s max} : s.call p = .spinning max 0 →
    Step mMaxSpins p s { s.goto p (if s.mCount > 0 then .acquired max else .sleeping max) with
      mCount := s.mCount - 1 }
  | wake {s max} : s.call p = .sleeping max → s.mSema > 0 →
    Step mMaxSpins p s { s.goto p (.acquired max) with mSema := s.mSema - 1 }
  -- The time is over, or the kernel's semaphore failed. With a timeout of 0 the thread does not wait.
  | timeout {s max} : s.call p = .sleeping max →
    Step mMaxSpins p s (s.goto p (.adjusting max))
  | reload {s max} : s.call p = .adjusting max →
    Step mMaxSpins p s (s.goto p (.adjusted max s.mCount))
  | tryWait {s max oldCount} : s.call p = .adjusted max oldCount → oldCount ≥ 0 → s.mSema > 0 →
    Step mMaxSpins p s { s.goto p (.acquired max) with mSema := s.mSema - 1 }
  | tryWaitFails {s max oldCount} : s.call p = .adjusted max oldCount → oldCount ≥ 0 → s.mSema = 0 →
    Step mMaxSpins p s (s.goto p (.adjusting max))
  | adjust {s max oldCount} : s.call p = .adjusted max oldCount → oldCount < 0 → s.mCount = oldCount →
    Step mMaxSpins p s { s.goto p .idle with mCount := oldCount + 1 }
  | adjustFails {s max oldCount} : s.call p = .adjusted max oldCount → oldCount < 0 → s.mCount ≠ oldCount →
    Step mMaxSpins p s (s.goto p (.adjusting max))
  -- `inner.try_dequeue` takes the oldest element of some producer. It can also fail, and is called again.
  | dequeue {s left q item rest} : s.call p = .dequeuing (left + 1) → s.inner q = item :: rest →
    Step mMaxSpins p s { s.goto p (.dequeuing left) with
      inner    := Function.update s.inner q rest
      received := s.received ++ [(q, item)] }
  | dequeued {s} : s.call p = .dequeuing 0 →
    Step mMaxSpins p s (s.goto p .idle)

-- The threads take their steps in any order.
abbrev Runs (mMaxSpins : ℕ) : State ι μ → State ι μ → Prop :=
  ReflTransGen fun s s' => ∃ p, Step mMaxSpins p s s'

section Balance

variable {s s' : State ι μ} {p : ι} {c : Call} {f : Call → ℕ}

-- The threads that the count is decremented for although nothing was acquired.
def Call.waiting : Call → ℕ
  | sleeping _ | adjusting _ | adjusted .. => 1
  | _                                      => 0

def Call.released : Call → ℕ
  | releasing toRelease => toRelease
  | _                   => 0

def Call.unsignaled : Call → ℕ
  | enqueued count => count
  | _              => 0

-- The elements that a thread has acquired, and not dequeued yet.
def Call.permits : Call → ℕ
  | tryWaitMany caller _ | tried caller .. => caller.held
  | dequeuing left                         => left
  | _                                      => 0

-- A negative count is the number of waiting threads that nothing was released for. A positive count and what
-- is released, acquired or not signaled yet are the elements of the queue.
structure Balanced [Fintype ι] (s : State ι μ) : Prop where
  waiting : total Call.waiting s.call = (-s.mCount).toNat + s.mSema + total Call.released s.call
  elements : total List.length s.inner = s.mCount.toNat + s.mSema + total Call.released s.call +
    total Call.permits s.call + total Call.unsignaled s.call

-- A call that is left has nothing but what it has acquired.
structure Call.Settled (c : Call) (permits : ℕ) : Prop where
  waiting    : c.waiting = 0
  released   : c.released = 0
  unsignaled : c.unsignaled = 0
  permits    : c.permits = permits

theorem Call.settled_dequeuing {n : ℕ} : (Call.dequeuing n).Settled n :=
  ⟨rfl, rfl, rfl, rfl⟩

theorem Call.settled_acquired {max : ℕ} : (Call.acquired max).Settled 1 := by
  rw [acquired]
  split
  case isTrue  => exact ⟨rfl, rfl, rfl, rfl⟩
  case isFalse => exact settled_dequeuing

theorem Call.settled_onZero {max : ℕ} {caller : Caller} :
    (caller.onZero mMaxSpins max).Settled caller.held := by
  cases caller
  case tryDequeueBulk => exact ⟨rfl, rfl, rfl, rfl⟩
  case again          => exact settled_dequeuing
  case waitMany =>
    rw [Caller.onZero]
    split <;> exact ⟨rfl, rfl, rfl, rfl⟩

-- A thread that moves changes both sides of the equations by what it had and what it has.
theorem Balanced.move [Fintype ι] (h : Balanced s) (hs : s'.call = Function.update s.call p c)
    (hw : c.waiting + ((-s.mCount).toNat + s.mSema + (s.call p).released) =
      (s.call p).waiting + ((-s'.mCount).toNat + s'.mSema + c.released))
    (he : total List.length s'.inner + (s.mCount.toNat + s.mSema + (s.call p).released + (s.call p).permits +
        (s.call p).unsignaled) =
      total List.length s.inner + (s'.mCount.toNat + s'.mSema + c.released + c.permits + c.unsignaled)) :
    Balanced s' := by
  have ⟨h₁, h₂⟩ := h
  have w : total Call.waiting s'.call + _ = _ + _ := hs ▸ total_update
  have r : total Call.released s'.call + _ = _ + _ := hs ▸ total_update
  have u : total Call.unsignaled s'.call + _ = _ + _ := hs ▸ total_update
  have t : total Call.permits s'.call + _ = _ + _ := hs ▸ total_update
  exact ⟨by omega, by omega⟩

-- What follows on an operation has no part in the semaphore, and `n` elements acquired.
theorem Balanced.settle [Fintype ι] {n : ℕ} (h : Balanced s) (hs : s'.call = Function.update s.call p c)
    (hc : c.Settled n)
    (hw : (-s.mCount).toNat + s.mSema + (s.call p).released =
      (s.call p).waiting + ((-s'.mCount).toNat + s'.mSema))
    (he : total List.length s'.inner + (s.mCount.toNat + s.mSema + (s.call p).released + (s.call p).permits +
        (s.call p).unsignaled) =
      total List.length s.inner + (s'.mCount.toNat + s'.mSema + n)) : Balanced s' := by
  have ⟨w, r, u, t⟩ := hc
  exact h.move hs (by omega) (by omega)

theorem Balanced.step [Fintype ι] (h : Balanced s) (hs : Step mMaxSpins p s s') : Balanced s' := by
  cases hs
  case enqueueBulk items hp =>
    refine h.move rfl ?_ ?_ <;> rw [hp]
    case refine_1 => rfl
    case refine_2 =>
      have hu := total_update (f := List.length) (c := s.inner) (p := p) (a := s.inner p ++ items)
      rw [List.length_append] at hu
      simp only [State.goto, Call.released, Call.permits, Call.unsignaled]
      omega
  case signal count hp =>
    have hr : toRelease s.mCount count = if -s.mCount < count then -s.mCount else (count : ℤ) := rfl
    split_ifs at hr <;> refine h.move rfl ?_ ?_ <;> rw [hp] <;> split_ifs <;>
      simp only [Call.waiting, Call.released, Call.permits, Call.unsignaled, State.goto] <;> omega
  case release n hp _ | adjust max oldCount hp ho hm =>
    refine h.move rfl ?_ ?_ <;> rw [hp] <;>
      simp only [Call.waiting, Call.released, Call.permits, Call.unsignaled, State.goto] <;> omega
  case exchange _ max oldCount hp ho hm | spinExchange max _ oldCount hp ho hm =>
    refine h.settle rfl Call.settled_dequeuing ?_ ?_ <;> rw [hp, hm] <;>
      simp only [Call.waiting, Call.released, Call.permits, Call.unsignaled, State.goto, newCount] <;>
      split_ifs <;> omega
  case fetchSub max hp =>
    by_cases hm : s.mCount > 0 <;> simp only [hm, if_true, if_false]
    case pos =>
      refine h.settle rfl Call.settled_acquired ?_ ?_ <;> rw [hp] <;>
        simp only [Call.waiting, Call.released, Call.permits, Call.unsignaled, State.goto] <;> omega
    case neg =>
      refine h.move rfl ?_ ?_ <;> rw [hp] <;>
        simp only [Call.waiting, Call.released, Call.permits, Call.unsignaled, State.goto] <;> omega
  case wake max hp hm | tryWait max _ hp _ hm =>
    refine h.settle rfl Call.settled_acquired ?_ ?_ <;> rw [hp] <;>
      simp only [Call.waiting, Call.released, Call.permits, Call.unsignaled, State.goto] <;> omega
  case zero caller max oldCount hp _ =>
    refine h.settle rfl Call.settled_onZero ?_ ?_ <;> rw [hp] <;>
      simp only [Call.waiting, Call.released, Call.permits, Call.unsignaled, State.goto] <;> omega
  case dequeue left q item rest hp hq =>
    refine h.settle rfl Call.settled_dequeuing ?_ ?_ <;> rw [hp]
    case refine_1 => simp only [Call.waiting, Call.released, State.goto]; omega
    case refine_2 =>
      have hu := total_update (f := List.length) (c := s.inner) (p := q) (a := rest)
      rw [hq, List.length_cons] at hu
      simp only [State.goto, Call.released, Call.permits, Call.unsignaled]
      omega
  -- The other operations only read.
  all_goals
    refine h.move rfl ?_ ?_ <;> simp only [State.goto, *] <;> rfl

omit [DecidableEq ι] in
theorem Balanced.initial [Fintype ι] : Balanced (State.initial : State ι μ) where
  waiting  := by simp [total, State.initial, Call.waiting, Call.released]
  elements := by simp [total, State.initial, Call.released, Call.permits, Call.unsignaled]

theorem Balanced.runs [Fintype ι] (h : Balanced s) (hs : Runs mMaxSpins s s') : Balanced s' := by
  induction hs
  case refl          => exact h
  case tail hs hi    => exact hs.elim fun _ hs => hi.step hs

-- No element is lost, duplicated or moved before an earlier one of its producer.
def Conserved (s : State ι μ) : Prop :=
  ∀ p, s.sent p = sentBy p s.received ++ s.inner p

theorem Conserved.step (h : Conserved s) (hs : Step mMaxSpins p s s') : Conserved s' := by
  intro q
  have h := h q
  cases hs
  case enqueueBulk items _ =>
    dsimp only [State.goto]
    by_cases hq : q = p
    case pos => rw [hq] at h ⊢; rw [Function.update_self, Function.update_self, h, List.append_assoc]
    case neg => rw [Function.update_of_ne hq, Function.update_of_ne hq, h]
  case dequeue he =>
    dsimp only [State.goto]
    rw [h, dequeue_apply he, sentBy_append, List.append_assoc]
  all_goals exact h

theorem Conserved.runs (h : Conserved s) (hs : Runs mMaxSpins s s') : Conserved s' := by
  induction hs
  case refl       => exact h
  case tail hs hi => exact hs.elim fun _ hs => hi.step hs

end Balance

end ConcurrentQueue
