import Mathlib
import MhoLauncher.ConcurrentQueue.Progress

open Channel Relation

namespace ConcurrentQueue

variable {ι μ : Type} [DecidableEq ι] {mMaxSpins : ℕ} {s s' : State ι μ} {p : ι}

-- A call to `enqueue`.
def Call.Enqueues : Call → Prop
  | idle | enqueued _ | releasing _ => True
  | _                               => False

-- A call to `wait_dequeue_timed` for one element, that was not dequeued yet.
def Call.Awaits : Call → Prop
  | idle                                                                      => True
  | tryWaitMany caller max | tried caller max _                               => caller = .waitMany ∧ max = 1
  | spinning max _ | spun max .. | sleeping max | adjusting max | adjusted max _ => max = 1
  | dequeuing left                                                            => left = 1
  | enqueued _ | releasing _                                                  => False

theorem newCount_one {oldCount : ℤ} (h : oldCount > 0) : (oldCount - newCount oldCount 1).toNat = 1 := by
  rw [newCount]
  split <;> omega

theorem Step.enqueues (hs : Step mMaxSpins p s s') (h : (s.call p).Enqueues) (hi : s.call p ≠ .idle) :
    (s'.call p).Enqueues := by
  cases hs
  case signal =>
    rw [State.goto_call_self]
    split <;> trivial
  case release          => rw [State.goto_call_self]; trivial
  case enqueueBulk hp | tryDequeueBulk hp | waitDequeueBulk hp => exact absurd hp hi
  all_goals
    rw [‹s.call p = _›] at h
    exact h.elim

theorem Step.awaits (hs : Step mMaxSpins p s s') (h : (s.call p).Awaits) (hi : s.call p ≠ .idle)
    (hr : s'.received = s.received) : (s'.call p).Awaits := by
  cases hs
  case enqueueBulk hp | tryDequeueBulk hp | waitDequeueBulk hp => exact absurd hp hi
  case signal hp | release hp _ =>
    rw [hp] at h
    exact h.elim
  case dequeued hp =>
    rw [hp] at h
    exact absurd h Nat.zero_ne_one
  case dequeue => simp at hr
  case exchange hp ho _ =>
    rw [hp] at h
    rw [State.goto_call_self, h.left, h.right]
    exact (Nat.zero_add _).trans <| newCount_one ho
  case spinExchange hp ho _ =>
    rw [hp] at h
    rw [State.goto_call_self, show _ = 1 from h]
    exact newCount_one ho
  case zero hp _ =>
    rw [hp] at h
    rw [State.goto_call_self, h.left, h.right]
    rfl
  case fetchSub hp =>
    rw [hp] at h
    rw [State.goto_call_self, show _ = 1 from h]
    split <;> rfl
  case wake hp _ | tryWait hp _ _ =>
    rw [hp] at h
    rw [State.goto_call_self, show _ = 1 from h]
    rfl
  case adjust => rw [State.goto_call_self]; trivial
  all_goals
    rw [‹s.call p = _›] at h
    rw [State.goto_call_self]
    exact h

-- What an operation within a call changes apart from the semaphore.
inductive Taken (p : ι) (s s' : State ι μ) : Prop
  | none (inner : s'.inner = s.inner) (received : s'.received = s.received)
  | one {left q item rest} (before : s.call p = .dequeuing (left + 1)) (after : s'.call p = .dequeuing left)
      (front : s.inner q = item :: rest) (inner : s'.inner = Function.update s.inner q rest)
      (received : s'.received = s.received ++ [(q, item)])

theorem Step.taken (hs : Step mMaxSpins p s s') (hi : s.call p ≠ .idle) : Taken p s s' := by
  cases hs
  case enqueueBulk hp => exact absurd hp hi
  case dequeue hp hq  => exact .one hp State.goto_call_self hq rfl rfl
  all_goals exact .none rfl rfl

theorem Step.dequeued_eq (hs : Step mMaxSpins p s s') (h : s.call p = .dequeuing 0) : s'.call p = .idle := by
  cases hs
  case dequeued => exact State.goto_call_self
  all_goals
    rw [‹s.call p = _›] at h
    nomatch h

theorem Step.inner_eq_nil {q : ι} (hs : Step mMaxSpins p s s') (hi : s.call p ≠ .idle) (h : s.inner q = []) :
    s'.inner q = [] := by
  cases hs.taken hi
  case none hn _ => rw [hn, h]
  case one hf hn _ =>
    rw [hn, Function.update_of_ne, h]
    rintro rfl
    exact List.cons_ne_nil _ _ <| hf.symm.trans h

theorem Step.sent (hs : Step mMaxSpins p s s') (hi : s.call p ≠ .idle) : s'.sent = s.sent := by
  cases hs
  case enqueueBulk hp => exact absurd hp hi
  all_goals rfl

-- A run of a thread within a call.
abbrev Within (mMaxSpins : ℕ) (p : ι) : State ι μ → State ι μ → Prop :=
  ReflTransGen fun s s' => s.call p ≠ .idle ∧ Step mMaxSpins p s s'

theorem Call.Awaits.not_signals {c : Call} (h : c.Awaits) : ¬c.Signals := by
  cases c <;> first | exact id | exact False.elim h

-- A run without the steps of another thread, to the end of the call or to sleep.
theorem Ready.within [Fintype ι] (h : Ready p s) (hc : ¬(s.call p).Signals) :
    ∃ s', Within mMaxSpins p s s' ∧ Rests p s' := by
  have ha : Able p s := ⟨h, fun hs => absurd hs hc⟩
  obtain ⟨s', hr, hd⟩ := (ha.inevitable true).exists_reaches
  exact ⟨s', hr.lift id fun _ _ hs => ⟨hs.call, hs.step⟩, hd⟩

-- The call ends with an element, without a step of another thread.
def Takes [Fintype ι] (mMaxSpins : ℕ) (p : ι) (s : State ι μ) : Prop :=
  ∃ s', Within mMaxSpins p s s' ∧ s'.call p = .idle ∧ total List.length s'.inner < total List.length s.inner

-- The rest of the call of a thread that has acquired one element.
theorem Ready.takes_acquired [Fintype ι] (h : Ready p s) (hp : s.call p = .dequeuing 1) :
    Takes mMaxSpins p s := by
  obtain ⟨q, hq⟩ := h.balanced.exists_element (p := p) <| hp ▸ Nat.one_ne_zero
  obtain ⟨item, rest, he⟩ := List.exists_cons_of_ne_nil hq
  have hd : Step mMaxSpins p s _ := .dequeue hp he
  have hc : Within mMaxSpins p s _ := .single ⟨ne_of_eq_of_ne hp nofun, hd⟩
  have hc := hc.tail ⟨ne_of_eq_of_ne State.goto_call_self nofun, .dequeued State.goto_call_self⟩
  have ht := total_update (f := List.length) (c := s.inner) (p := q) (a := rest)
  rw [he, List.length_cons] at ht
  exact ⟨_, hc, State.goto_call_self, by simp only [State.goto]; omega⟩

-- If the count is positive, the fast path takes an element.
theorem Ready.takes [Fintype ι] (h : Ready p s) (hp : s.call p = .tryWaitMany .waitMany 1) (hm : s.mCount > 0) :
    Takes mMaxSpins p s := by
  have hl : Step mMaxSpins p s _ := .load hp
  have ht : (s.goto p (.tried .waitMany 1 s.mCount)).call p = .tried .waitMany 1 s.mCount :=
    State.goto_call_self
  have hx : Step mMaxSpins p _ _ := .exchange ht hm rfl
  have hd : Caller.waitMany.held + (s.mCount - newCount s.mCount 1).toNat = 1 :=
    (Nat.zero_add _).trans <| newCount_one hm
  have ⟨s', hs, hi, hn⟩ : Takes mMaxSpins p _ :=
    (h.step hl |>.step hx).takes_acquired <| State.goto_call_self.trans <| congrArg _ hd
  exact ⟨s', .head ⟨ne_of_eq_of_ne hp nofun, hl⟩ <| .head ⟨ne_of_eq_of_ne ht nofun, hx⟩ hs, hi, hn⟩

end ConcurrentQueue
