import Mathlib
import MhoLauncher.Library.Channel

open Channel Relation

namespace Log

-- Where a thread is in a call to `log`.
inductive Call (μ : Type)
  | idle
  | formatted (msg : μ)
  | enqueued  (msg : μ)

-- Where the consumer is in `run_events`.
inductive Consumer (ε : Type)
  | loop
  | waiting
  | dequeued (event : ε)
  | printed  (event : ε)
  | writing  (event : ε)
  | left

-- Where the loader is in `log_shutdown`.
inductive Shutdown
  | idle
  | entered
  | stopped
  | done

-- The state after `log_init`. An event carries the thread that logged it. The last three fields are the
-- history of the threads, and have no counterpart in the source: the messages that were enqueued, those
-- whose call to `log` has completed, and those whose call had completed when `log_shutdown` was called.
structure State (ι μ : Type) where
  isRunning : Bool
  isOpen    : Bool
  logFile   : List (ι × μ)
  cout      : List (ι × μ)
  events    : Channel ι μ
  producer  : ι → Call μ
  consumer  : Consumer (ι × μ)
  shutdown  : Shutdown
  sent      : Channel ι μ
  completed : Channel ι μ
  before    : Channel ι μ

variable {ι μ : Type} [DecidableEq ι]

def State.initial : State ι μ where
  isRunning := true
  isOpen    := true
  logFile   := []
  cout      := []
  events    := fun _ => []
  producer  := fun _ => .idle
  consumer  := .loop
  shutdown  := .idle
  sent      := fun _ => []
  completed := fun _ => []
  before    := fun _ => []

inductive Step : State ι μ → State ι μ → Prop
  | format {s p} (msg) : s.producer p = .idle →
    Step s { s with producer := Function.update s.producer p (.formatted msg) }
  | enqueue {s p msg} : s.producer p = .formatted msg →
    Step s { s with
      producer := Function.update s.producer p (.enqueued msg)
      events   := s.events.enqueue p msg
      sent     := s.sent.enqueue p msg }
  | return {s p msg} : s.producer p = .enqueued msg →
    Step s { s with
      producer  := Function.update s.producer p .idle
      completed := s.completed.enqueue p msg }
  | running {s} : s.consumer = .loop → s.isRunning →
    Step s { s with consumer := .waiting }
  | leave {s} : s.consumer = .loop → ¬s.isRunning →
    Step s { s with consumer := .left }
  -- This can also happen if there are events.
  | timeout {s} : s.consumer = .waiting →
    Step s { s with consumer := .loop }
  | dequeue {s p msg rest} : s.consumer = .waiting → s.events p = msg :: rest →
    Step s { s with consumer := .dequeued (p, msg), events := Function.update s.events p rest }
  | print {s event} : s.consumer = .dequeued event →
    Step s { s with consumer := .printed event, cout := s.cout ++ [event] }
  | opened {s event} : s.consumer = .printed event → s.isOpen →
    Step s { s with consumer := .writing event }
  | closed {s event} : s.consumer = .printed event → ¬s.isOpen →
    Step s { s with consumer := .loop }
  -- The file may have been closed since it was tested, in which case nothing is written.
  | write {s event} : s.consumer = .writing event →
    Step s { s with consumer := .loop, logFile := if s.isOpen then s.logFile ++ [event] else s.logFile }
  | logShutdown {s} : s.shutdown = .idle →
    Step s { s with shutdown := .entered, before := s.completed }
  | stop {s} : s.shutdown = .entered →
    Step s { s with shutdown := .stopped, isRunning := false }
  | close {s} : s.shutdown = .stopped →
    Step s { s with shutdown := .done, isOpen := false }

abbrev Runs : State ι μ → State ι μ → Prop :=
  ReflTransGen Step

section Invariant

variable {s s' : State ι μ}

-- The event that was taken out of the queue, but not printed.
def Consumer.held {ε : Type} : Consumer ε → List ε
  | dequeued event => [event]
  | _              => []

-- The event that was printed, but may not be in the file yet.
def Consumer.pending {ε : Type} : Consumer ε → List ε
  | printed event | writing event => [event]
  | _                             => []

def Call.inFlight : Call μ → List μ
  | enqueued msg => [msg]
  | _            => []

-- No event is duplicated or reordered on its way from a thread to the standard output.
def Conserved (s : State ι μ) : Prop :=
  ∀ p, s.sent p = sentBy p (s.cout ++ s.consumer.held) ++ s.events p

-- The calls of a thread complete in order.
structure Ordered (s : State ι μ) : Prop where
  sent   : ∀ p, s.sent p = s.completed p ++ (s.producer p).inFlight
  before : ∀ p, s.before p <+: s.completed p

-- The flags have the values that the progress of the shutdown implies.
structure Staged (s : State ι μ) : Prop where
  running : s.isRunning ↔ s.shutdown = .idle ∨ s.shutdown = .entered
  opened  : s.isOpen ↔ s.shutdown ≠ .done

-- At most one event is printed but not written. The loop is about to be left then.
def Written (s : State ι μ) : Prop :=
  s.cout = s.logFile ++ s.consumer.pending ∨
  ¬s.isRunning ∧ (s.consumer = .loop ∨ s.consumer = .left) ∧ ∃ event, s.cout = s.logFile ++ [event]

theorem Conserved.step (h : Conserved s) (hs : Step s s') : Conserved s' := by
  intro q
  have h := h q
  cases hs
  case format | «return» | logShutdown | stop | close => exact h
  case enqueue =>
    dsimp only
    rw [enqueue_apply, enqueue_apply, h, List.append_assoc]
  case dequeue hc he =>
    have hw : (Consumer.waiting : Consumer (ι × μ)).held = [] := rfl
    rw [hc, dequeue_apply he, hw, List.append_nil, ←List.append_assoc, ←sentBy_append] at h
    exact h
  case print hc =>
    rw [hc] at h
    exact h.trans <| congrArg (sentBy q · ++ _) (List.append_nil _).symm
  case running hc _ | leave hc _ | timeout hc | opened hc _ | closed hc _ | write hc =>
    rw [hc] at h
    exact h

theorem Ordered.step (h : Ordered s) (hs : Step s s') : Ordered s' := by
  have ⟨hc, hb⟩ := h
  cases hs
  case format p msg hp =>
    refine ⟨fun q => (hc q).trans <| congrArg _ ?_, hb⟩
    dsimp only
    by_cases hq : q = p
    case pos => rw [hq, Function.update_self, hp]; rfl
    case neg => rw [Function.update_of_ne hq]
  case enqueue p msg hp =>
    refine ⟨fun q => ?_, hb⟩
    dsimp only
    rw [enqueue_apply, hc q, List.append_assoc]
    by_cases hq : q = p
    case pos => rw [hq, Function.update_self, hp, sentBy_self]; rfl
    case neg => rw [Function.update_of_ne hq, sentBy_of_ne (Ne.symm hq), List.append_nil]
  case «return» p msg hp =>
    refine ⟨fun q => ?_, fun q => (hb q).trans ?_⟩ <;> dsimp only <;> rw [enqueue_apply]
    case refine_2 => exact List.prefix_append ..
    rw [hc q, List.append_assoc]
    by_cases hq : q = p
    case pos => rw [hq, Function.update_self, hp, sentBy_self]; rfl
    case neg => rw [Function.update_of_ne hq, sentBy_of_ne (Ne.symm hq), List.nil_append]
  case logShutdown => exact ⟨hc, fun p => List.prefix_rfl⟩
  all_goals exact ⟨hc, hb⟩

theorem Staged.step (h : Staged s) (hs : Step s s') : Staged s' := by
  have ⟨hr, ho⟩ := h
  cases hs
  case logShutdown hi => exact ⟨by simp [hr, hi], by simp [ho, hi]⟩
  case stop hi        => exact ⟨by simp, by simp [ho, hi]⟩
  case close hi       => exact ⟨by simp [hr, hi], by simp⟩
  all_goals exact ⟨hr, ho⟩

omit [DecidableEq ι] in
theorem Staged.not_running (h : Staged s) (hc : ¬s.isOpen) : ¬s.isRunning := by
  rw [h.opened, not_not] at hc
  simp [h.running, hc]

omit [DecidableEq ι] in
theorem Written.of_running {c : Consumer (ι × μ)} (h : Written s) (hc : s.consumer = c) (hr : s.isRunning) :
    s.cout = s.logFile ++ c.pending :=
  hc ▸ h.resolve_right fun h => h.left hr

omit [DecidableEq ι] in
theorem Written.of_ne {c : Consumer (ι × μ)} (h : Written s) (hc : s.consumer = c) (hl : c ≠ .loop)
    (hn : c ≠ .left) :
    s.cout = s.logFile ++ c.pending :=
  hc ▸ h.resolve_right fun h => h.right.left.elim (hc ▸ hl) (hc ▸ hn)

-- The loop only goes on with an event after it has seen that it is running, which is the case until the file is
-- closed.
theorem Written.step (h : Written s) (hst : Staged s) (hs : Step s s') : Written s' := by
  cases hs
  case format | enqueue | «return» | logShutdown | close => exact h
  case stop => exact h.imp_right fun ⟨_, h⟩ => ⟨Bool.false_ne_true, h⟩
  case running hc hr =>
    have h := h.of_running hc hr
    exact .inl h
  case leave hc hr =>
    cases h
    case inl h =>
      rw [hc] at h
      exact .inl h
    case inr h => exact .inr ⟨hr, .inr rfl, h.right.right⟩
  case timeout hc | dequeue hc _ | opened hc _ =>
    have h := h.of_ne hc nofun nofun
    exact .inl h
  case print event hc =>
    have h := h.of_ne hc nofun nofun
    exact .inl <| congrArg (· ++ [event]) <| h.trans <| List.append_nil _
  case closed event hc ho => exact .inr ⟨hst.not_running ho, .inl rfl, event, h.of_ne hc nofun nofun⟩
  case write event hc =>
    have h := h.of_ne hc nofun nofun
    rw [Written]
    dsimp only
    by_cases ho : s.isOpen
    case pos =>
      rw [if_pos ho]
      exact .inl <| h.trans (List.append_nil _).symm
    case neg =>
      rw [if_neg ho]
      exact .inr ⟨hst.not_running ho, .inl rfl, event, h⟩

structure Inv (s : State ι μ) : Prop where
  conserved : Conserved s
  ordered   : Ordered s
  staged    : Staged s
  written   : Written s

theorem Inv.initial : Inv (State.initial : State ι μ) where
  conserved _ := rfl
  ordered     := ⟨fun _ => rfl, fun _ => List.prefix_rfl⟩
  staged      := ⟨by simp [State.initial], by simp [State.initial]⟩
  written     := .inl rfl

theorem Inv.step (h : Inv s) (hs : Step s s') : Inv s' where
  conserved := h.conserved.step hs
  ordered   := h.ordered.step hs
  staged    := h.staged.step hs
  written   := h.written.step h.staged hs

theorem Inv.runs (h : Inv s) (hr : Runs s s') : Inv s' := by
  induction hr
  case refl            => exact h
  case tail _ hs hi => exact hi.step hs

theorem Step.logFile_prefix (hs : Step s s') : s.logFile <+: s'.logFile := by
  cases hs
  case write =>
    dsimp only
    split
    case isTrue  => exact List.prefix_append ..
    case isFalse => exact List.prefix_rfl
  all_goals exact List.prefix_rfl

theorem logFile_prefix (hr : Runs s s') : s.logFile <+: s'.logFile := by
  induction hr
  case refl           => exact List.prefix_rfl
  case tail _ hs hi => exact hi.trans hs.logFile_prefix

-- All completed messages are in the file if none is in the queue or on its way to the file.
theorem Inv.drained (h : Inv s) (hi : s.shutdown = .idle) (he : ∀ p, s.events p = [])
    (hc : s.consumer = .loop ∨ s.consumer = .waiting) (p : ι) : s.completed p <+: sentBy p s.logFile := by
  have hf : s.cout = s.logFile ++ s.consumer.pending :=
    h.written.of_running rfl <| h.staged.running.mpr <| .inl hi
  have hs : s.sent p = sentBy p s.logFile := by
    rw [h.conserved p, hf, he]
    cases hc <;> rename_i hc <;> rw [hc] <;> simp [Consumer.pending, Consumer.held]
  exact hs ▸ h.ordered.sent p ▸ List.prefix_append ..

end Invariant

-- When the loop was left, the messages that a thread has enqueued are those in the file, followed by those that
-- remain in the queue. At most one message, which was taken out of the queue when the file was being closed, is
-- lost in between. All messages are in the file if the queue was drained when the shutdown began.
theorem logFile_after_loop (s : State ι μ) (hr : Runs .initial s) (hl : s.consumer = .left) :
    (∃ lost, lost.length ≤ 1 ∧ s.cout = s.logFile ++ lost ∧
      ∀ p, s.sent p = sentBy p s.logFile ++ sentBy p lost ++ s.events p ∧ s.before p <+: s.sent p) ∧
    ∀ s₁, Runs .initial s₁ → Runs s₁ s → s₁.shutdown = .idle → (∀ p, s₁.events p = []) →
      (s₁.consumer = .loop ∨ s₁.consumer = .waiting) → ∀ p, s₁.completed p <+: sentBy p s.logFile := by
  have h := Inv.initial.runs hr
  constructor
  case left =>
    have hs (p) : s.before p <+: s.sent p :=
      (h.ordered.before p).trans <| h.ordered.sent p ▸ List.prefix_append ..
    have hc (p) : s.sent p = sentBy p s.cout ++ s.events p := by
      have hc := h.conserved p
      rw [hl] at hc
      exact hc.trans <| congrArg (sentBy p · ++ _) <| List.append_nil _
    cases h.written
    case inl hw =>
      rw [hl] at hw
      refine ⟨[], Nat.zero_le _, hw, fun p => ⟨?_, hs p⟩⟩
      rw [hc, hw, sentBy_append]
      rfl
    case inr hw =>
      have ⟨event, hw⟩ := hw.right.right
      refine ⟨[event], Nat.le_refl _, hw, fun p => ⟨?_, hs p⟩⟩
      rw [hc, hw, sentBy_append]
  case right =>
    intro s₁ hr₁ hr₂ hi he hc p
    exact (Inv.initial.runs hr₁ |>.drained hi he hc p).trans <| sentBy_prefix <| logFile_prefix hr₂

section Example

-- A message is logged.
theorem exists_completed :
    ∃ s : State Unit Nat, Runs .initial s ∧ s.consumer = .loop ∧ s.isRunning ∧ s.isOpen ∧ s.shutdown = .idle ∧
      s.events () = [7] ∧ s.completed () = [7] ∧ s.logFile = [] := by
  have h₁ : Runs (.initial : State Unit Nat) _ := .single <| .format (p := ()) 7 rfl
  have h₂ := h₁.tail <| .enqueue (p := ()) rfl
  have h₃ := h₂.tail <| .return (p := ()) rfl
  exact ⟨_, h₃, rfl, rfl, rfl, rfl, rfl, rfl, rfl⟩

-- The only message is written.
theorem exists_written {s : State Unit Nat} (hc : s.consumer = .loop) (hr : s.isRunning) (ho : s.isOpen)
    (he : s.events () = [7]) :
    ∃ s', Runs s s' ∧ s'.consumer = .loop ∧ s'.shutdown = s.shutdown ∧ (∀ p, s'.events p = []) ∧
      s'.completed = s.completed := by
  have h₁ : Runs s _ := .single <| .running hc hr
  have h₂ := h₁.tail <| .dequeue rfl he
  have h₃ := h₂.tail <| .print rfl
  have h₄ := h₃.tail <| .opened rfl ho
  have h₅ := h₄.tail <| .write rfl
  exact ⟨_, h₅, rfl, rfl, fun _ => rfl, rfl⟩

theorem exists_left {s : State Unit Nat} (hi : s.shutdown = .idle) (hc : s.consumer = .loop) :
    ∃ s', Runs s s' ∧ s'.consumer = .left ∧ s'.before = s.completed ∧ s'.logFile = s.logFile := by
  have h₁ : Runs s _ := .single <| .logShutdown hi
  have h₂ := h₁.tail <| .stop rfl
  have h₃ := h₂.tail <| .leave hc Bool.false_ne_true
  exact ⟨_, h₃, rfl, rfl, rfl⟩

-- The message is written before the shutdown.
theorem logFile_after_loop_written :
    ∃ s : State Unit Nat, Runs .initial s ∧ s.consumer = .left ∧ [7] <+: sentBy () s.logFile := by
  have ⟨s₁, h₁, hc₁, hr, ho, hi₁, he₁, hm₁, _⟩ := exists_completed
  have ⟨s₂, h₂, hc₂, hi₂, he₂, hm₂⟩ := exists_written hc₁ hr ho he₁
  have hi₂ := hi₂.trans hi₁
  have ⟨s, h, hl, _⟩ := exists_left hi₂ hc₂
  have hw := logFile_after_loop s ((h₁.trans h₂).trans h) hl |>.right s₂ (h₁.trans h₂) h hi₂ he₂ (.inl hc₂) ()
  exact ⟨s, (h₁.trans h₂).trans h, hl, hm₁ ▸ hm₂ ▸ hw⟩

-- The message remains in the queue, although its call to `log` was completed before the shutdown.
theorem backlog_not_written :
    ∃ s : State Unit Nat, Runs .initial s ∧ s.consumer = .left ∧ 7 ∈ s.before () ∧
      7 ∉ sentBy () s.logFile := by
  have ⟨s₁, h₁, hc, _, _, hi, _, hm, hf⟩ := exists_completed
  have ⟨s, h, hl, hb, hf'⟩ := exists_left hi hc
  refine ⟨s, h₁.trans h, hl, ?_, ?_⟩
  · rw [hb, hm]
    exact List.mem_singleton_self _
  · rw [hf', hf]
    exact List.not_mem_nil

end Example

end Log
