import Mathlib
import MhoLauncher.ConcurrentQueue.Calls
import MhoLauncher.Log.Shutdown

open Channel Relation

namespace Log.Events

-- The threads that call `log`, the one of `run_events` and the one that calls `log_shutdown`.
inductive Thread (ι : Type)
  | logger (p : ι)
  | consumer
  | loader

-- Where the consumer is in `run_events`. In `wait_dequeue_timed`, `event` is what was dequeued.
inductive Consumer (ε : Type)
  | loop
  | waiting  (event : Option ε)
  | dequeued (event : ε)
  | printed  (event : ε)
  | writing  (event : ε)
  | left

-- The queue is used by the loggers and by the consumer, which is `none`.
abbrev Queue (ι μ : Type) := ConcurrentQueue.State (Option ι) μ

-- The state after `log_init`. The last two fields are the history of the loggers.
structure State (ι μ : Type) where
  isRunning : Bool
  isOpen    : Bool
  logFile   : List (ι × μ)
  cout      : List (ι × μ)
  events    : Queue ι μ
  producer  : ι → Call μ
  consumer  : Consumer (ι × μ)
  shutdown  : Shutdown
  completed : Channel ι μ
  before    : Channel ι μ

variable {ι μ : Type} [DecidableEq ι] {mMaxSpins : ℕ}

def State.initial : State ι μ where
  isRunning := true
  isOpen    := true
  logFile   := []
  cout      := []
  events    := .initial
  producer  := fun _ => .idle
  consumer  := .loop
  shutdown  := .idle
  completed := fun _ => []
  before    := fun _ => []

-- `enqueue` and `wait_dequeue_timed`, up to the first operation on the queue.
def Queue.enqueue (events : Queue ι μ) (p : ι) (msg : μ) : Queue ι μ :=
  { events.goto (some p) (.enqueued 1) with
    inner := Function.update events.inner (some p) (events.inner (some p) ++ [msg])
    sent  := Function.update events.sent (some p) (events.sent (some p) ++ [msg]) }

def Queue.waitDequeueTimed (events : Queue ι μ) : Queue ι μ :=
  events.goto none (.tryWaitMany .waitMany 1)

inductive Step (mMaxSpins : ℕ) : Thread ι → State ι μ → State ι μ → Prop
  | format {s p} (msg) : s.producer p = .idle →
    Step mMaxSpins (.logger p) s { s with producer := Function.update s.producer p (.formatted msg) }
  | enqueue {s p msg} : s.producer p = .formatted msg →
    Step mMaxSpins (.logger p) s { s with
      producer := Function.update s.producer p (.enqueued msg)
      events   := s.events.enqueue p msg }
  | signal {s p events} : s.events.call (some p) ≠ .idle →
    ConcurrentQueue.Step mMaxSpins (some p) s.events events →
    Step mMaxSpins (.logger p) s { s with events := events }
  | return {s p msg} : s.producer p = .enqueued msg → s.events.call (some p) = .idle →
    Step mMaxSpins (.logger p) s { s with
      producer  := Function.update s.producer p .idle
      completed := s.completed.enqueue p msg }
  | running {s} : s.consumer = .loop → s.isRunning →
    Step mMaxSpins .consumer s { s with consumer := .waiting none, events := s.events.waitDequeueTimed }
  | leave {s} : s.consumer = .loop → ¬s.isRunning →
    Step mMaxSpins .consumer s { s with consumer := .left }
  | wait {s event events} : s.consumer = .waiting event → s.events.call none ≠ .idle →
    ConcurrentQueue.Step mMaxSpins none s.events events → events.received = s.events.received →
    Step mMaxSpins .consumer s { s with events := events }
  | dequeue {s event events p msg} : s.consumer = .waiting event → s.events.call none ≠ .idle →
    ConcurrentQueue.Step mMaxSpins none s.events events →
    events.received = s.events.received ++ [(some p, msg)] →
    Step mMaxSpins .consumer s { s with consumer := .waiting (some (p, msg)), events := events }
  -- `wait_dequeue_timed` returns false.
  | timeout {s} : s.consumer = .waiting none → s.events.call none = .idle →
    Step mMaxSpins .consumer s { s with consumer := .loop }
  | dequeued {s event} : s.consumer = .waiting (some event) → s.events.call none = .idle →
    Step mMaxSpins .consumer s { s with consumer := .dequeued event }
  | print {s event} : s.consumer = .dequeued event →
    Step mMaxSpins .consumer s { s with consumer := .printed event, cout := s.cout ++ [event] }
  | opened {s event} : s.consumer = .printed event → s.isOpen →
    Step mMaxSpins .consumer s { s with consumer := .writing event }
  | closed {s event} : s.consumer = .printed event → ¬s.isOpen →
    Step mMaxSpins .consumer s { s with consumer := .loop }
  | write {s event} : s.consumer = .writing event →
    Step mMaxSpins .consumer s { s with
      consumer := .loop
      logFile  := if s.isOpen then s.logFile ++ [event] else s.logFile }
  | logShutdown {s} : s.shutdown = .idle →
    Step mMaxSpins .loader s { s with shutdown := .entered, before := s.completed }
  | stop {s} : s.shutdown = .entered →
    Step mMaxSpins .loader s { s with shutdown := .stopped, isRunning := false }
  | close {s} : s.shutdown = .stopped →
    Step mMaxSpins .loader s { s with shutdown := .done, isOpen := false }

abbrev Runs (mMaxSpins : ℕ) : State ι μ → State ι μ → Prop :=
  ReflTransGen fun s s' => ∃ t, Step mMaxSpins t s s'

-- A run of the consumer in which the other threads do nothing.
abbrev Alone (mMaxSpins : ℕ) : State ι μ → State ι μ → Prop :=
  ReflTransGen (Step mMaxSpins .consumer)

-- The same state over a queue whose calls are one operation. An event is in the queue until it is dequeued.
def Consumer.log {ε : Type} : Consumer ε → Log.Consumer ε
  | loop                 => .loop
  | waiting none         => .waiting
  | waiting (some event) => .dequeued event
  | dequeued event       => .dequeued event
  | printed event        => .printed event
  | writing event        => .writing event
  | left                 => .left

def State.log (s : State ι μ) : Log.State ι μ where
  isRunning := s.isRunning
  isOpen    := s.isOpen
  logFile   := s.logFile
  cout      := s.cout
  events p  := s.events.inner (some p)
  producer  := s.producer
  consumer  := s.consumer.log
  shutdown  := s.shutdown
  sent p    := s.events.sent (some p)
  completed := s.completed
  before    := s.before

section Coherent

variable {s s' : State ι μ} {t : Thread ι} {p : ι} {msg : μ}

-- The calls to the queue that a logger makes.
def Calls : Call μ → ConcurrentQueue.Call → Prop
  | .idle, c | .formatted _, c => c = .idle
  | .enqueued _, c             => c.Enqueues

def Consumer.Calls {ε : Type} : Consumer ε → ConcurrentQueue.Call → Prop
  | waiting none, c     => c.Awaits
  | waiting (some _), c => c = .dequeuing 0 ∨ c = .idle
  | _, c                => c = .idle

-- The threads use the queue the way it is meant to, and only the loggers put events in it.
structure Coherent (mMaxSpins : ℕ) (s : State ι μ) : Prop where
  runs     : ConcurrentQueue.Runs mMaxSpins .initial s.events
  producer : ∀ p, Calls (s.producer p) (s.events.call (some p))
  consumer : s.consumer.Calls (s.events.call none)
  inner    : s.events.inner none = []
  left     : s.consumer = .left → ¬s.isRunning

theorem Coherent.initial : Coherent mMaxSpins (.initial : State ι μ) where
  runs       := .refl
  producer _ := rfl
  consumer   := rfl
  inner      := rfl
  left       := nofun

theorem Calls.enqueues {c : Call μ} {call : ConcurrentQueue.Call} (h : Calls c call) : call.Enqueues := by
  cases c
  case enqueued => exact h
  all_goals
    rw [show call = _ from h]
    trivial

theorem Calls.step {c : Call μ} {call call' : ConcurrentQueue.Call} (h : Calls c call) (hi : call ≠ .idle)
    (hc : call'.Enqueues) : Calls c call' := by
  cases c
  case enqueued => exact hc
  all_goals exact absurd h hi

-- A logger moves. Its call to the queue is the only one that changes.
theorem Coherent.move (h : Coherent mMaxSpins s) (hr : ConcurrentQueue.Runs mMaxSpins .initial s'.events)
    (hp : ∀ q, q ≠ p → s'.producer q = s.producer q)
    (hc : ∀ q, q ≠ some p → s'.events.call q = s.events.call q)
    (hcp : Calls (s'.producer p) (s'.events.call (some p))) (hn : s'.events.inner none = [])
    (hs : s'.consumer = s.consumer) (hl : s'.isRunning = s.isRunning) : Coherent mMaxSpins s' where
  runs     := hr
  inner    := hn
  left     := hs ▸ hl ▸ h.left
  consumer := by
    rw [hs, hc none <| Option.some_ne_none p |>.symm]
    exact h.consumer
  producer q := by
    by_cases hq : q = p
    case pos => rw [hq]; exact hcp
    case neg =>
      rw [hp q hq, hc (some q) <| hq ∘ Option.some.inj]
      exact h.producer q

-- The consumer moves.
theorem Coherent.consume (h : Coherent mMaxSpins s) (hr : ConcurrentQueue.Runs mMaxSpins .initial s'.events)
    (hp : s'.producer = s.producer) (hc : ∀ q, q ≠ none → s'.events.call q = s.events.call q)
    (hcn : s'.consumer.Calls (s'.events.call none)) (hn : s'.events.inner none = [])
    (hl : s'.consumer = .left → ¬s'.isRunning) : Coherent mMaxSpins s' where
  runs       := hr
  inner      := hn
  left       := hl
  consumer   := hcn
  producer q := by
    rw [hp, hc (some q) <| Option.some_ne_none q]
    exact h.producer q

-- A call for one event dequeues one.
theorem Consumer.Calls.dequeued {ε : Type} {event : Option ε} {events events' : Queue ι μ} {p : Option ι}
    (h : (Consumer.waiting event).Calls (events.call none)) (hi : events.call none ≠ .idle)
    (hs : ConcurrentQueue.Step mMaxSpins none events events')
    (hr : events'.received = events.received ++ [(p, msg)]) : events'.call none = .dequeuing 0 := by
  cases hs.taken hi
  case none hn => simp [hn] at hr
  case one left _ _ _ hb ha _ _ _ =>
    rw [hb] at h
    cases event
    case none  => exact ha.trans <| congrArg _ <| Nat.succ.inj h
    case some => exact h.elim nofun nofun

theorem Coherent.step (h : Coherent mMaxSpins s) (hs : Step mMaxSpins t s s') : Coherent mMaxSpins s' := by
  cases hs
  case format p msg hp =>
    have hc := h.producer p
    rw [hp] at hc
    refine h.move (p := p) h.runs ?_ (fun _ _ => rfl) ?_ h.inner rfl rfl
    case refine_1 => exact fun q hq => Function.update_of_ne hq ..
    case refine_2 => dsimp only; rw [Function.update_self]; exact hc
  case enqueue p msg hp =>
    have hc := h.producer p
    rw [hp] at hc
    refine h.move (p := p) ?_ ?_ ?_ ?_ ?_ rfl rfl
    case refine_1 => exact h.runs.tail ⟨some p, .enqueueBulk [msg] hc⟩
    case refine_2 => exact fun q hq => Function.update_of_ne hq ..
    case refine_3 => exact fun q hq => Function.update_of_ne hq ..
    case refine_4 =>
      dsimp only [Queue.enqueue]
      rw [Function.update_self, ConcurrentQueue.State.goto_call_self]
      trivial
    case refine_5 =>
      dsimp only [Queue.enqueue]
      rw [Function.update_of_ne (Option.some_ne_none p).symm, h.inner]
  case signal p events hi hs =>
    refine h.move (p := p) (h.runs.tail ⟨_, hs⟩) (fun _ _ => rfl) (fun q => hs.call_of_ne) ?_ ?_ rfl rfl
    case refine_1 => exact (h.producer p).step hi <| hs.enqueues (h.producer p).enqueues hi
    case refine_2 => exact hs.inner_eq_nil hi h.inner
  case «return» p msg hp hi =>
    refine h.move (p := p) h.runs ?_ (fun _ _ => rfl) ?_ h.inner rfl rfl
    case refine_1 => exact fun q hq => Function.update_of_ne hq ..
    case refine_2 => dsimp only; rw [Function.update_self]; exact hi
  case running hc _ =>
    have hi := h.consumer
    rw [hc] at hi
    refine h.consume (h.runs.tail ⟨none, .waitDequeueBulk 1 hi⟩) rfl ?_ ?_ h.inner nofun
    case refine_1 => exact fun q hq => Function.update_of_ne hq ..
    case refine_2 =>
      dsimp only [Queue.waitDequeueTimed]
      rw [ConcurrentQueue.State.goto_call_self]
      exact ⟨rfl, rfl⟩
  case wait event events hc hi hs hr =>
    have hn := h.consumer
    rw [hc] at hn
    refine h.consume (h.runs.tail ⟨_, hs⟩) rfl (fun q => hs.call_of_ne) ?_ (hs.inner_eq_nil hi h.inner) h.left
    dsimp only
    rw [hc]
    cases event
    case none      => exact hs.awaits hn hi hr
    case some event => exact .inr <| hs.dequeued_eq <| hn.resolve_right hi
  case dequeue event events p msg hc hi hs hr =>
    have hn := h.consumer
    rw [hc] at hn
    refine h.consume (h.runs.tail ⟨_, hs⟩) rfl (fun q => hs.call_of_ne) ?_ (hs.inner_eq_nil hi h.inner) nofun
    exact .inl <| hn.dequeued hi hs hr
  case leave hc hr =>
    have hn := h.consumer
    rw [hc] at hn
    exact h.consume h.runs rfl (fun _ _ => rfl) hn h.inner fun _ => hr
  case timeout hc hi => exact h.consume h.runs rfl (fun _ _ => rfl) hi h.inner nofun
  case dequeued event hc hi => exact h.consume h.runs rfl (fun _ _ => rfl) hi h.inner nofun
  case print event hc | opened event hc _ | closed event hc _ | write event hc =>
    have hn := h.consumer
    rw [hc] at hn
    exact h.consume h.runs rfl (fun _ _ => rfl) hn h.inner nofun
  case stop  => exact { h with left := fun _ => Bool.false_ne_true }
  case logShutdown | close => exact { h with }

theorem log_update {α : Type} {c : Option ι → α} {a : α} :
    (fun q => Function.update c (some p) a (some q)) = Function.update (fun q => c (some q)) p a :=
  Function.update_comp_eq_of_injective' c (Option.some_injective _) p a

theorem Coherent.runs_of (h : Coherent mMaxSpins s) (hr : Runs mMaxSpins s s') : Coherent mMaxSpins s' := by
  induction hr
  case refl          => exact h
  case tail _ hs hi => exact hs.elim fun _ hs => hi.step hs

omit [DecidableEq ι] in
-- The semaphore and the calls to the queue are not visible.
theorem log_eq {events : Queue ι μ} (hi : events.inner = s.events.inner) (hs : events.sent = s.events.sent) :
    { s with events := events }.log = s.log := by
  rw [State.log, hi, hs]
  rfl

omit [DecidableEq ι] in
theorem log_eq_of_consumer {c : Consumer (ι × μ)} (h : c.log = s.consumer.log) :
    { s with consumer := c }.log = s.log := by
  rw [State.log, h]
  rfl

omit [DecidableEq ι] in
theorem log_consumer {c : Consumer (ι × μ)} (h : s.consumer = c) : s.log.consumer = c.log :=
  congrArg Consumer.log h

theorem log_enqueue :
    { s with
      producer := Function.update s.producer p (.enqueued msg)
      events   := s.events.enqueue p msg }.log =
    { s.log with
      producer := Function.update s.log.producer p (.enqueued msg)
      events   := s.log.events.enqueue p msg
      sent     := s.log.sent.enqueue p msg } := by
  simp only [State.log, Queue.enqueue, log_update, Channel.enqueue]

theorem log_dequeue {events : Queue ι μ} {rest : List μ} (hs : events.sent = s.events.sent)
    (hi : events.inner = Function.update s.events.inner (some p) rest) :
    { s with consumer := .waiting (some (p, msg)), events := events }.log =
    { s.log with consumer := .dequeued (p, msg), events := Function.update s.log.events p rest } := by
  simp only [State.log, Consumer.log, hs, hi, log_update]

-- A call that dequeues an event has not dequeued one.
theorem Consumer.Calls.eq_none {ε : Type} {event : Option ε} {left : ℕ} {call : ConcurrentQueue.Call}
    (h : (Consumer.waiting event).Calls call) (hc : call = .dequeuing (left + 1)) : event = none := by
  cases event
  case none => rfl
  case some =>
    rw [hc] at h
    exact h.elim nofun nofun

theorem Coherent.simulates_dequeue {event : Option (ι × μ)} {events : Queue ι μ} (h : Coherent mMaxSpins s)
    (hc : s.consumer = .waiting event) (hi : s.events.call none ≠ .idle)
    (hs : ConcurrentQueue.Step mMaxSpins none s.events events)
    (hr : events.received = s.events.received ++ [(some p, msg)]) :
    Log.Step s.log { s with consumer := .waiting (some (p, msg)), events := events }.log := by
  have hn := h.consumer
  rw [hc] at hn
  cases hs.taken hi
  case none hr' => simp [hr'] at hr
  case one hb _ hf hi' hr' =>
    have he := List.singleton_inj.mp <| List.append_cancel_left <| hr'.symm.trans hr
    rw [(Prod.mk.inj he).left] at hf hi'
    rw [(Prod.mk.inj he).right] at hf
    rw [hn.eq_none hb] at hc
    rw [log_dequeue (hs.sent hi) hi']
    exact .dequeue (log_consumer hc) hf

-- A step is one of the system whose queue has one operation for each call, or is not visible there. An event is
-- enqueued and dequeued by the operation on the inner queue.
theorem Coherent.simulates (h : Coherent mMaxSpins s) (hs : Step mMaxSpins t s s') :
    s'.log = s.log ∨ Log.Step s.log s'.log := by
  cases hs
  case format p msg hp           => exact .inr <| .format msg hp
  case enqueue p msg hp =>
    rw [log_enqueue]
    exact .inr <| .enqueue hp
  case «return» p msg hp hi      => exact .inr <| .return hp
  case logShutdown hi            => exact .inr <| .logShutdown hi
  case stop hi                   => exact .inr <| .stop hi
  case close hi                  => exact .inr <| .close hi
  case running hc hr             => exact .inr <| .running (log_consumer hc) hr
  case leave hc hr               => exact .inr <| .leave (log_consumer hc) hr
  case timeout hc hi             => exact .inr <| .timeout (log_consumer hc)
  case print event hc            => exact .inr <| .print (log_consumer hc)
  case opened event hc ho        => exact .inr <| .opened (log_consumer hc) ho
  case closed event hc ho        => exact .inr <| .closed (log_consumer hc) ho
  case write event hc            => exact .inr <| .write (log_consumer hc)
  case dequeue event events p msg hc hi hs hr => exact .inr <| h.simulates_dequeue hc hi hs hr
  case dequeued event hc hi =>
    exact .inl <| log_eq_of_consumer <| hc ▸ rfl
  case wait event events hc hi hs hr =>
    cases hs.taken hi
    case none hn _       => exact .inl <| log_eq hn <| hs.sent hi
    case one hr'     => simp [hr'] at hr
  case signal p events hi hs =>
    cases hs.taken hi
    case none hn _ => exact .inl <| log_eq hn <| hs.sent hi
    case one hb _ _ _ _ =>
      have hn := (h.producer p).enqueues
      rw [hb] at hn
      exact hn.elim

theorem Coherent.simulates_runs (h : Coherent mMaxSpins s) (hr : Runs mMaxSpins s s') :
    Log.Runs s.log s'.log := by
  induction hr
  case refl            => exact .refl
  case tail hr hs hi =>
    obtain ⟨t, hs⟩ := hs
    cases (h.runs_of hr).simulates hs
    case inl he => exact he ▸ hi
    case inr hs => exact hi.tail hs

end Coherent

section Drains

variable {s s' : State ι μ} {event : Option (ι × μ)} {e : ι × μ}

-- The loop is to go on, and no logger is in a call to the queue.
structure Quiet (mMaxSpins : ℕ) (s : State ι μ) : Prop where
  coherent : Coherent mMaxSpins s
  running  : s.isRunning
  opened   : s.isOpen
  idle     : ∀ p, s.events.call (some p) = .idle

theorem Quiet.step (h : Quiet mMaxSpins s) (hs : Step mMaxSpins .consumer s s') : Quiet mMaxSpins s' where
  coherent := h.coherent.step hs
  running  := by cases hs <;> exact h.running
  opened   := by cases hs <;> exact h.opened
  idle p   := by
    cases hs
    case running =>
      dsimp only [Queue.waitDequeueTimed, ConcurrentQueue.State.goto]
      rw [Function.update_of_ne (Option.some_ne_none p), h.idle p]
    case wait hs _ | dequeue hs _ => exact (hs.call_of_ne <| Option.some_ne_none p).trans <| h.idle p
    all_goals exact h.idle p

theorem Quiet.alone (h : Quiet mMaxSpins s) (hs : Alone mMaxSpins s s') : Quiet mMaxSpins s' := by
  induction hs
  case refl         => exact h
  case tail hs hi => exact hi.step hs

theorem sent_of_alone (hs : Alone mMaxSpins s s') : s'.events.sent = s.events.sent := by
  induction hs
  case refl => rfl
  case tail hs hi =>
    refine Eq.trans ?_ hi
    cases hs
    case wait hi hs _ | dequeue hi hs _ => exact hs.sent hi
    all_goals rfl

-- The consumer gets back to the start of the loop without the queue.
def Returns (mMaxSpins : ℕ) (s : State ι μ) : Prop :=
  ∃ s', Alone mMaxSpins s s' ∧ s'.consumer = .loop ∧ s'.events = s.events

theorem Step.returns (hs : Step mMaxSpins .consumer s s') (he : s'.events = s.events)
    (h : Returns mMaxSpins s') : Returns mMaxSpins s :=
  have ⟨u, hu, hc, he'⟩ := h
  ⟨u, .head hs hu, hc, he'.trans he⟩

theorem Returns.of_loop (hc : s.consumer = .loop) : Returns mMaxSpins s :=
  ⟨s, .refl, hc, rfl⟩

theorem Returns.of_writing (hc : s.consumer = .writing e) : Returns mMaxSpins s :=
  Step.returns (.write hc) rfl <| .of_loop rfl

theorem Returns.of_printed (hc : s.consumer = .printed e) : Returns mMaxSpins s := by
  by_cases ho : s.isOpen
  case pos => exact Step.returns (.opened hc ho) rfl <| .of_writing rfl
  case neg => exact Step.returns (.closed hc ho) rfl <| .of_loop rfl

theorem Returns.of_dequeued (hc : s.consumer = .dequeued e) : Returns mMaxSpins s :=
  Step.returns (.print hc) rfl <| .of_printed rfl

theorem Returns.of_waiting (hc : s.consumer = .waiting event) (hi : s.events.call none = .idle) :
    Returns mMaxSpins s := by
  cases event
  case none => exact Step.returns (.timeout hc hi) rfl <| .of_loop rfl
  case some => exact Step.returns (.dequeued hc hi) rfl <| .of_dequeued rfl

-- What the consumer can do with the queue within its call is a run of the consumer.
theorem Quiet.within {events : Queue ι μ} (h : Quiet mMaxSpins s) (hc : s.consumer = .waiting event)
    (hw : ConcurrentQueue.Within mMaxSpins none s.events events) :
    ∃ event, Alone mMaxSpins s { s with consumer := .waiting event, events := events } := by
  induction hw
  case refl => exact ⟨event, hc ▸ .refl⟩
  case tail hs hi =>
    obtain ⟨event, ha⟩ := hi
    obtain ⟨hi, hs⟩ := hs
    cases hs.taken hi
    case none hr => exact ⟨event, ha.tail <| .wait rfl hi hs hr⟩
    case one _ q item _ _ _ hf hn hr =>
      cases q
      case none   => exact absurd (hf.symm.trans (h.alone ha).coherent.inner) nofun
      case some p => exact ⟨some (p, item), ha.tail <| .dequeue rfl hi hs hr⟩

-- All events are out of the queue.
structure Drained (s : State ι μ) : Prop where
  consumer : s.consumer = .loop ∨ s.consumer = .waiting none
  inner    : ∀ q, s.events.inner q = []

def Drains (mMaxSpins : ℕ) (s : State ι μ) : Prop :=
  ∃ s', Alone mMaxSpins s s' ∧ Drained s'

theorem Drains.of_alone (ha : Alone mMaxSpins s s') (h : Drains mMaxSpins s') : Drains mMaxSpins s :=
  have ⟨u, hu, hd⟩ := h
  ⟨u, ha.trans hu, hd⟩

-- The messages of a drained queue are in the file.
theorem Drained.logFile (h : Drained s) (hi : Log.Inv s.log) (hr : s.isRunning) (p : ι) :
    sentBy p s.logFile = s.events.sent (some p) := by
  have hc : s.log.consumer.held = [] ∧ s.log.consumer.pending = [] := by
    cases h.consumer <;> rw [log_consumer ‹_›] <;> exact ⟨rfl, rfl⟩
  have he : s.log.events p = [] := h.inner (some p)
  have hs := hi.conserved p
  have hw : s.log.cout = _ := hi.written.of_running rfl hr
  rw [hc.left, List.append_nil, he, List.append_nil] at hs
  rw [hc.right, List.append_nil] at hw
  exact (hs.trans <| congrArg _ hw).symm

variable [Fintype ι]

theorem Quiet.ready (h : Quiet mMaxSpins s) : ConcurrentQueue.Ready none s.events where
  balanced      := .reachable h.coherent.runs
  released q hq := by
    obtain ⟨p, rfl⟩ := Option.ne_none_iff_exists'.mp hq
    rw [h.idle p]
    rfl

-- What the threads that are not the consumer have is nothing.
theorem Quiet.total_eq {f : ConcurrentQueue.Call → ℕ} (h : Quiet mMaxSpins s) (hf : f .idle = 0)
    (hc : f (s.events.call none) = 0) : total f s.events.call = 0 := by
  refine total_eq_zero_iff.mpr fun q => ?_
  cases q
  case none   => exact hc
  case some p => exact h.idle p ▸ hf

-- While no thread is in a call, the count is the number of events.
theorem Quiet.mCount (h : Quiet mMaxSpins s) (hc : s.events.call none = .idle)
    (hi : ∃ q, s.events.inner q ≠ []) : s.events.mCount > 0 := by
  have hw := h.ready.balanced.waiting
  have he := h.ready.balanced.elements
  rw [h.total_eq rfl <| hc ▸ rfl, h.total_eq rfl <| hc ▸ rfl] at hw
  rw [h.total_eq rfl <| hc ▸ rfl, h.total_eq rfl <| hc ▸ rfl, h.total_eq rfl <| hc ▸ rfl] at he
  obtain ⟨q, hq⟩ := hi
  have hl := apply_le_total (f := List.length) (c := s.events.inner) (p := q)
  have hp := List.length_pos_iff.mpr hq
  omega

theorem Quiet.drains_of_loop (h : Quiet mMaxSpins s) (hc : s.consumer = .loop) : Drains mMaxSpins s := by
  induction hn : total List.length s.events.inner using Nat.strong_induction_on generalizing s
  case h n hi =>
    by_cases he : ∀ q, s.events.inner q = []
    case pos => exact ⟨s, .refl, .inl hc, he⟩
    case neg =>
      have hcall := h.coherent.consumer
      rw [hc] at hcall
      have hr : Step mMaxSpins .consumer s _ := .running hc h.running
      have hm := h.mCount hcall <| not_forall.mp he
      have ⟨events, hw, hidle, hlt⟩ : ConcurrentQueue.Takes mMaxSpins none s.events.waitDequeueTimed :=
        (h.step hr).ready.takes ConcurrentQueue.State.goto_call_self hm
      obtain ⟨event, ha⟩ := (h.step hr).within rfl hw
      have ⟨u, hu, hcu, heu⟩ : Returns mMaxSpins { s with consumer := .waiting event, events := events } :=
        .of_waiting rfl hidle
      have ha := (ReflTransGen.head hr ha).trans hu
      exact .of_alone ha <| hi _ (hn ▸ heu ▸ hlt) (h.alone ha) hcu rfl

theorem Quiet.drains_of_returns (h : Quiet mMaxSpins s) (hr : Returns mMaxSpins s) : Drains mMaxSpins s :=
  have ⟨_, hs, hc, _⟩ := hr
  .of_alone hs <| (h.alone hs).drains_of_loop hc

theorem Quiet.drains_of_waiting (h : Quiet mMaxSpins s) (hc : s.consumer = .waiting event)
    (ha : (s.events.call none).Awaits ∨ s.events.call none = .dequeuing 0) : Drains mMaxSpins s := by
  obtain ⟨events, hw, hd⟩ := h.ready.within <| ha.elim ConcurrentQueue.Call.Awaits.not_signals (· ▸ id)
  obtain ⟨event, hs⟩ := h.within hc hw
  have h := h.alone hs
  refine .of_alone hs ?_
  cases hd
  case inl hi => exact h.drains_of_returns <| .of_waiting rfl hi
  case inr hd =>
    obtain ⟨⟨max, hm⟩, hu⟩ := hd
    -- The consumer sleeps because nothing is in the queue.
    have hn : total List.length events.inner = 0 := by
      have hp := h.total_eq (f := ConcurrentQueue.Call.permits) rfl <| hm ▸ rfl
      have hs := h.total_eq (f := ConcurrentQueue.Call.unsignaled) rfl <| hm ▸ rfl
      exact hu.right.trans <| by rw [hp, hs]
    have he := h.coherent.consumer
    cases event
    case none =>
      exact ⟨_, .refl, .inr rfl, fun q => List.length_eq_zero_iff.mp <| total_eq_zero_iff.mp hn q⟩
    case some e =>
      rw [hm] at he
      exact he.elim nofun nofun

theorem Quiet.drains (h : Quiet mMaxSpins s) : Drains mMaxSpins s := by
  have hn := h.coherent.consumer
  cases hc : s.consumer <;> rw [hc] at hn
  case loop     => exact h.drains_of_loop hc
  case dequeued => exact h.drains_of_returns <| .of_dequeued hc
  case printed  => exact h.drains_of_returns <| .of_printed hc
  case writing  => exact h.drains_of_returns <| .of_writing hc
  case left     => exact absurd h.running <| h.coherent.left hc
  case waiting event =>
    cases event
    case none => exact h.drains_of_waiting hc <| .inl hn
    case some =>
      cases hn
      case inl hn => exact h.drains_of_waiting hc <| .inr hn
      case inr hn => exact h.drains_of_returns <| .of_waiting hc hn

end Drains

variable {s : State ι μ}

-- The semaphore, the spinning and the timeouts of the queue are not visible in what is logged. Each run is one of
-- the system in which `enqueue` and `wait_dequeue_timed` are single operations, and goes on like one.
theorem run_events_refines (h : Runs mMaxSpins .initial s) :
    Log.Runs .initial s.log ∧ ∀ t s', Step mMaxSpins t s s' → s'.log = s.log ∨ Log.Step s.log s'.log :=
  ⟨Coherent.initial.simulates_runs h, fun _ _ => (Coherent.initial.runs_of h).simulates⟩

-- While the file is open, the consumer does not need the other threads to get everything that was enqueued into
-- the file, in the order of each thread, if no thread is about to signal the semaphore.
theorem run_events_drains [Fintype ι] (h : Runs mMaxSpins .initial s) (hr : s.isRunning) (ho : s.isOpen)
    (hi : ∀ p, s.events.call (some p) = .idle) :
    ∃ s', Alone mMaxSpins s s' ∧ (s'.consumer = .loop ∨ s'.consumer = .waiting none) ∧
      ∀ p, sentBy p s'.logFile = s.events.sent (some p) := by
  have hq : Quiet mMaxSpins s := ⟨Coherent.initial.runs_of h, hr, ho, hi⟩
  obtain ⟨s', hs, hd⟩ := hq.drains
  have hq' := hq.alone hs
  have hl : Log.Inv s'.log := Log.Inv.initial.runs <| (Coherent.initial.simulates_runs h).trans <|
    hq.coherent.simulates_runs <| hs.lift id fun _ _ hs => ⟨_, hs⟩
  exact ⟨s', hs, hd.consumer, fun p => sent_of_alone hs ▸ hd.logFile hl hq'.running p⟩

section Example

-- A message is logged while the consumer sleeps, and the kernel's semaphore is released.
theorem exists_sleeping : ∃ s : State Unit ℕ, Runs 0 .initial s ∧ s.isRunning ∧ s.isOpen ∧
    s.events.call none = .sleeping 1 ∧ s.events.mSema = 1 ∧ s.events.call (some ()) = .idle ∧
    s.events.sent (some ()) = [7] ∧ s.logFile = [] ∧ s.consumer = .waiting none := by
  have hs : Runs 0 (.initial : State Unit ℕ) _ := .single ⟨.consumer, .running rfl rfl⟩
  have hs := hs.tail ⟨.consumer, .wait rfl nofun (.load rfl) rfl⟩
  have hs := hs.tail ⟨.consumer, .wait rfl nofun (.zero rfl (lt_irrefl 0)) rfl⟩
  have hs := hs.tail ⟨.consumer, .wait rfl nofun (.fetchSub rfl) rfl⟩
  have hs := hs.tail ⟨.logger (), .format 7 rfl⟩
  have hs := hs.tail ⟨.logger (), .enqueue rfl⟩
  have hs := hs.tail ⟨.logger (), .signal nofun (.signal rfl)⟩
  have hs := hs.tail ⟨.logger (), .signal nofun (.release rfl (by decide))⟩
  exact ⟨_, hs, rfl, rfl, rfl, rfl, rfl, rfl, rfl, rfl⟩

-- The consumer is woken up.
theorem run_events_refines_sleeping : ∃ s s' : State Unit ℕ, s.events.call none = .sleeping 1 ∧
    Step 0 .consumer s s' ∧ s'.events.call none = .dequeuing 1 ∧ Log.Runs .initial s.log ∧
    (s'.log = s.log ∨ Log.Step s.log s'.log) := by
  obtain ⟨s, hs, _, _, hc, hm, _, _, _, hw⟩ := exists_sleeping
  have hq : ConcurrentQueue.Step 0 none s.events _ := .wake hc <| hm ▸ one_pos
  have ht : Step 0 .consumer s _ := .wait hw (hc ▸ nofun) hq rfl
  have ⟨hr, hl⟩ := run_events_refines hs
  exact ⟨s, _, hc, ht, rfl, hr, hl _ _ ht⟩

theorem run_events_drains_sleeping : ∃ s s' : State Unit ℕ, s.events.call none = .sleeping 1 ∧ s.logFile = [] ∧
    Alone 0 s s' ∧ sentBy () s'.logFile = [7] := by
  obtain ⟨s, hs, hr, ho, hc, _, hi, hn, hf, _⟩ := exists_sleeping
  obtain ⟨s', ha, _, hl⟩ := run_events_drains hs hr ho fun _ => hi
  exact ⟨s, s', hc, hf, ha, hn ▸ hl ()⟩

end Example

end Log.Events
