import Mathlib
import MhoLauncher.CryGame.Backtrace
import MhoLauncher.CryGame.PathB
import MhoLauncher.CryGame.PathBResolve

open Bytes Edit HookTable

namespace CryGame.PathB

open SubscriberDiff

-- The commands that `is_spawn_cmd` lets through.
def spawnCmds : List DWord :=
  [528, 533, 534, 641, 648, 650, 651, 662, 663, 714, 720, 730]

-- A subscriber of a list, with its callback and where that is in the module.
structure Subscriber where
  node : DWord
  cb   : DWord
  off  : DWord

-- What the hooks log. A list is logged with the number of its subscribers, and one line for each of them.
inductive Entry
  | cmdDispSwitch (outer inner cmd packet ret off stub listOff : DWord)
  | dispCmd (cmd this ret off : DWord)
  | unreadable (tag : String) (cmd this head : DWord)
  | list (tag : String) (cmd this head : DWord) (subscribers : List Subscriber)
  | change (event : SubscriberDiff.Event)
  | backtrace (event : CryGame.Event)

section Source

variable (getModuleHandle : String → DWord) (m : ProcessMemory) (b : Bases) (ctx : DWord)

def relativeCryOffset (address : DWord) : DWord :=
  if b.crygameBase = 0 ∨ address < b.crygameBase then 0 else address - b.crygameBase

def Subscriber.load (node : DWord) : Subscriber :=
  let cb := (m.safeReadValue 4 (node + 12)).getD 0
  ⟨node, cb, relativeCryOffset b cb⟩

-- The lines of `path_b_walk_and_diff` about the list.
def pathBWalkAndDiff.listing (tag : String) (cgamelogic listOffset cmdId : DWord) : Entry :=
  let head := cgamelogic + listOffset
  match m.safeReadValue 4 head with
  | none       => .unreadable tag cmdId cgamelogic head
  | some first =>
    let nodes := if first ≠ head then walk m head PATH_B_DIFF_NODES first else []
    .list tag cmdId cgamelogic head (nodes.map (.load m b))

def pathBWalkAndDiff.log (tag : String) (cgamelogic listOffset cmdId : DWord) (s : DiffState) :
    List Entry × DiffState :=
  let (events, s) := pathBWalkAndDiff m cgamelogic listOffset cmdId s
  (listing m b tag cgamelogic listOffset cmdId :: events.map .change, s)

-- The variables that the hooks share.
structure Hooks where
  bases          : Bases
  pathBDiffState : DiffState

-- The command of a packet that is to be logged.
def spawnCmd (packetPtr : DWord) : Option DWord :=
  if packetPtr < 0x10000 then
    none
  else
    m.safeReadValue 2 packetPtr |>.map (·.setWidth 32) |>.filter spawnCmds.contains

def onCmdDispatchSwitch (s : Hooks) : Option (List Entry × Hooks) := do
  let retAddr ← m.deref (hookStack ctx 0)
  let packetPtr ← m.deref (hookStack ctx 1)
  match spawnCmd m packetPtr with
  | none          => return ([], s)
  | some packetId =>
    let ecx ← m.deref (ctx + 24)
    let innerThis := (m.safeReadValue 4 (ecx + 0x3c)).getD 0
    let (resolved, out) := pathBResolve m s.bases.crygameBase packetId ⟨some 0, some 0⟩
    let stub := out.stubVaOut.getD 0
    let listOff := out.listOffsetOut.getD 0
    let entry := .cmdDispSwitch ecx innerThis packetId packetPtr retAddr (relativeCryOffset s.bases retAddr)
      (if resolved then stub else 0) (if resolved then listOff else 0)
    let (entries, pathBDiffState) :=
      if resolved ∧ innerThis ≠ 0 then
        pathBWalkAndDiff.log m s.bases "CmdDispSwitch.list" innerThis listOff packetId s.pathBDiffState
      else
        ([], s.pathBDiffState)
    let (events, bases) ← logBacktrace getModuleHandle m ctx "CmdDispSwitch" 16 s.bases
    return (entry :: entries ++ events.map .backtrace, ⟨bases, pathBDiffState⟩)

-- The callback of the hook on the dispatcher of one command.
def onDispatchCmd (tag : String) (listOffset cmd : DWord) (s : Hooks) : Option (List Entry × Hooks) := do
  let ret ← m.deref (hookStack ctx 0)
  let ecx ← m.deref (ctx + 24)
  let entry := .dispCmd cmd ecx ret (relativeCryOffset s.bases ret)
  let (entries, pathBDiffState) := pathBWalkAndDiff.log m s.bases tag ecx listOffset cmd s.pathBDiffState
  return (entry :: entries, { s with pathBDiffState := pathBDiffState })

def onDispatchCmd641 : Hooks → Option (List Entry × Hooks) :=
  onDispatchCmd m ctx "DispCmd641" 0x570 641

def onDispatchCmd648 : Hooks → Option (List Entry × Hooks) :=
  onDispatchCmd m ctx "DispCmd648" 0x5e0 648

def onDispatchCmd651 : Hooks → Option (List Entry × Hooks) :=
  onDispatchCmd m ctx "DispCmd651" 0x5f8 651

end Source

inductive Hook
  | cmdDispatchSwitch
  | dispatchCmd641
  | dispatchCmd648
  | dispatchCmd651

-- A call of a hook, in the state of the process at that time.
structure Callback where
  hook            : Hook
  getModuleHandle : String → DWord
  memory          : ProcessMemory
  ctx             : DWord

def Callback.exec (c : Callback) : Hooks → Option (List Entry × Hooks) :=
  match c.hook with
  | .cmdDispatchSwitch => onCmdDispatchSwitch c.getModuleHandle c.memory c.ctx
  | .dispatchCmd641    => onDispatchCmd641 c.memory c.ctx
  | .dispatchCmd648    => onDispatchCmd648 c.memory c.ctx
  | .dispatchCmd651    => onDispatchCmd651 c.memory c.ctx

def Callback.append (c : Callback) (p : List Entry × Hooks) : Option (List Entry × Hooks) :=
  (c.exec p.2).map fun (entries, s) => (p.1 ++ entries, s)

-- The log and the variables after a sequence of calls, unless one of them is a fault.
def session (bases : Bases) (cs : List Callback) : Option (List Entry × Hooks) :=
  cs.foldlM (fun p c => c.append p) ([], ⟨bases, initial⟩)

section Spec

-- The nodes of a command's last list in a log.
def Entry.list? : Entry → Option (DWord × List DWord)
  | list _ cmd _ _ subscribers => some (cmd, subscribers.map Subscriber.node)
  | _                          => none

def Entry.change? : Entry → Option SubscriberDiff.Event
  | change event => some event
  | _            => none

def listed (log : List Entry) (cmd : DWord) : List DWord :=
  log.filterMap Entry.list? |>.foldl (fun listed l => Function.update listed l.1 l.2) (fun _ => []) <| cmd

-- A change that is read from the log. Other than for `replay`, it need not change the set.
def register (cmd : DWord) (nodes : Finset DWord) (event : SubscriberDiff.Event) : Finset DWord :=
  if event.cmd = cmd then
    match event.edit with
    | .add node    => insert node nodes
    | .remove node => nodes.erase node
  else
    nodes

-- The subscribers of a command that the changes in a log report.
def registered (log : List Entry) (cmd : DWord) : Finset DWord :=
  log.filterMap Entry.change? |>.foldl (register cmd) ∅

-- After a list, exactly the differences to the last list of the command are logged, whichever hook logged it.
inductive Accounted : List Entry → Prop
  | nil : Accounted []
  | other {log entry} : Accounted log → entry.list? = none → entry.change? = none → Accounted (log ++ [entry])
  | list {log entry cmd nodes} : Accounted log → entry.list? = some (cmd, nodes) → cmd ∈ spawnCmds →
    Accounted (log ++ entry :: (diff (listed log cmd) nodes).map fun edit => .change (.of cmd edit))

-- What the trampoline has pushed, and the argument of the hooked function, can be read.
structure Callback.Readable (c : Callback) : Prop where
  ebp : ∃ ebp, c.memory.deref (c.ctx + 8) = some ebp
  ecx : ∃ ecx, c.memory.deref (c.ctx + 24) = some ecx
  ret : ∃ ret, c.memory.deref (hookStack c.ctx 0) = some ret
  arg : ∃ arg, c.memory.deref (hookStack c.ctx 1) = some arg

end Spec

section Log

variable {log entries : List Entry} {entry : Entry} {cmd c : DWord} {nodes old new : List DWord}
  {s : DiffState} {i : Fin PATH_B_DIFF_CMDS}

theorem listed_append_nil (h : entries.filterMap Entry.list? = []) : listed (log ++ entries) = listed log := by
  funext cmd
  rw [listed, List.filterMap_append, h, List.append_nil]
  rfl

theorem listed_append_list (he : entry.list? = some (cmd, nodes)) (h : entries.filterMap Entry.list? = []) :
    listed (log ++ entry :: entries) = Function.update (listed log) cmd nodes := by
  funext c
  rw [listed, List.filterMap_append, List.filterMap_cons_some he, h, List.foldl_append]
  rfl

theorem list?_changes (edits : List (Edit DWord)) :
    (edits.map fun edit => Entry.change (.of cmd edit)).filterMap Entry.list? = [] :=
  List.filterMap_eq_nil_iff.mpr fun _ he => by
    obtain ⟨_, _, rfl⟩ := List.mem_map.mp he
    rfl

-- The cache holds the last list of each command.
structure Mirrors (log : List Entry) (s : DiffState) : Prop where
  spawn  : ∀ i, (s i).cmdId ≠ 0 → (s i).cmdId ∈ spawnCmds
  inj    : ∀ i j, (s i).cmdId ≠ 0 → (s i).cmdId = (s j).cmdId → i = j
  nodes  : ∀ i, (s i).cmdId ≠ 0 → (s i).nodes = listed log (s i).cmdId
  absent : ∀ cmd ≠ 0, (∀ i, (s i).cmdId ≠ cmd) → listed log cmd = []

theorem Mirrors.initial : Mirrors [] initial where
  spawn _ h   := absurd rfl h
  inj _ _ h   := absurd rfl h
  nodes _ h   := absurd rfl h
  absent _ _ _ := rfl

theorem Mirrors.congr {log' : List Entry} (h : Mirrors log s) (he : listed log' = listed log) :
    Mirrors log' s :=
  ⟨h.spawn, h.inj, he ▸ h.nodes, he ▸ h.absent⟩

-- There are fewer commands than slots.
theorem Mirrors.free (h : Mirrors log s) : ∃ i, (s i).cmdId = 0 := by
  by_contra hz
  have hz : ∀ i, (s i).cmdId ≠ 0 := not_exists.mp hz
  have hc := Finset.card_le_card_of_injOn (s := Finset.univ) (t := spawnCmds.toFinset) (fun i => (s i).cmdId)
    (fun i _ => List.mem_toFinset.mpr <| h.spawn i <| hz i) (fun i _ j _ he => h.inj i j (hz i) he)
  rw [Finset.card_univ, Fintype.card_fin] at hc
  exact absurd hc (by decide)

theorem Mirrors.take (h : Mirrors log s) (hi : (s i).cmdId = 0) (hn : ∀ j, (s j).cmdId ≠ cmd)
    (hc : cmd ∈ spawnCmds) (hz : cmd ≠ 0) : Mirrors log (Function.update s i ⟨cmd, [], Nat.zero_le _⟩) where
  spawn j hj := by
    by_cases hji : j = i
    case pos => rw [hji, Function.update_self]; exact hc
    case neg => rw [Function.update_of_ne hji] at hj ⊢; exact h.spawn j hj
  inj j k hj he := by
    by_cases hji : j = i
    case pos =>
      by_contra hki
      rw [hji, Function.update_self, Function.update_of_ne fun hk => hki <| hji.trans hk.symm] at he
      exact hn k he.symm
    case neg =>
      rw [Function.update_of_ne hji] at hj he
      by_cases hki : k = i
      case pos =>
        rw [hki, Function.update_self] at he
        exact absurd he <| hn j
      case neg =>
        rw [Function.update_of_ne hki] at he
        exact h.inj j k hj he
  nodes j hj := by
    by_cases hji : j = i
    case pos => rw [hji, Function.update_self]; exact (h.absent cmd hz hn).symm
    case neg => rw [Function.update_of_ne hji] at hj ⊢; exact h.nodes j hj
  absent c hz hn := h.absent c hz fun j hj => by
    by_cases hji : j = i
    case pos => exact hz <| hj.symm.trans <| hji ▸ hi
    case neg => exact hn j <| Function.update_of_ne hji .. ▸ hj

theorem Mirrors.slot (h : Mirrors log s) (hc : cmd ∈ spawnCmds) (hz : cmd ≠ 0) :
    ∃ i s', pathBDiffSlot s cmd = some (i, s') ∧ (s' i).cmdId = cmd ∧ Mirrors log s' := by
  rw [pathBDiffSlot]
  cases hf : (List.finRange PATH_B_DIFF_CMDS).find? fun i => (s i).cmdId = cmd
  case some i => exact ⟨i, s, rfl, by simpa using List.find?_some hf, h⟩
  case none =>
    have hn : ∀ j, (s j).cmdId ≠ cmd := by simpa using hf
    cases hi : (List.finRange PATH_B_DIFF_CMDS).find? fun i => (s i).cmdId = 0
    case some i =>
      have hi : (s i).cmdId = 0 := by simpa using List.find?_some hi
      exact ⟨i, _, rfl, congrArg _ <| Function.update_self .., h.take hi hn hc hz⟩
    case none =>
      have hi : ∀ j, (s j).cmdId ≠ 0 := by simpa using hi
      exact h.free.elim fun j hj => absurd hj <| hi j

theorem Mirrors.update {log' : List Entry} (h : Mirrors log s) (hi : (s i).cmdId = cmd)
    (hl : listed log' = Function.update (listed log) cmd new) (hn : new.length ≤ PATH_B_DIFF_NODES) :
    Mirrors log' (Function.update s i { s i with nodes := new, length_le := hn }) := by
  have hc (j) : (Function.update s i { s i with nodes := new, length_le := hn } j).cmdId = (s j).cmdId := by
    by_cases hji : j = i
    case pos => rw [hji, Function.update_self]
    case neg => rw [Function.update_of_ne hji]
  constructor
  case spawn => exact fun j hj => hc j ▸ h.spawn j (hc j ▸ hj)
  case inj   => exact fun j k hj he => h.inj j k (hc j ▸ hj) (hc j ▸ hc k ▸ he)
  case nodes =>
    intro j hj
    rw [hc] at hj ⊢
    by_cases hji : j = i
    case pos => rw [hji, Function.update_self, hi, hl, Function.update_self]
    case neg =>
      have hne : (s j).cmdId ≠ cmd := fun he => hji <| h.inj j i hj <| he.trans hi.symm
      rw [Function.update_of_ne hji, hl, Function.update_of_ne hne]
      exact h.nodes j hj
  case absent =>
    intro c hcz hn
    have hne : c ≠ cmd := fun he => hn i <| (hc i).trans <| hi.trans he.symm
    rw [hl, Function.update_of_ne hne]
    exact h.absent c hcz fun j hj => hn j <| (hc j).trans hj

-- An update of the cache logs the differences to the last list.
theorem Mirrors.pathBDiffUpdate {log' : List Entry} (h : Mirrors log s) (hc : cmd ∈ spawnCmds)
    (hl : listed log' = Function.update (listed log) cmd new) (hn : new.length ≤ PATH_B_DIFF_NODES) :
    (SubscriberDiff.pathBDiffUpdate cmd new s).1 = (diff (listed log cmd) new).map (.of cmd) ∧
    Mirrors log' (SubscriberDiff.pathBDiffUpdate cmd new s).2 := by
  have hz : cmd ≠ 0 := fun hz => absurd (hz ▸ hc) (by decide)
  obtain ⟨i, s', hs, hi, h⟩ := h.slot hc hz
  have ho : (s' i).nodes = listed log cmd := hi ▸ h.nodes i (hi ▸ hz)
  rw [SubscriberDiff.pathBDiffUpdate, hs]
  constructor
  case left  => simp only [ho, diff, List.map_append, List.map_map]; rfl
  case right =>
    have hu := h.update hi hl hn
    simp only [List.take_of_length_le hn]
    exact hu

end Log

section Inv

variable {log : List Entry} {s : DiffState} {m : ProcessMemory} {b : Bases}

structure Inv (log : List Entry) (s : DiffState) : Prop where
  accounted : Accounted log
  mirrors   : Mirrors log s

theorem Inv.other {entry : Entry} (h : Inv log s) (hl : entry.list? = none) (hc : entry.change? = none) :
    Inv (log ++ [entry]) s where
  accounted := h.accounted.other hl hc
  mirrors   := h.mirrors.congr <| listed_append_nil <| List.filterMap_cons_none hl

theorem Inv.backtrace {events : List CryGame.Event} (h : Inv log s) :
    Inv (log ++ events.map .backtrace) s := by
  induction events using List.reverseRecOn
  case nil =>
    rw [List.map_nil, List.append_nil]
    exact h
  case append_singleton events event hi =>
    rw [List.map_append, ←List.append_assoc]
    exact hi.other rfl rfl

theorem walk_length {head node : DWord} {n : Nat} : (walk m head n node).length ≤ n := by
  induction n generalizing node
  case zero => exact Nat.le_refl 0
  case succ n hi =>
    rw [walk]
    split
    case isTrue  => exact Nat.zero_le _
    case isFalse =>
      split
      case h_1 => exact Nat.succ_le_succ <| Nat.zero_le _
      case h_2 => exact Nat.succ_le_succ hi

theorem Inv.walk {tag : String} {cgamelogic listOffset cmd : DWord} (h : Inv log s) (hc : cmd ∈ spawnCmds) :
    Inv (log ++ (pathBWalkAndDiff.log m b tag cgamelogic listOffset cmd s).1)
      (pathBWalkAndDiff.log m b tag cgamelogic listOffset cmd s).2 := by
  rw [pathBWalkAndDiff.log, pathBWalkAndDiff, pathBWalkAndDiff.listing]
  cases m.safeReadValue 4 (cgamelogic + listOffset)
  case none => exact h.other rfl rfl
  case some first =>
    dsimp only
    generalize hn : (if first ≠ cgamelogic + listOffset then
      PathB.walk m (cgamelogic + listOffset) PATH_B_DIFF_NODES first else []) = nodes
    have hl : nodes.length ≤ PATH_B_DIFF_NODES := by
      rw [←hn]
      split
      case isTrue  => exact walk_length
      case isFalse => exact Nat.zero_le _
    have he : (Entry.list tag cmd cgamelogic (cgamelogic + listOffset) (nodes.map (.load m b))).list? =
        some (cmd, nodes) := by
      simp [Entry.list?, Function.comp_def, Subscriber.load]
    obtain ⟨hd, hm⟩ := h.mirrors.pathBDiffUpdate hc
      (listed_append_list he <| list?_changes <| diff (listed log cmd) nodes) hl
    rw [hd, List.map_map]
    exact ⟨h.accounted.list he hc, hm⟩

theorem Inv.walk_if {p : Prop} [Decidable p] {tag : String} {cgamelogic listOffset cmd : DWord} (h : Inv log s)
    (hc : cmd ∈ spawnCmds) :
    let logged := if p then pathBWalkAndDiff.log m b tag cgamelogic listOffset cmd s else ([], s)
    Inv (log ++ logged.1) logged.2 := by
  by_cases hp : p
  case pos => exact if_pos hp ▸ h.walk hc
  case neg =>
    rw [if_neg hp]
    dsimp only
    rw [List.append_nil]
    exact h

-- The call of a hook is no fault, and its lines continue a log that accounts for the lists.
def Continues (log : List Entry) (called : Option (List Entry × Hooks)) : Prop :=
  ∃ entries s, called = some (entries, s) ∧ Inv (log ++ entries) s.pathBDiffState

theorem Inv.onDispatchCmd {c : Callback} {s : Hooks} {tag : String} {listOffset cmd : DWord}
    (h : Inv log s.pathBDiffState) (hr : c.Readable) (hc : cmd ∈ spawnCmds) :
    Continues log (onDispatchCmd c.memory c.ctx tag listOffset cmd s) := by
  obtain ⟨ecx, he⟩ := hr.ecx
  obtain ⟨ret, hr⟩ := hr.ret
  rw [PathB.onDispatchCmd, hr, he]
  have h : Inv (log ++ [.dispCmd cmd ecx ret (relativeCryOffset s.bases ret)]) _ := h.other rfl rfl
  exact ⟨_, _, rfl, List.append_cons .. ▸ h.walk hc⟩

theorem mem_of_spawnCmd {packetPtr cmd : DWord} (h : spawnCmd m packetPtr = some cmd) : cmd ∈ spawnCmds := by
  rw [spawnCmd, Option.ite_none_left_eq_some] at h
  exact List.contains_iff_mem.mp (Option.filter_eq_some_iff.mp h.right).right

theorem Inv.onCmdDispatchSwitch {c : Callback} {s : Hooks} (h : Inv log s.pathBDiffState) (hr : c.Readable) :
    Continues log (onCmdDispatchSwitch c.getModuleHandle c.memory c.ctx s) := by
  obtain ⟨ebp, hb⟩ := hr.ebp
  obtain ⟨ecx, he⟩ := hr.ecx
  obtain ⟨arg, ha⟩ := hr.arg
  obtain ⟨ret, hr⟩ := hr.ret
  obtain ⟨_, _, bases, _, _, _, hbt⟩ :=
    logBacktrace_run c.getModuleHandle c.memory c.ctx "CmdDispSwitch" 16 s.bases hb hr
  rw [PathB.onCmdDispatchSwitch, hr, ha]
  dsimp only [Option.bind_eq_bind, Option.bind_some]
  cases hp : spawnCmd c.memory arg
  case none => exact ⟨[], s, rfl, List.append_nil log |>.symm ▸ h⟩
  case some cmd =>
    have hc := mem_of_spawnCmd hp
    rw [he, hbt]
    refine ⟨_, _, rfl, ?_⟩
    rw [←List.append_assoc, List.append_cons]
    refine .backtrace ?_
    have h (inner off stub listOff : DWord) :
        Inv (log ++ [.cmdDispSwitch ecx inner cmd arg ret off stub listOff]) s.pathBDiffState := h.other rfl rfl
    exact (h ..).walk_if hc

theorem Inv.exec {c : Callback} {s : Hooks} (h : Inv log s.pathBDiffState) (hr : c.Readable) :
    Continues log (c.exec s) := by
  rw [Callback.exec]
  cases c.hook
  case cmdDispatchSwitch => exact h.onCmdDispatchSwitch hr
  case dispatchCmd641    => exact h.onDispatchCmd hr (by decide)
  case dispatchCmd648    => exact h.onDispatchCmd hr (by decide)
  case dispatchCmd651    => exact h.onDispatchCmd hr (by decide)

theorem session_append {bases : Bases} {cs : List Callback} {c : Callback} {s : Hooks}
    (h : session bases cs = some (log, s)) : session bases (cs ++ [c]) = c.append (log, s) := by
  rw [session, List.foldlM_append, ←session, h, Option.bind_eq_bind, Option.bind_some, List.foldlM_cons]
  exact bind_pure _

theorem Inv.session {bases : Bases} {cs : List Callback} (hr : ∀ c ∈ cs, c.Readable) :
    ∃ log s, PathB.session bases cs = some (log, s) ∧ Inv log s.pathBDiffState := by
  induction cs using List.reverseRecOn
  case nil => exact ⟨[], ⟨bases, initial⟩, rfl, .nil, .initial⟩
  case append_singleton cs c hi =>
    have ⟨hr, hc⟩ := List.forall_mem_append.mp hr
    obtain ⟨log, s, hs, h⟩ := hi hr
    obtain ⟨entries, s', he, h⟩ := h.exec <| List.forall_mem_singleton.mp hc
    exact ⟨_, s', (session_append hs).trans <| congrArg _ he, h⟩

end Inv

section Register

variable {log : List Entry} {entry : Entry} {cmd c : DWord} {l old new nodes : List DWord} {s : Finset DWord}

theorem foldl_register_of_ne {edits : List (Edit DWord)} (h : c ≠ cmd) :
    (edits.map <| .of c).foldl (register cmd) s = s := by
  induction edits
  case nil => rfl
  case cons e edits hi =>
    rw [List.map_cons, List.foldl_cons, register, Event.of_cmd, if_neg h]
    exact hi

theorem foldl_register_add : (l.map fun a => .of cmd (.add a)).foldl (register cmd) s = s ∪ l.toFinset := by
  induction l generalizing s
  case nil => simp
  case cons a l hi =>
    rw [List.map_cons, List.foldl_cons, hi, register, Event.of_cmd, if_pos rfl, List.toFinset_cons,
      Finset.union_insert, ←Finset.insert_union]
    rfl

theorem foldl_register_remove :
    (l.map fun a => .of cmd (.remove a)).foldl (register cmd) s = s \ l.toFinset := by
  induction l generalizing s
  case nil => simp
  case cons a l hi =>
    rw [List.map_cons, List.foldl_cons, hi, register, Event.of_cmd, if_pos rfl, List.toFinset_cons,
      Finset.sdiff_insert, ←Finset.erase_sdiff_comm]
    rfl

theorem foldl_register_diff :
    ((diff old new).map <| .of cmd).foldl (register cmd) old.toFinset = new.toFinset := by
  rw [diff, List.map_append, List.map_map, List.map_map, List.foldl_append]
  refine (congrArg (List.foldl _ · _) foldl_register_add).trans <| foldl_register_remove.trans ?_
  ext a
  by_cases ho : a ∈ old <;> by_cases hn : a ∈ new <;> simp [ho, hn]

theorem changes_filterMap {edits : List (Edit DWord)} :
    (edits.map fun edit => Entry.change (.of c edit)).filterMap Entry.change? = edits.map (.of c) := by
  rw [List.filterMap_map]
  exact congrFun List.filterMap_eq_map edits

theorem change?_of_list? (h : entry.list? = some (c, nodes)) : entry.change? = none := by
  cases entry
  case change => nomatch h
  all_goals rfl

-- The changes of a command lead to the nodes of its last list.
theorem Accounted.registered (h : Accounted log) : registered log cmd = (listed log cmd).toFinset := by
  induction h
  case nil => rfl
  case other log entry _ hl hc hi =>
    rw [listed_append_nil <| List.filterMap_cons_none hl, ←hi, PathB.registered, List.filterMap_append,
      List.filterMap_cons_none hc, List.filterMap_nil, List.append_nil]
    rfl
  case list log entry c nodes _ hl _ hi =>
    rw [listed_append_list hl <| list?_changes _, PathB.registered, List.filterMap_append,
      List.filterMap_cons_none <| change?_of_list? hl, changes_filterMap, List.foldl_append,
      ←PathB.registered, hi]
    by_cases hc : c = cmd
    case pos => rw [hc, Function.update_self, foldl_register_diff]
    case neg => rw [Function.update_of_ne (Ne.symm hc), foldl_register_of_ne hc]

end Register

-- Whatever the memory and the lists contain, no call of a hook is a fault if what the trampoline has pushed can
-- be read. The log accounts for all lists, whichever hook has logged them: the changes of a command lead to the
-- nodes of its last list, and the cache never runs out of slots.
theorem session_accounted (bases : Bases) (cs : List Callback) (hr : ∀ c ∈ cs, c.Readable) :
    ∃ log s, session bases cs = some (log, s) ∧ Accounted log ∧
      (∀ cmd, registered log cmd = (listed log cmd).toFinset) ∧ ∃ i, (s.pathBDiffState i).cmdId = 0 := by
  obtain ⟨log, s, hs, h⟩ := Inv.session hr
  exact ⟨log, s, hs, h.accounted, fun _ => h.accounted.registered, h.mirrors.free⟩

section Example

-- The dispatcher of command 641 is called with one subscriber on the list.
def exampleCallback : Callback where
  hook              := .dispatchCmd641
  getModuleHandle _ := 0
  ctx               := 0x20000
  memory            := .ofDWords [(0x20008, 0x28000), (0x20018, 0x30000), (0x20020, 0x10621045), (0x20024, 0),
    (0x30570, 0x40000), (0x40000, 0x30570), (0x4000c, 0x10622000)]

theorem exampleCallback_readable : exampleCallback.Readable where
  ebp := ⟨0x28000, by decide +kernel⟩
  ecx := ⟨0x30000, by decide +kernel⟩
  ret := ⟨0x10621045, by decide +kernel⟩
  arg := ⟨0, by decide +kernel⟩

-- The switch gets a packet of the same command while another subscriber is on the list. The list is found
-- through the table of jumps, the thunk and the stub of the command.
def exampleSwitch : Callback where
  hook              := .cmdDispatchSwitch
  getModuleHandle _ := 0
  ctx               := 0x20000
  memory            := .ofDWords [(0x20008, 0x28000), (0x20018, 0x38000), (0x20020, 0x10621045),
    (0x20024, 0x50000), (0x50000, 641), (0x3803c, 0x30000), (0x10663ebb, 0), (0x10663afc, 0x10501000),
    (0x10501000, 0x10428d), (0x10501004, 0xe9000000), (0x10501008, 0x100), (0x1050110c, 0),
    (0x10501110, 0x70b18b00), (0x10501114, 5), (0x30570, 0x48000), (0x48000, 0x30570), (0x4800c, 0x10622000)]

theorem exampleSwitch_readable : exampleSwitch.Readable where
  ebp := ⟨0x28000, by decide +kernel⟩
  ecx := ⟨0x38000, by decide +kernel⟩
  ret := ⟨0x10621045, by decide +kernel⟩
  arg := ⟨0x50000, by decide +kernel⟩

theorem example_listed :
    (session ⟨0x10000000, 0, 0, 0, 0, 0, 0⟩ [exampleCallback, exampleSwitch]).map
      (fun p => (p.1.filterMap Entry.change?, listed p.1 641)) =
    some ([.reg 641 0x40000, .reg 641 0x48000, .unreg 641 0x40000], [0x48000]) := by
  decide +kernel

theorem session_accounted_two_hooks : ∃ log s,
    session ⟨0x10000000, 0, 0, 0, 0, 0, 0⟩ [exampleCallback, exampleSwitch] = some (log, s) ∧
    log.filterMap Entry.change? = [.reg 641 0x40000, .reg 641 0x48000, .unreg 641 0x40000] ∧
    registered log 641 = {0x48000} := by
  obtain ⟨log, s, hs, _, hr, _⟩ :=
    session_accounted ⟨0x10000000, 0, 0, 0, 0, 0, 0⟩ [exampleCallback, exampleSwitch] <|
      List.forall_mem_cons.mpr ⟨exampleCallback_readable, List.forall_mem_singleton.mpr exampleSwitch_readable⟩
  have hl := example_listed
  rw [hs] at hl
  have ⟨hc, hl⟩ := Prod.mk.inj <| Option.some.inj hl
  exact ⟨log, s, hs, hc, (hr 641).trans <| congrArg List.toFinset hl⟩

end Example

end CryGame.PathB
