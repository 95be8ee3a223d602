import Mathlib
import MhoLauncher.CryGame.ProcessMemory
import MhoLauncher.CryGame.SubscriberDiff

open Bytes Edit

namespace CryGame.PathB

open SubscriberDiff

-- The loop of the walk, which adds at most `n` nodes.
def walk (m : ProcessMemory) (head : DWord) : Nat → DWord → List DWord
  | 0,     _    => []
  | n + 1, node =>
    if node = head then
      []
    else
      node :: match m.safeReadValue 4 node with
        | none      => []
        | some next => walk m head n next

def pathBWalkAndDiff (m : ProcessMemory) (cgamelogic listOffset cmdId : DWord) (s : DiffState) :
    List Event × DiffState :=
  let head := cgamelogic + listOffset
  match m.safeReadValue 4 head with
  | none       => ([], s)
  | some first =>
    let nodes := if first ≠ head then walk m head PATH_B_DIFF_NODES first else []
    pathBDiffUpdate cmdId nodes s

section List

variable (m : ProcessMemory) (head : DWord)

-- The next pointers lead from the head through the given nodes back to the head.
structure Circular (nodes : List DWord) : Prop where
  chain : (head :: (nodes ++ [head])).IsChain fun a b => m.safeReadValue 4 a = some b
  nodup : (head :: nodes).Nodup

variable {m head} {nodes : List DWord} {n : Nat}

theorem walk_head : walk m head n head = [] := by
  cases n
  case zero => rfl
  case succ => exact if_pos rfl

theorem walk_chain {a : DWord} (hc : (a :: (nodes ++ [head])).IsChain fun a b => m.safeReadValue 4 a = some b)
    (hh : head ∉ nodes) : ∃ next, m.safeReadValue 4 a = some next ∧ walk m head n next = nodes.take n := by
  induction nodes generalizing a n
  case nil =>
    have ⟨hr, _⟩ := List.isChain_cons_cons.mp hc
    exact ⟨head, hr, walk_head.trans List.take_nil.symm⟩
  case cons b nodes hi =>
    have ⟨hr, hc⟩ := List.isChain_cons_cons.mp hc
    have ⟨hb, hh⟩ := List.ne_and_not_mem_of_not_mem_cons hh
    refine ⟨b, hr, ?_⟩
    cases n
    case zero => rfl
    case succ n =>
      have ⟨next, hr, hw⟩ := hi (n := n) hc hh
      rw [walk, if_neg hb.symm, hr, List.take_succ_cons, ←hw]

end List

-- A dispatch of a command, whose subscribers are the given nodes.
structure Dispatch where
  memory     : ProcessMemory
  cgamelogic : DWord
  listOffset : DWord
  cmdId      : DWord
  nodes      : List DWord
  cmdId_ne   : cmdId ≠ 0
  circular   : Circular memory (cgamelogic + listOffset) nodes

namespace Dispatch

def exec (d : Dispatch) (s : DiffState) : List Event × DiffState :=
  pathBWalkAndDiff d.memory d.cgamelogic d.listOffset d.cmdId s

-- The nodes that the walk gets to.
def walked (d : Dispatch) : List DWord :=
  d.nodes.take PATH_B_DIFF_NODES

def update (d : Dispatch) : Update where
  cmdId     := d.cmdId
  nodes     := d.walked
  cmdId_ne  := d.cmdId_ne
  nodup     := (List.nodup_cons.mp d.circular.nodup).right.sublist <| List.take_sublist ..
  length_le := List.length_take_le ..

theorem exec_eq (d : Dispatch) (s : DiffState) : d.exec s = d.update.exec s := by
  have ⟨first, hr, hw⟩ :=
    walk_chain (n := PATH_B_DIFF_NODES) d.circular.chain (List.nodup_cons.mp d.circular.nodup).left
  rw [exec, pathBWalkAndDiff, hr]
  refine congrArg (pathBDiffUpdate d.cmdId · s) <| Eq.trans ?_ hw
  by_cases hf : first = d.cgamelogic + d.listOffset
  case pos => rw [if_neg (not_not.mpr hf), hf, walk_head]
  case neg => rw [if_pos hf]

end Dispatch

def runDispatches (ds : List Dispatch) : DiffState :=
  ds.foldl (fun s d => (d.exec s).2) initial

variable {ds : List Dispatch} {d : Dispatch}

theorem runDispatches_eq : runDispatches ds = run (ds.map Dispatch.update) := by
  rw [runDispatches, run, List.foldl_map]
  exact List.foldl_ext _ _ _ fun s d _ => congrArg Prod.snd (d.exec_eq s)

-- The nodes that were walked at the last dispatch of a command.
def lastWalked (ds : List Dispatch) (cmd : DWord) : List DWord :=
  ds.reverse.find? (·.cmdId = cmd) |>.elim [] Dispatch.walked

theorem lastWalked_eq {cmd : DWord} : lastWalked ds cmd = seen (ds.map Dispatch.update) cmd := by
  rw [lastWalked, seen, ←List.map_reverse, List.find?_map, Option.elim_map]
  rfl

def dispatchedCommands (ds : List Dispatch) : Finset DWord :=
  ds.map Dispatch.cmdId |>.toFinset

theorem dispatchedCommands_eq : dispatchedCommands ds = commands (ds.map Dispatch.update) := by
  rw [dispatchedCommands, commands, List.map_map]
  rfl

theorem exec_events (hl : (dispatchedCommands <| ds ++ [d]).card ≤ PATH_B_DIFF_CMDS) :
    (d.exec <| runDispatches ds).1 = (diff (lastWalked ds d.cmdId) d.walked).map (.of d.cmdId) := by
  rw [dispatchedCommands_eq, List.map_append] at hl
  rw [d.exec_eq, runDispatches_eq, (run_spec hl).events, lastWalked_eq]
  rfl

-- In every run of dispatches of at most 64 commands, each dispatch logs exactly the differences between the
-- nodes that it walks and those that were walked at the last dispatch of the command.
theorem events_exact (ds : List Dispatch) (d : Dispatch)
    (hl : (dispatchedCommands <| ds ++ [d]).card ≤ PATH_B_DIFF_CMDS) :
    let events := (d.exec <| runDispatches ds).1
    (∀ cmd node, .reg cmd node ∈ events ↔ cmd = d.cmdId ∧ node ∈ d.walked ∧ node ∉ lastWalked ds cmd) ∧
    (∀ cmd node, .unreg cmd node ∈ events ↔ cmd = d.cmdId ∧ node ∈ lastWalked ds cmd ∧ node ∉ d.walked) ∧
    events.Nodup := by
  rw [exec_events hl]
  refine ⟨fun cmd node => ?_, fun cmd node => ?_, ?_⟩
  · rw [Event.mem_map_of]
    exact and_congr_right fun hc => hc ▸ mem_diff_add
  · rw [Event.mem_map_of]
    exact and_congr_right fun hc => hc ▸ mem_diff_remove
  · have ho : (lastWalked ds d.cmdId).Nodup := lastWalked_eq ▸ seen_nodup
    exact (diff_nodup ho d.update.nodup).map fun _ _ => Event.of_inj

section Example

-- A circular list with its head at `0x20000`.
def exampleMemory (nodes : List DWord) : ProcessMemory :=
  ProcessMemory.ofDWords <| (0x20000 :: nodes).zip (nodes ++ [0x20000])

theorem exampleDispatch_cmdId_ne : (5 : DWord) ≠ 0 := by decide

def exampleDispatch (nodes : List DWord) (h : Circular (exampleMemory nodes) 0x20000 nodes) : Dispatch where
  memory     := exampleMemory nodes
  cgamelogic := 0x10000
  listOffset := 0x10000
  cmdId      := 5
  nodes      := nodes
  cmdId_ne   := exampleDispatch_cmdId_ne
  circular   := h

theorem circular_two_nodes : Circular (exampleMemory [0x30000, 0x30010]) 0x20000 [0x30000, 0x30010] :=
  ⟨by decide, by decide⟩

theorem circular_other_nodes : Circular (exampleMemory [0x30010, 0x30020]) 0x20000 [0x30010, 0x30020] :=
  ⟨by decide, by decide⟩

-- One node has left the list since the last dispatch, one has stayed and one is new.
theorem events_exact_second_dispatch :
    let events := ((exampleDispatch _ circular_other_nodes).exec <|
      runDispatches [exampleDispatch _ circular_two_nodes]).1
    .reg 5 0x30020 ∈ events ∧ .unreg 5 0x30000 ∈ events ∧ .reg 5 0x30010 ∉ events := by
  have ⟨hr, hu, _⟩ := events_exact [exampleDispatch _ circular_two_nodes]
    (exampleDispatch _ circular_other_nodes) (by decide)
  refine ⟨(hr 5 0x30020).mpr (by decide), (hu 5 0x30000).mpr (by decide), fun h => ?_⟩
  exact absurd ((hr 5 _).mp h) (by decide)

def exampleNodes (n : Nat) : List DWord :=
  List.range n |>.map fun i => 0x30000 + BitVec.ofNat 32 (16 * i)

theorem circular_17_nodes : Circular (exampleMemory (exampleNodes 17)) 0x20000 (exampleNodes 17) :=
  ⟨by decide, by decide⟩

theorem circular_18_nodes :
    Circular (exampleMemory (0x40000 :: exampleNodes 17)) 0x20000 (0x40000 :: exampleNodes 17) :=
  ⟨by decide, by decide⟩

-- A node is inserted at the head of a list of 17 nodes. The node that leaves the first 16 nodes is logged
-- as removed, although it is still on the list.
theorem long_list_logs_removal :
    let d₁ := exampleDispatch _ circular_17_nodes
    let d₂ := exampleDispatch _ circular_18_nodes
    0x300F0 ∈ d₁.nodes ∧ 0x300F0 ∈ d₂.nodes ∧ .unreg 5 0x300F0 ∈ (d₂.exec <| runDispatches [d₁]).1 := by
  intro d₁ d₂
  refine ⟨by decide, by decide, ?_⟩
  rw [exec_events (by decide)]
  exact Event.mem_map_of.mpr ⟨rfl, mem_diff_remove.mpr ⟨by decide, by decide⟩⟩

end Example

end CryGame.PathB
