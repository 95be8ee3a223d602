import Mathlib
import MhoLauncher.Library.Bytes
import MhoLauncher.Library.Diff

open Bytes Edit

namespace CryGame.SubscriberDiff

def PATH_B_DIFF_CMDS : Nat := 64

def PATH_B_DIFF_NODES : Nat := 16

-- The log lines about a subscriber of a command.
inductive Event
  | reg   (cmd node : DWord)
  | unreg (cmd node : DWord)
  deriving DecidableEq

@[ext]
structure PathBCmdState where
  cmdId     : DWord
  nodes     : List DWord
  length_le : nodes.length ≤ PATH_B_DIFF_NODES

-- The array `path_b_diff_state`.
abbrev DiffState := Fin PATH_B_DIFF_CMDS → PathBCmdState

def initial : DiffState :=
  fun _ => ⟨0, [], Nat.zero_le _⟩

def pathBDiffSlot (s : DiffState) (cmd : DWord) : Option (Fin PATH_B_DIFF_CMDS × DiffState) :=
  match (List.finRange _).find? fun i => (s i).cmdId = cmd with
  | some i => some (i, s)
  | none   =>
    match (List.finRange _).find? fun i => (s i).cmdId = 0 with
    | some i => some (i, Function.update s i ⟨cmd, [], Nat.zero_le _⟩)
    | none   => none

def pathBDiffUpdate (cmd : DWord) (nodes : List DWord) (s : DiffState) : List Event × DiffState :=
  match pathBDiffSlot s cmd with
  | none        => ([], s)
  | some (i, s) =>
    let old := (s i).nodes
    let registered := nodes.filter (· ∉ old) |>.map (.reg cmd)
    let removed := old.filter (· ∉ nodes) |>.map (.unreg cmd)
    let update := { s i with nodes := nodes.take PATH_B_DIFF_NODES, length_le := List.length_take_le .. }
    (registered ++ removed, Function.update s i update)

namespace Event

def cmd : Event → DWord
  | reg cmd _ | unreg cmd _ => cmd

-- The change of the command's nodes that an event reports.
def edit : Event → Edit DWord
  | reg _ node   => .add node
  | unreg _ node => .remove node

def of (cmd : DWord) : Edit DWord → Event
  | .add node    => reg cmd node
  | .remove node => unreg cmd node

variable {c cmd node : DWord} {e : Edit DWord} {es : List (Edit DWord)}

@[simp]
theorem of_cmd : (of c e).cmd = c := by
  cases e <;> rfl

@[simp]
theorem of_edit : (of c e).edit = e := by
  cases e <;> rfl

theorem of_inj {e'} (h : of c e = of c e') : e = e' := by
  simpa using congrArg edit h

theorem mem_map_of {e : Event} : e ∈ es.map (of c) ↔ e.cmd = c ∧ e.edit ∈ es := by
  rw [List.mem_map]
  constructor
  case mp =>
    intro ⟨_, he, h⟩
    exact h ▸ ⟨of_cmd, of_edit.symm ▸ he⟩
  case mpr =>
    intro ⟨hc, he⟩
    exact ⟨e.edit, he, by cases e <;> exact hc ▸ rfl⟩

end Event

-- An update with the nodes of a well-formed list.
structure Update where
  cmdId     : DWord
  nodes     : List DWord
  cmdId_ne  : cmdId ≠ 0
  nodup     : nodes.Nodup
  length_le : nodes.length ≤ PATH_B_DIFF_NODES

def Update.exec (u : Update) (s : DiffState) : List Event × DiffState :=
  pathBDiffUpdate u.cmdId u.nodes s

def run (us : List Update) : DiffState :=
  us.foldl (fun s u => (u.exec s).2) initial

-- The nodes of the last update of a command.
def seen (us : List Update) (cmd : DWord) : List DWord :=
  us.reverse.find? (·.cmdId = cmd) |>.elim [] Update.nodes

def commands (us : List Update) : Finset DWord :=
  us.map Update.cmdId |>.toFinset

section Run

variable {us : List Update} {u : Update} {s s' : DiffState} {cmd : DWord} {i : Fin PATH_B_DIFF_CMDS}

theorem run_append : run (us ++ [u]) = (u.exec <| run us).2 :=
  List.foldl_concat ..

theorem commands_append : commands (us ++ [u]) = insert u.cmdId (commands us) := by
  ext c
  simp [commands]

theorem seen_append : seen (us ++ [u]) cmd = if u.cmdId = cmd then u.nodes else seen us cmd := by
  rw [seen, List.reverse_append, List.reverse_singleton, List.singleton_append, List.find?_cons]
  split <;> simp_all [seen]

theorem seen_of_not_mem (h : cmd ∉ us.map Update.cmdId) : seen us cmd = [] := by
  have hn : us.reverse.find? (·.cmdId = cmd) = none := by
    apply List.find?_eq_none.mpr
    intro u hu he
    exact h <| List.mem_map.mpr ⟨u, List.mem_reverse.mp hu, of_decide_eq_true he⟩
  rw [seen, hn, Option.elim_none]

theorem seen_nodup : (seen us cmd).Nodup := by
  rw [seen]
  cases us.reverse.find? (·.cmdId = cmd)
  case none   => exact List.nodup_nil
  case some u => exact u.nodup

-- What the cache contains after a run.
structure Caches (us : List Update) (s : DiffState) : Prop where
  inj   : ∀ i j, (s i).cmdId ≠ 0 → (s i).cmdId = (s j).cmdId → i = j
  used  : ∀ cmd ≠ 0, (∃ i, (s i).cmdId = cmd) ↔ cmd ∈ us.map Update.cmdId
  nodes : ∀ i, (s i).cmdId ≠ 0 → (s i).nodes = seen us (s i).cmdId

theorem caches_initial : Caches [] initial where
  inj _ _ h := absurd rfl h
  used _ h  := ⟨fun ⟨_, he⟩ => absurd he.symm h, fun hm => absurd hm List.not_mem_nil⟩
  nodes _ h := absurd rfl h

-- The slot that an update of the command uses, and the state in which it is prepared.
structure Slot (us : List Update) (s : DiffState) (cmd : DWord) (i : Fin PATH_B_DIFF_CMDS)
    (s' : DiffState) : Prop where
  owner : (s i).cmdId = cmd ∨ (s i).cmdId = 0
  cmdId : (s' i).cmdId = cmd
  nodes : (s' i).nodes = seen us cmd
  other : ∀ j ≠ i, s' j = s j ∧ (s j).cmdId ≠ cmd

-- If no slot was free, all of them would contain different commands.
theorem Caches.free (h : Caches us s) (hm : cmd ∉ commands us)
    (hl : (insert cmd <| commands us).card ≤ PATH_B_DIFF_CMDS) : ∃ i, (s i).cmdId = 0 := by
  by_contra hz
  have hz : ∀ j, (s j).cmdId ≠ 0 := not_exists.mp hz
  have hi : Function.Injective fun j => (s j).cmdId := fun i j he => h.inj i j (hz i) he
  have hs : Finset.univ.image (fun j => (s j).cmdId) ⊆ commands us := by
    intro c hc
    have ⟨j, _, hj⟩ := Finset.mem_image.mp hc
    exact List.mem_toFinset.mpr <| (h.used c (hj ▸ hz j)).mp ⟨j, hj⟩
  have hcard := Finset.card_le_card hs
  rw [Finset.card_image_of_injective _ hi, Finset.card_univ, Fintype.card_fin] at hcard
  rw [Finset.card_insert_of_notMem hm] at hl
  exact absurd (hl.trans hcard) (Nat.not_succ_le_self _)

theorem Caches.slot (h : Caches us s) (hc : cmd ≠ 0)
    (hl : (insert cmd <| commands us).card ≤ PATH_B_DIFF_CMDS) :
    ∃ i s', pathBDiffSlot s cmd = some (i, s') ∧ Slot us s cmd i s' := by
  rw [pathBDiffSlot]
  cases hf : (List.finRange PATH_B_DIFF_CMDS).find? fun i => (s i).cmdId = cmd
  case some i =>
    have hi : (s i).cmdId = cmd := by simpa using List.find?_some hf
    refine ⟨i, s, rfl, .inl hi, hi, hi ▸ h.nodes i (hi ▸ hc), fun j hj => ⟨rfl, fun he => hj ?_⟩⟩
    exact h.inj j i (he ▸ hc) (he.trans hi.symm)
  case none =>
    have hn : ∀ j, (s j).cmdId ≠ cmd := by simpa using hf
    have hm : cmd ∉ us.map Update.cmdId := fun hm => by
      have ⟨j, hj⟩ := (h.used cmd hc).mpr hm
      exact hn j hj
    cases hz : (List.finRange PATH_B_DIFF_CMDS).find? fun i => (s i).cmdId = 0
    case some i =>
      have hi : (s i).cmdId = 0 := by simpa using List.find?_some hz
      refine ⟨i, _, rfl, .inr hi, ?_, ?_, fun j hj => ⟨Function.update_of_ne hj .., hn j⟩⟩
      all_goals rw [Function.update_self]
      exact (seen_of_not_mem hm).symm
    case none =>
      have hz : ∀ j, (s j).cmdId ≠ 0 := by simpa using hz
      have ⟨j, hj⟩ := h.free (mt List.mem_toFinset.mp hm) hl
      exact absurd hj <| hz j

theorem Caches.update (h : Caches us s) (hi : (s i).cmdId = u.cmdId ∨ (s i).cmdId = 0)
    (hc : (s' i).cmdId = u.cmdId) (hn : (s' i).nodes = u.nodes)
    (ho : ∀ j ≠ i, s' j = s j ∧ (s j).cmdId ≠ u.cmdId) :
    Caches (us ++ [u]) s' where
  inj a b ha he := by
    by_cases hai : a = i
    case pos =>
      by_contra hn
      have ⟨hb, hd⟩ := ho b fun hbi => hn <| hai.trans hbi.symm
      rw [hai, hc, hb] at he
      exact hd he.symm
    case neg =>
      have ⟨ha', hd⟩ := ho a hai
      rw [ha'] at ha he
      by_cases hbi : b = i
      case pos => exact absurd (he.trans <| hbi ▸ hc) hd
      case neg => exact h.inj a b ha <| he.trans <| congrArg _ (ho b hbi).left
  used cmd hz := by
    rw [List.map_append, List.mem_append, ←h.used cmd hz, List.map_singleton, List.mem_singleton]
    constructor
    case mp =>
      intro ⟨j, hj⟩
      by_cases hji : j = i
      case pos => exact .inr <| hj.symm.trans <| hji ▸ hc
      case neg => exact .inl ⟨j, (ho j hji).left ▸ hj⟩
    case mpr =>
      intro hm
      by_cases he : cmd = u.cmdId
      case pos => exact ⟨i, hc.trans he.symm⟩
      case neg =>
        have ⟨j, hj⟩ := hm.resolve_right he
        have hji : j ≠ i := by
          rintro rfl
          cases hi
          case inl hi => exact he <| hj.symm.trans hi
          case inr hi => exact hz <| hj.symm.trans hi
        exact ⟨j, (ho j hji).left ▸ hj⟩
  nodes j hz := by
    rw [seen_append]
    by_cases hji : j = i
    case pos => rw [hji, hc, if_pos rfl, hn]
    case neg =>
      have ⟨he, hd⟩ := ho j hji
      rw [he] at hz ⊢
      rw [if_neg hd.symm, h.nodes j hz]

-- What an update does, if the cache has a slot for its command.
structure Update.Spec (us : List Update) (u : Update) (s : DiffState) : Prop where
  events : (u.exec s).1 = (diff (seen us u.cmdId) u.nodes).map (.of u.cmdId)
  caches : Caches (us ++ [u]) (u.exec s).2
  frame  : ∀ i, (u.exec s).2 i = s i ∨
    ((s i).cmdId = u.cmdId ∨ (s i).cmdId = 0) ∧ ((u.exec s).2 i).cmdId = u.cmdId

theorem Caches.exec (h : Caches us s) (hl : (insert u.cmdId <| commands us).card ≤ PATH_B_DIFF_CMDS) :
    u.Spec us s := by
  have ⟨i, s', hs, hi, hc, hn, ho⟩ := h.slot u.cmdId_ne hl
  have he : u.exec s = ((diff (s' i).nodes u.nodes).map (.of u.cmdId),
      Function.update s' i ⟨(s' i).cmdId, u.nodes, u.length_le⟩) := by
    simp only [Update.exec, pathBDiffUpdate, hs, diff, List.map_append, List.map_map,
      List.take_of_length_le u.length_le]
    rfl
  have hs : (u.exec s).2 = Function.update s' i ⟨(s' i).cmdId, u.nodes, u.length_le⟩ := congrArg Prod.snd he
  constructor
  case events => rw [he, hn]
  case caches =>
    apply h.update hi
    case hc => rw [hs, Function.update_self, hc]
    case hn => rw [hs, Function.update_self]
    case ho =>
      intro j hj
      rw [hs, Function.update_of_ne hj]
      exact ho j hj
  case frame =>
    intro j
    rw [hs]
    by_cases hj : j = i
    case pos =>
      subst hj
      exact .inr ⟨hi, by rw [Function.update_self, hc]⟩
    case neg => exact .inl <| (Function.update_of_ne hj ..).trans (ho j hj).left

theorem caches_run (hl : (commands us).card ≤ PATH_B_DIFF_CMDS) : Caches us (run us) := by
  induction us using List.reverseRecOn
  case nil => exact caches_initial
  case append_singleton us u hi =>
    rw [commands_append] at hl
    have h := hi <| (Finset.card_le_card <| Finset.subset_insert ..).trans hl
    exact run_append ▸ (h.exec hl).caches

theorem run_spec (hl : (commands <| us ++ [u]).card ≤ PATH_B_DIFF_CMDS) : u.Spec us (run us) := by
  rw [commands_append] at hl
  have h := caches_run <| (Finset.card_le_card <| Finset.subset_insert ..).trans hl
  exact h.exec hl

end Run

section Replay

-- Appends the events of an update to the log.
def Update.log (p : List Event × DiffState) (u : Update) : List Event × DiffState :=
  (p.1 ++ (u.exec p.2).1, (u.exec p.2).2)

-- The events of a run, in the order in which they are logged.
def emitted (us : List Update) : List Event :=
  us.foldl Update.log ([], initial) |>.1

-- The changes of a command's nodes that the events of a run report.
def edits (us : List Update) (cmd : DWord) : List (Edit DWord) :=
  emitted us |>.filter (·.cmd = cmd) |>.map Event.edit

variable {us : List Update} {u : Update} {cmd : DWord}

theorem emitted_append : emitted (us ++ [u]) = emitted us ++ (u.exec <| run us).1 := by
  have h (p) : (us.foldl Update.log p).2 = us.foldl (fun s u => (u.exec s).2) p.2 := by
    induction us generalizing p
    case nil => rfl
    case cons u us hi => exact hi ..
  rw [emitted, List.foldl_concat, Update.log, h]
  rfl

theorem filter_map_of {es : List (Edit DWord)} {c : DWord} :
    ((es.map <| Event.of c).filter (·.cmd = cmd)).map Event.edit = if c = cmd then es else [] := by
  rw [List.filter_map, List.map_map]
  split
  case isTrue h  => simp [Function.comp_def, h]
  case isFalse h => simp [Function.comp_def, h]

theorem edits_append (hl : (commands <| us ++ [u]).card ≤ PATH_B_DIFF_CMDS) :
    edits (us ++ [u]) cmd = edits us cmd ++ if u.cmdId = cmd then diff (seen us cmd) u.nodes else [] := by
  rw [edits, emitted_append, (run_spec hl).events, List.filter_append, List.map_append, filter_map_of, edits]
  split
  case isTrue h  => rw [h]
  case isFalse h => rfl

theorem replay_edits (hl : (commands us).card ≤ PATH_B_DIFF_CMDS) :
    replay ∅ (edits us cmd) = some (seen us cmd).toFinset := by
  induction us using List.reverseRecOn
  case nil => rfl
  case append_singleton us u hi =>
    have hi := hi <| (Finset.card_le_card <| commands_append ▸ Finset.subset_insert ..).trans hl
    rw [edits_append hl, seen_append]
    split
    case isTrue  => exact replay_append hi <| replay_diff seen_nodup u.nodup
    case isFalse => rw [List.append_nil, hi]

end Replay

-- In every run of updates of at most 64 commands, the events of each command can be replayed from the empty
-- set, where each of them adds a new node or removes a present one, and this results in the nodes of the last
-- update of the command. Each update only concerns its own command.
theorem events_faithful (us : List Update) (hl : (commands us).card ≤ PATH_B_DIFF_CMDS) :
    (∀ cmd, replay ∅ (edits us cmd) = some (seen us cmd).toFinset) ∧
    ∀ vs u ws, us = vs ++ u :: ws →
      (∀ e ∈ (u.exec <| run vs).1, e.cmd = u.cmdId) ∧
      ∀ i, (u.exec <| run vs).2 i = run vs i ∨
        (run vs i).cmdId = u.cmdId ∧ ((u.exec <| run vs).2 i).cmdId = u.cmdId ∨
        (run vs i).cmdId = 0 ∧ ((u.exec <| run vs).2 i).cmdId = u.cmdId := by
  refine ⟨fun cmd => replay_edits hl, fun vs u ws he => ?_⟩
  have hs : commands (vs ++ [u]) ⊆ commands us := by
    intro c hc
    simp only [commands, he, List.mem_toFinset, List.mem_map, List.mem_append, List.mem_cons] at hc ⊢
    grind
  have h := run_spec <| (Finset.card_le_card hs).trans hl
  constructor
  case left =>
    intro e he
    rw [h.events] at he
    exact (Event.mem_map_of.mp he).left
  case right =>
    intro i
    cases h.frame i
    case inl h => exact .inl h
    case inr h => exact .inr <| h.left.imp (⟨·, h.right⟩) (⟨·, h.right⟩)

-- Two updates of a command, and one of another command in between.
def exampleUpdates : List Update := [
  ⟨5, [0x30000, 0x30010], by decide, by decide, by decide⟩,
  ⟨6, [0x30000], by decide, by decide, by decide⟩,
  ⟨5, [0x30010, 0x30020], by decide, by decide, by decide⟩
]

theorem events_faithful_three_updates : replay ∅ (edits exampleUpdates 5) = some {0x30010, 0x30020} :=
  events_faithful exampleUpdates (by decide) |>.left 5

end CryGame.SubscriberDiff
