import Mathlib
import MhoLauncher.Tersafe.Observers

open Bytes CryGame CryGame.ProcessMemory File

namespace Tersafe

section Readers

-- The rows up to the first line that is none.
def rowChunks : List Line → List (Chunk Byte)
  | .row i bytes :: ls => ⟨i, bytes⟩ :: rowChunks ls
  | _                  => []

def overwrite (buf : List Byte) (ws : List (Chunk Byte)) : List Byte :=
  (ws.foldl put ⟨buf, 0⟩).content

-- The buffer of the first dump with the given label. What is not printed is zero.
def readDump (label : Label) : List Line → Option (List Byte)
  | [] => none
  | .fullDump l size :: ls =>
    if l = label then some <| overwrite (List.replicate size 0) (rowChunks ls) else readDump label ls
  | _ :: ls => readDump label ls

def Line.compares (label : Label) : Line → Bool
  | .changed l .. => l = label
  | .unchanged l  => l = label
  | _             => false

def Line.change? : Line → Option (Chunk Byte)
  | .changed _ offset _ after => some ⟨offset, toLE 4 after⟩
  | _                         => none

def comparison (label : Label) (ls : List Line) : List Line :=
  ls.filter (Line.compares label)

-- The buffer of a dump, with the changes of a comparison that was printed later.
def readAfter (before label : Label) (ls : List Line) : Option (List Byte) := do
  if comparison label ls = [] then
    none
  else
    let buf ← readDump before ls
    return overwrite buf <| (comparison label ls).filterMap Line.change?

end Readers

section Dump

variable {buf before after : List Byte} {size : Nat} {label l : Label} {ls ls' : List Line} {ks : List Nat}

theorem rowChunks_rows : rowChunks (ks.map fun k => .row (16 * k) ((buf.drop (16 * k)).take 16)) =
    ks.map (part buf 16) := by
  induction ks
  case nil          => rfl
  case cons k ks hi => rw [List.map_cons, List.map_cons, rowChunks, hi, part]

theorem readDump_rows :
    readDump label (ks.map fun k => .row (16 * k) ((buf.drop (16 * k)).take 16)) = none := by
  induction ks
  case nil          => rfl
  case cons k ks hi => simpa only [List.map_cons, readDump] using hi

-- The rows with a byte other than zero are printed.
theorem hexDump_eq (hb : buf.length = size) (hd : 16 ∣ size) :
    hexDump label buf size = .fullDump label size ::
      ((List.range (size / 16)).filter fun k => ¬(part buf 16 k).items.all (· = 0)).map fun k =>
        .row (16 * k) ((buf.drop (16 * k)).take 16) := by
  have hs : (size + 15) / 16 = size / 16 := by omega
  rw [hexDump, hs, ←List.filterMap_eq_map, List.filterMap_filter]
  congr 1
  refine List.filterMap_congr fun k _ => ?_
  rw [hexDumpRow, ←hb, List.take_length]
  cases hz : ((buf.drop (16 * k)).take 16).all (· = 0) <;> simpa [part] using hz

theorem readDump_hexDump (hb : buf.length = size) (hd : 16 ∣ size) :
    readDump label (hexDump l buf size) = if l = label then some buf else none := by
  rw [hexDump_eq hb hd, readDump, rowChunks_rows, readDump_rows, overwrite]
  congr 2
  subst hb
  refine foldl_put_parts (by simp) (by simp) hd (fun k hk => ?_) fun k hk hn => ?_
  case refine_1 => exact List.mem_range.mp (List.mem_filter.mp hk).left
  case refine_2 =>
    have hz : (part buf 16 k).items.all (· = 0) := by
      by_contra hz
      exact hn <| List.mem_filter.mpr ⟨List.mem_range.mpr hk, decide_eq_true hz⟩
    have hz : ∀ b ∈ (part buf 16 k).items, b = 0 := by simpa using hz
    rw [List.eq_replicate_of_mem hz]
    simp [part]

theorem rowChunks_append (h : rowChunks ls' = []) : rowChunks (ls ++ ls') = rowChunks ls := by
  fun_induction rowChunks ls
  case case1 i bytes ls hi => rw [List.cons_append, rowChunks, hi]
  case case2 ls hn =>
    match ls with
    | []      => exact h
    | l :: ls =>
      refine rowChunks.eq_2 (l :: ls ++ ls') fun _ _ _ he => ?_
      exact hn _ _ _ <| List.cons_eq_cons.mpr ⟨(List.cons.inj he).left, rfl⟩

theorem readDump_append (h : rowChunks ls' = []) :
    readDump label (ls ++ ls') = (readDump label ls).or (readDump label ls') := by
  fun_induction readDump label ls
  case case1 => rfl
  case case2 size ls =>
    rw [List.cons_append, readDump, if_pos rfl, rowChunks_append h, Option.some_or]
  case case3 l size ls hl hi => rw [List.cons_append, readDump, if_neg hl, hi]
  case case4 l ls hn hi => rw [List.cons_append, readDump.eq_3 label l _ hn, hi]

theorem changes_eq : changes label before after size =
    ((List.range (size / 4)).filter fun k => dwordAt before k ≠ dwordAt after k).map fun k =>
      .changed label (4 * k) (dwordAt before k) (dwordAt after k) := by
  rw [changes, ←List.filterMap_eq_map, List.filterMap_filter]
  simp only [decide_eq_true_eq, Function.comp]

theorem toLE_dwordAt {k : Nat} (h : k < buf.length / 4) : toLE 4 (dwordAt buf k) = (part buf 4 k).items := by
  have hl : ((buf.drop (4 * k)).take 4).length = 4 := by
    rw [List.length_take, List.length_drop]
    omega
  have ht := toLE_ofLE (w := 32) ((buf.drop (4 * k)).take 4) (by omega)
  rwa [hl] at ht

-- The changed double words are those of the second buffer.
theorem change?_changes (ha : after.length = size) : (changes label before after size).filterMap Line.change? =
    ((List.range (size / 4)).filter fun k => dwordAt before k ≠ dwordAt after k).map (part after 4) := by
  rw [changes_eq, List.filterMap_map, ←List.filterMap_eq_map]
  refine List.filterMap_congr fun k hk => ?_
  have hk := List.mem_range.mp (List.mem_filter.mp hk).left
  simp only [Function.comp, Line.change?, toLE_dwordAt (ha ▸ hk), part]

theorem overwrite_changes (hb : before.length = size) (ha : after.length = size) (hd : 4 ∣ size) :
    overwrite before ((changes label before after size).filterMap Line.change?) = after := by
  rw [change?_changes ha, overwrite]
  subst ha
  refine foldl_put_parts (by simp) hb hd (fun k hk => ?_) fun k hk hn => ?_
  case refine_1 => exact List.mem_range.mp (List.mem_filter.mp hk).left
  case refine_2 =>
    have he : dwordAt before k = dwordAt after k := by
      by_contra hne
      exact hn <| List.mem_filter.mpr ⟨List.mem_range.mpr hk, decide_eq_true hne⟩
    rw [←toLE_dwordAt hk, ←toLE_dwordAt (hb ▸ hk), he]

end Dump

section Lines

variable {buf before after : List Byte} {snap : Option (List Byte)} {size i j n : Nat} {label l : Label}
variable {ls ls' : List Line} {m m' : ProcessMemory} {v w : DWord} {args : List DWord}

theorem length_of_safeCopy (h : safeCopy m v n = some buf) : buf.length = n := by
  rw [safeCopy, Option.ite_none_left_eq_some, readProcessMemory, Option.ite_none_right_eq_some, ←eq_view m,
    mapM_view] at h
  rw [←h.right.right.right, List.length_map, List.length_range]

theorem length_of_snapshot (h : snapshot m v = some buf) : buf.length = ARG_SNAP :=
  length_of_safeCopy (Option.ite_none_right_eq_some.mp h).right

@[simp]
theorem rowChunks_dumpSnapshot : rowChunks (dumpSnapshot label snap) = [] := by
  cases snap <;> rfl

@[simp]
theorem rowChunks_diffMem : rowChunks (diffMem label before after size) = [] := by
  rw [diffMem, changes_eq]
  cases (List.range (size / 4)).filter fun k => dwordAt before k ≠ dwordAt after k <;> rfl

@[simp]
theorem rowChunks_diffSnapshot : rowChunks (diffSnapshot label m v snap) = [] := by
  unfold diffSnapshot
  split
  case h_1 => exact rowChunks_diffMem
  case h_2 => rfl

theorem rowChunks_flatten {lss : List (List Line)} (h : ∀ ls ∈ lss, rowChunks ls = []) :
    rowChunks lss.flatten = [] := by
  induction lss
  case nil => rfl
  case cons ls lss hi =>
    rw [List.flatten_cons, rowChunks_append <| hi fun ls hl => h ls <| .tail _ hl, h ls <| .head _]

theorem rowChunks_flatMap {f : α → List Line} {as : List α} (h : ∀ a, rowChunks (f a) = []) :
    rowChunks (as.flatMap f) = [] := by
  rw [List.flatMap_def]
  refine rowChunks_flatten fun ls hl => ?_
  obtain ⟨a, _, rfl⟩ := List.mem_map.mp hl
  exact h a

-- The first dump is found.
theorem readDump_flatten {lss : List (List Line)} (h : ∀ ls ∈ lss, rowChunks ls = []) :
    readDump label lss.flatten = (lss.map <| readDump label).foldr Option.or none := by
  induction lss
  case nil => rfl
  case cons ls lss hi =>
    have h := fun ls hl => h ls <| .tail _ hl
    rw [List.flatten_cons, readDump_append <| rowChunks_flatten h, hi h, List.map_cons, List.foldr_cons]

theorem readDump_dumpSnapshot (h : ∀ b ∈ snap, b.length = ARG_SNAP) :
    readDump label (dumpSnapshot l snap) = if l = label then snap else none := by
  cases snap
  case none   => exact (ite_self _).symm
  case some b => exact readDump_hexDump (h b rfl) (by decide)

@[simp]
theorem readDump_diffMem : readDump label (diffMem l before after size) = none := by
  rw [diffMem, changes_eq]
  split
  case isTrue  => rfl
  case isFalse =>
    induction (List.range (size / 4)).filter fun k => dwordAt before k ≠ dwordAt after k
    case nil          => rfl
    case cons k ks hi => simpa only [List.map_cons, readDump] using hi

@[simp]
theorem readDump_diffSnapshot : readDump label (diffSnapshot l m v snap) = none := by
  unfold diffSnapshot
  split
  case h_1 => exact readDump_diffMem
  case h_2 => rfl

theorem readDump_flatMap {f : α → List Line} {as : List α} (hr : ∀ a, rowChunks (f a) = [])
    (h : ∀ a ∈ as, readDump label (f a) = none) : readDump label (as.flatMap f) = none := by
  induction as
  case nil => rfl
  case cons a as hi =>
    rw [List.flatMap_cons, readDump_append <| rowChunks_flatMap hr, h a <| .head _,
      hi fun b hb => h b <| .tail _ hb, Option.or_none]

-- The dumps of the arguments, with the index of the first one.
def dumpArgs (m : ProcessMemory) (args : List DWord) (n : Nat) : List Line :=
  (args.zipIdx n).flatMap fun (v, i) => dumpSnapshot (.argBefore i v) (snapshot m v)

theorem readDump_dumpArgs_none (h : ∀ i ≥ n, ∀ w, Label.argBefore i w ≠ label) :
    readDump label (dumpArgs m args n) = none := by
  refine readDump_flatMap (fun _ => rowChunks_dumpSnapshot) fun (w, i) hm => ?_
  rw [readDump_dumpSnapshot fun _ => length_of_snapshot, if_neg <| h i (List.le_snd_of_mem_zipIdx hm) w]

-- The argument with the index of the label is the only one that is dumped under it.
theorem readDump_dumpArgs : readDump (.argBefore (n + j) v) (dumpArgs m args n) =
    if args[j]? = some v then snapshot m v else none := by
  induction args generalizing n j
  case nil => rfl
  case cons w args hi =>
    rw [dumpArgs, List.zipIdx_cons, List.flatMap_cons,
      readDump_append <| rowChunks_flatMap fun _ => rowChunks_dumpSnapshot,
      readDump_dumpSnapshot fun _ => length_of_snapshot, ←dumpArgs]
    cases j
    case zero =>
      have hn : readDump (.argBefore (n + 0) v) (dumpArgs m args (n + 1)) = none :=
        readDump_dumpArgs_none fun i hi w he => by cases he; omega
      rw [hn, Option.or_none]
      by_cases hw : w = v <;> simp [hw]
    case succ j =>
      have hi := hi (n := n + 1) (j := j)
      rw [if_neg (by simp), Option.none_or, List.getElem?_cons_succ]
      rwa [Nat.add_right_comm] at hi

@[simp]
theorem comparison_append : comparison label (ls ++ ls') = comparison label ls ++ comparison label ls' :=
  List.filter_append ..

@[simp]
theorem comparison_hexDump : comparison label (hexDump l buf size) = [] := by
  refine List.filter_eq_nil_iff.mpr fun line hl => ?_
  cases hl
  case head => simp [Line.compares]
  case tail hl =>
    obtain ⟨i, _, hi⟩ := List.mem_filterMap.mp hl
    cases (Option.ite_none_left_eq_some.mp hi).right
    simp [Line.compares]

@[simp]
theorem comparison_dumpSnapshot : comparison label (dumpSnapshot l snap) = [] := by
  cases snap
  case none   => rfl
  case some b => exact comparison_hexDump

theorem comparison_dumpArgs : comparison label (dumpArgs m args n) = [] := by
  rw [comparison, dumpArgs, List.filter_flatMap]
  exact List.flatMap_eq_nil_iff.mpr fun _ _ => comparison_dumpSnapshot

theorem comparison_diffMem : comparison label (diffMem l before after size) =
    if l = label then diffMem l before after size else [] := by
  have hc : ∀ line ∈ diffMem l before after size, line.compares label = decide (l = label) := by
    intro line hl
    rw [diffMem, changes_eq] at hl
    split at hl
    case isTrue  => cases List.mem_singleton.mp hl; rfl
    case isFalse => obtain ⟨k, _, rfl⟩ := List.mem_map.mp hl; rfl
  rw [comparison, List.filter_congr hc]
  split
  case isTrue h  => simp [h]
  case isFalse h => simp [h]

-- The comparison of two buffers, if both are there.
def diffBoth (label : Label) (snap after : Option (List Byte)) (size : Nat) : List Line :=
  (snap.bind fun b => after.map fun a => diffMem label b a size).getD []

theorem diffSnapshot_eq :
    diffSnapshot label m v snap = diffBoth label snap (safeCopy m v ARG_SNAP) ARG_SNAP := by
  unfold diffSnapshot
  cases snap <;> cases safeCopy m v ARG_SNAP <;> rfl

theorem comparison_diffSnapshot : comparison label (diffSnapshot l m v snap) =
    if l = label then diffBoth l snap (safeCopy m v ARG_SNAP) ARG_SNAP else [] := by
  rw [diffSnapshot_eq]
  cases snap <;> cases safeCopy m v ARG_SNAP
  case some.some => exact comparison_diffMem
  all_goals exact (ite_self _).symm

-- The comparisons of the arguments, with the index of the first one.
def diffArgs (m m' : ProcessMemory) (args : List DWord) (n : Nat) : List Line :=
  (args.zipIdx n).flatMap fun (v, i) => diffSnapshot (.arg i v) m' v (snapshot m v)

theorem comparison_diffArgs_nil (h : ∀ i ≥ n, ∀ w, Label.arg i w ≠ label) :
    comparison label (diffArgs m m' args n) = [] := by
  rw [comparison, diffArgs, List.filter_flatMap]
  refine List.flatMap_eq_nil_iff.mpr fun (w, i) hm => ?_
  exact comparison_diffSnapshot.trans <| if_neg <| h i (List.le_snd_of_mem_zipIdx hm) w

theorem comparison_diffArgs : comparison (.arg (n + j) v) (diffArgs m m' args n) =
    if args[j]? = some v then
      diffBoth (.arg (n + j) v) (snapshot m v) (safeCopy m' v ARG_SNAP) ARG_SNAP
    else
      [] := by
  induction args generalizing n j
  case nil => rfl
  case cons w args hi =>
    rw [diffArgs, List.zipIdx_cons, List.flatMap_cons, comparison_append, comparison_diffSnapshot, ←diffArgs]
    cases j
    case zero =>
      have hn : comparison (.arg (n + 0) v) (diffArgs m m' args (n + 1)) = [] :=
        comparison_diffArgs_nil fun i hi w he => by cases he; omega
      rw [hn, List.append_nil]
      by_cases hw : w = v <;> simp [hw]
    case succ j =>
      have hi := hi (n := n + 1) (j := j)
      rw [if_neg (by simp), List.nil_append, List.getElem?_cons_succ]
      rwa [Nat.add_right_comm] at hi

theorem change?_diffMem :
    (diffMem label before after size).filterMap Line.change? =
    (changes label before after size).filterMap Line.change? := by
  rw [diffMem]
  split
  case isTrue h  => rw [List.length_eq_zero_iff.mp h]; rfl
  case isFalse h => rfl

theorem diffMem_ne_nil : diffMem label before after size ≠ [] := by
  rw [diffMem]
  split
  case isTrue h  => simp
  case isFalse h => exact fun hn => h <| List.length_eq_zero_iff.mpr hn

theorem readAfter_eq {after : Option (List Byte)} (hd : readDump label ls = snap)
    (hc : comparison l ls = diffBoth l snap after size) (hs : ∀ b ∈ snap, b.length = size)
    (ha : ∀ a ∈ after, a.length = size) (h : 4 ∣ size) :
    readAfter label l ls = snap.bind fun _ => after := by
  rw [readAfter, hd, hc]
  match snap, after with
  | none,   _      => rfl
  | some b, none   => rfl
  | some b, some a =>
    refine (if_neg diffMem_ne_nil).trans <| congrArg some ?_
    exact (congrArg (overwrite b) change?_diffMem).trans <| overwrite_changes (hs b rfl) (ha a rfl) h

end Lines

section Call

-- Lines that are part of no dump and no comparison.
structure Silent (ls : List Line) : Prop where
  rowChunks  : rowChunks ls = []
  readDump   : ∀ label, readDump label ls = none
  comparison : ∀ label, comparison label ls = []

-- The lines show the targets of the captured pointers before the call and after it, where they can be read.
structure Readback (s : SlotState) (m m' : ProcessMemory) (ls : List Line) : Prop where
  thisBefore : readDump .thisBefore ls = safeCopy m s.thisPtr SNAP_SIZE
  thisAfter  : readDump .thisAfter ls = safeCopy m' s.thisPtr SNAP_SIZE
  this       : readAfter .thisBefore .this ls =
    (safeCopy m s.thisPtr SNAP_SIZE).bind fun _ => safeCopy m' s.thisPtr SNAP_SIZE
  edxBefore  : readDump (.edxBefore s.edx) ls = snapshot m s.edx
  edx        : readAfter (.edxBefore s.edx) (.edx s.edx) ls =
    (snapshot m s.edx).bind fun _ => safeCopy m' s.edx ARG_SNAP
  argBefore  : ∀ i v, s.args[i]? = some v → readDump (.argBefore i v) ls = snapshot m v
  arg        : ∀ i v, s.args[i]? = some v →
    readAfter (.argBefore i v) (.arg i v) ls = (snapshot m v).bind fun _ => safeCopy m' v ARG_SNAP

variable {name : Name} {failed failed' : List Line} {s s' : SlotState} {tid : DWord} {m m' : ProcessMemory}
variable {label : Label} {snap after : Option (List Byte)}

def thisBeforeLines (failed : List Line) (snap : Option (List Byte)) : List Line :=
  snap.elim failed (hexDump .thisBefore · SNAP_SIZE)

def thisAfterLines (failed : List Line) (snap after : Option (List Byte)) : List Line :=
  after.elim failed fun after => diffThis snap after ++ hexDump .thisAfter after SNAP_SIZE

section This

variable (hf : Silent failed)

include hf

theorem rowChunks_thisBeforeLines : rowChunks (thisBeforeLines failed snap) = [] := by
  cases snap
  case none   => exact hf.rowChunks
  case some b => rfl

theorem readDump_thisBeforeLines (hs : ∀ b ∈ snap, b.length = SNAP_SIZE) :
    readDump label (thisBeforeLines failed snap) = if .thisBefore = label then snap else none := by
  cases snap
  case none   => exact (hf.readDump label).trans (ite_self _).symm
  case some b => exact readDump_hexDump (hs b rfl) (by decide)

theorem comparison_thisBeforeLines : comparison label (thisBeforeLines failed snap) = [] := by
  cases snap
  case none   => exact hf.comparison label
  case some b => exact comparison_hexDump

theorem rowChunks_thisAfterLines : rowChunks (thisAfterLines failed snap after) = [] := by
  cases after
  case none   => exact hf.rowChunks
  case some a =>
    refine (rowChunks_append rfl).trans ?_
    cases snap
    case none   => rfl
    case some b => exact rowChunks_diffMem

theorem readDump_thisAfterLines (ha : ∀ a ∈ after, a.length = SNAP_SIZE) :
    readDump label (thisAfterLines failed snap after) = if .thisAfter = label then after else none := by
  cases after
  case none   => exact (hf.readDump label).trans (ite_self _).symm
  case some a =>
    have hd : readDump label (diffThis snap a) = none := by
      cases snap
      case none   => rfl
      case some b => exact readDump_diffMem
    refine (readDump_append rfl).trans ?_
    rw [hd, Option.none_or, readDump_hexDump (ha a rfl) (by decide)]

theorem comparison_thisAfterLines : comparison label (thisAfterLines failed snap after) =
    if .this = label then diffBoth .this snap after SNAP_SIZE else [] := by
  cases after
  case none   =>
    refine (hf.comparison label).trans ?_
    cases snap <;> exact (ite_self _).symm
  case some a =>
    refine comparison_append.trans ?_
    rw [comparison_hexDump, List.append_nil]
    cases snap
    case none   => exact (ite_self _).symm
    case some b => exact comparison_diffMem

end This

-- The lines of a call, if the method does not change the captured values.
def callLines (name : Name) (failed failed' : List Line) (s s' : SlotState) (tid : DWord)
    (m m' : ProcessMemory) : List Line :=
  List.flatten [
    [.entry name s.thisPtr s.edx s.caller tid, .stack s.args],
    thisBeforeLines failed (safeCopy m s.thisPtr SNAP_SIZE),
    dumpSnapshot (.edxBefore s.edx) (snapshot m s.edx),
    dumpArgs m s.args 0,
    [.returned name s'.retval (espDelta s') (nArgsInferred s')],
    thisAfterLines failed' (safeCopy m s.thisPtr SNAP_SIZE) (safeCopy m' s.thisPtr SNAP_SIZE),
    diffSnapshot (.edx s.edx) m' s.edx (snapshot m s.edx),
    diffArgs m m' s.args 0
  ]

theorem observe_eq (ht : s'.thisPtr = s.thisPtr) (he : s'.edx = s.edx) (ha : s'.args = s.args) :
    (observeBefore name failed s tid m).2 ++
      observeAfter name failed' s' (observeBefore name failed s tid m).1 m' =
    callLines name failed failed' s s' tid m m' := by
  have hj {i : Nat} {v : DWord} (h : (v, i) ∈ s.args.zipIdx) :
      (s.args.map (snapshot m))[i]?.join = snapshot m v := by
    rw [List.getElem?_map, List.mk_mem_zipIdx_iff_getElem?.mp h]
    rfl
  have h₁ : (s.args.zipIdx.flatMap fun (v, i) =>
      dumpSnapshot (.argBefore i v) ((s.args.map (snapshot m))[i]?.join)) = dumpArgs m s.args 0 :=
    List.flatMap_congr fun (v, i) h => congrArg (dumpSnapshot _) (hj h)
  have h₂ : (s.args.zipIdx.flatMap fun (v, i) =>
      diffSnapshot (.arg i v) m' v ((s.args.map (snapshot m))[i]?.join)) = diffArgs m m' s.args 0 :=
    List.flatMap_congr fun (v, i) h => congrArg (diffSnapshot _ m' v) (hj h)
  simp only [observeBefore, observeAfter, ht, he, ha, h₁, h₂, callLines, List.flatten_cons, List.flatten_nil,
    List.append_nil, List.append_assoc]
  rfl

section Logged

variable (hf : Silent failed) (hf' : Silent failed')

include hf hf'

theorem readDump_callLines : readDump label (callLines name failed failed' s s' tid m m') =
    (if .thisBefore = label then safeCopy m s.thisPtr SNAP_SIZE else none).or
    ((if .edxBefore s.edx = label then snapshot m s.edx else none).or
    ((readDump label (dumpArgs m s.args 0)).or
    (if .thisAfter = label then safeCopy m' s.thisPtr SNAP_SIZE else none))) := by
  have hd : rowChunks (dumpArgs m s.args 0) = [] := rowChunks_flatMap fun _ => rowChunks_dumpSnapshot
  have ha : rowChunks (diffArgs m m' s.args 0) = [] := rowChunks_flatMap fun _ => rowChunks_diffSnapshot
  have hn : readDump label (diffArgs m m' s.args 0) = none :=
    readDump_flatMap (fun _ => rowChunks_diffSnapshot) fun _ _ => readDump_diffSnapshot
  have hc {m} : ∀ b ∈ safeCopy m s.thisPtr SNAP_SIZE, b.length = SNAP_SIZE := fun _ => length_of_safeCopy
  refine (readDump_flatten ?_).trans ?_
  case refine_1 =>
    simp only [List.forall_mem_cons, rowChunks_thisBeforeLines hf, rowChunks_thisAfterLines hf',
      rowChunks_dumpSnapshot, rowChunks_diffSnapshot, hd, ha, rowChunks, true_and]
    exact fun _ h => absurd h List.not_mem_nil
  case refine_2 =>
    simp only [List.map_cons, List.map_nil, List.foldr_cons, List.foldr_nil, readDump_thisBeforeLines hf hc,
      readDump_thisAfterLines hf' hc, readDump_dumpSnapshot fun _ => length_of_snapshot, readDump_diffSnapshot,
      hn, readDump, Option.none_or, Option.or_none]

theorem comparison_callLines : comparison label (callLines name failed failed' s s' tid m m') =
    (if .this = label then
      diffBoth .this (safeCopy m s.thisPtr SNAP_SIZE) (safeCopy m' s.thisPtr SNAP_SIZE) SNAP_SIZE
    else []) ++
    ((if .edx s.edx = label then
      diffBoth (.edx s.edx) (snapshot m s.edx) (safeCopy m' s.edx ARG_SNAP) ARG_SNAP
    else []) ++
    comparison label (diffArgs m m' s.args 0)) := by
  have he : comparison label [.entry name s.thisPtr s.edx s.caller tid, .stack s.args] = [] := rfl
  have hr : comparison label [.returned name s'.retval (espDelta s') (nArgsInferred s')] = [] := rfl
  rw [callLines]
  simp only [List.flatten_cons, List.flatten_nil, comparison_append, he, hr, List.nil_append, List.append_nil]
  rw [comparison_thisBeforeLines hf, comparison_dumpSnapshot, comparison_dumpArgs,
    comparison_thisAfterLines hf', comparison_diffSnapshot, List.nil_append, List.nil_append, List.nil_append]

end Logged

theorem observe_readback (hf : Silent failed) (hf' : Silent failed') (ht : s'.thisPtr = s.thisPtr)
    (he : s'.edx = s.edx) (ha : s'.args = s.args) :
    Readback s m m' ((observeBefore name failed s tid m).2 ++
      observeAfter name failed' s' (observeBefore name failed s tid m).1 m') := by
  have hc {m} : ∀ b ∈ safeCopy m s.thisPtr SNAP_SIZE, b.length = SNAP_SIZE := fun _ => length_of_safeCopy
  have hs {v} : ∀ b ∈ snapshot m v, b.length = ARG_SNAP := fun _ => length_of_snapshot
  have hs' {v} : ∀ b ∈ safeCopy m' v ARG_SNAP, b.length = ARG_SNAP := fun _ => length_of_safeCopy
  have hd {label : Label} (h : ∀ i ≥ 0, ∀ w, .argBefore i w ≠ label) :
    readDump label (dumpArgs m s.args 0) = none :=
    readDump_dumpArgs_none h
  have hn {label : Label} (h : ∀ i ≥ 0, ∀ w, .arg i w ≠ label) :
    comparison label (diffArgs m m' s.args 0) = [] :=
    comparison_diffArgs_nil h
  rw [observe_eq ht he ha]
  have hthis : readDump .thisBefore (callLines name failed failed' s s' tid m m') =
      safeCopy m s.thisPtr SNAP_SIZE := by
    rw [readDump_callLines hf hf', hd (by simp)]
    simp
  have hedx : readDump (.edxBefore s.edx) (callLines name failed failed' s s' tid m m') = snapshot m s.edx := by
    rw [readDump_callLines hf hf', hd (by simp)]
    simp
  have harg {i : Nat} {v : DWord} (h : s.args[i]? = some v) :
      readDump (.argBefore i v) (callLines name failed failed' s s' tid m m') = snapshot m v := by
    have ha : readDump (.argBefore (0 + i) v) (dumpArgs m s.args 0) = snapshot m v :=
      readDump_dumpArgs.trans <| if_pos h
    rw [Nat.zero_add] at ha
    rw [readDump_callLines hf hf', ha]
    simp
  constructor
  case thisBefore => exact hthis
  case thisAfter  =>
    rw [readDump_callLines hf hf', hd (by simp)]
    simp
  case this       =>
    refine readAfter_eq hthis ?_ hc hc (by decide)
    rw [comparison_callLines hf hf', hn (by simp)]
    simp
  case edxBefore  => exact hedx
  case edx        =>
    refine readAfter_eq hedx ?_ hs hs' (by decide)
    rw [comparison_callLines hf hf', hn (by simp)]
    simp
  case argBefore  => exact fun i v h => harg h
  case arg        =>
    intro i v h
    refine readAfter_eq (harg h) ?_ hs hs' (by decide)
    have ha : comparison (.arg (0 + i) v) (diffArgs m m' s.args 0) =
        diffBoth (.arg (0 + i) v) (snapshot m v) (safeCopy m' v ARG_SNAP) ARG_SNAP :=
      comparison_diffArgs.trans <| if_pos h
    rw [Nat.zero_add] at ha
    rw [comparison_callLines hf hf', ha]
    simp

end Call

end Tersafe
