import Mathlib
import MhoLauncher.CryGame.Modules
import MhoLauncher.CryGame.ProcessMemory
import MhoLauncher.HookTable.Basic

open Bytes

namespace CryGame

-- An access through a pointer. This is a fault if the memory can not be read.
def ProcessMemory.deref (m : ProcessMemory) (a : DWord) : Option DWord :=
  m.readProcessMemory a 4 |>.map (ofLE 32)

-- A line of a backtrace, with the format that it is printed by.
structure Line where
  format : String
  tag    : String
  index  : Nat
  ret    : DWord
  place  : List Char

-- The walkers read a frame before they log it.
inductive Event
  | follow (ebp : DWord)
  | log (line : Line)

section Source

variable (getModuleHandle : String → DWord) (m : ProcessMemory) (ctx : DWord) (tag : String)

-- At most `n` iterations of the loop, from the `i`-th one on. The buffer for the text has 48 bytes.
def logBacktrace.loop (b : Bases) : Nat → Nat → DWord → List Event
  | 0,     _, _   => []
  | n + 1, i, ebp =>
    if ebp < 0x10000 ∨ ebp > 0xC0000000 then [] else
    .follow ebp ::
    match (m.safeReadValue 4 ebp : Option DWord) with
    | none          => []
    | some savedEbp =>
      match (m.safeReadValue 4 (ebp + 4) : Option DWord) with
      | none          => []
      | some savedRet =>
        if savedRet < 0x10000 then [] else
        .log ⟨"[%s.bt] f%d ret=%p %s\n", tag, i, savedRet, formatModuleOffset b savedRet 48⟩ ::
        if savedEbp ≤ ebp ∨ savedEbp > 0xC0000000 then [] else loop b n (i + 1) savedEbp

def logBacktrace (maxDepth : Int) (b : Bases) : Option (List Event × Bases) := do
  let b := refreshBacktraceModules getModuleHandle b
  let ret0 ← m.deref (HookTable.hookStack ctx 0)
  let f0 := .log ⟨"[%s.bt] f0 ret=%p %s\n", tag, 0, ret0, formatModuleOffset b ret0 48⟩
  let ebp ← m.deref (ctx + 8)
  return (f0 :: logBacktrace.loop m tag b maxDepth.toNat 1 ebp, b)

-- A module with the name of its file.
structure FileEntry extends ModuleEntry where
  name : String

-- No module is loaded yet.
def gModules : List FileEntry := [
    ⟨⟨"mho",   0, 0x02000000⟩, "MHOClient.exe"⟩,
    ⟨⟨"cry",   0, 0x02400000⟩, "CryGame.dll"⟩,
    ⟨⟨"cact",  0, 0x01900000⟩, "CryAction.dll"⟩,
    ⟨⟨"csys",  0, 0x00800000⟩, "CrySystem.dll"⟩,
    ⟨⟨"tp",    0, 0x00400000⟩, "tenproxy.dll"⟩,
    ⟨⟨"ph",    0, 0x00400000⟩, "protocalhandler.dll"⟩,
    ⟨⟨"msvcr", 0, 0x00400000⟩, "msvcr120.dll"⟩,
    ⟨⟨"ntdll", 0, 0x00400000⟩, "ntdll.dll"⟩,
    ⟨⟨"k32",   0, 0x00400000⟩, "kernel32.dll"⟩
  ]

def refreshModuleBases (modules : List FileEntry) : List FileEntry :=
  modules.map fun m => if m.base = 0 then { m with base := getModuleHandle m.name } else m

def formatAddr (modules : List FileEntry) : DWord → Nat → List Char :=
  formatIn <| modules.map (·.toModuleEntry)

def safeReadDword (addr : DWord) : Option DWord :=
  if addr < 0x10000 then none else m.readProcessMemory addr 4 |>.map (ofLE 32)

-- The buffer for the text has 64 bytes.
def logCallerStack.loop (modules : List FileEntry) : Nat → Nat → DWord → List Event
  | 0,     _, _   => []
  | n + 1, i, ebp =>
    if ebp < 0x10000 ∨ ebp > 0xC0000000 then [] else
    .follow ebp ::
    match safeReadDword m ebp with
    | none          => []
    | some savedEbp =>
      match safeReadDword m (ebp + 4) with
      | none          => []
      | some savedRet =>
        if savedRet < 0x10000 then [] else
        .log ⟨"[%s.bt] f%d ret=0x%08X %s\n", tag, i, savedRet, formatAddr modules savedRet 64⟩ ::
        if savedEbp ≤ ebp ∨ savedEbp > 0xC0000000 then [] else loop modules n (i + 1) savedEbp

def logCallerStack (maxDepth : Int) (modules : List FileEntry) : Option (List Event × List FileEntry) :=
  if ctx = 0 ∨ maxDepth ≤ 0 then
    some ([], modules)
  else do
    let maxDepth := if maxDepth > 32 then 32 else maxDepth
    let modules := refreshModuleBases getModuleHandle modules
    let ret0 ← m.deref (HookTable.hookStack ctx 0)
    let f0 := .log ⟨"[%s.bt] f0 ret=0x%08X %s\n", tag, 0, ret0, formatAddr modules ret0 64⟩
    let ebp ← m.deref (ctx + 8)
    return (f0 :: logCallerStack.loop m tag modules maxDepth.toNat 1 ebp, modules)

end Source

section Spec

def Event.followed? : Event → Option DWord
  | follow ebp => some ebp
  | log _      => none

def Event.logged? : Event → Option (Nat × DWord)
  | follow _ => none
  | log line => some (line.index, line.ret)

-- The frame pointers whose frames are read.
def followed (es : List Event) : List DWord :=
  es.filterMap Event.followed?

-- The indices and the return addresses of the lines.
def logged (es : List Event) : List (Nat × DWord) :=
  es.filterMap Event.logged?

-- The pointer is in the range of the stacks.
def InStack (ebp : DWord) : Prop :=
  0x10000 ≤ ebp ∧ ebp ≤ 0xC0000000

instance (ebp : DWord) : Decidable (InStack ebp) :=
  inferInstanceAs <| Decidable (_ ∧ _)

-- The frame at a pointer, with the pointer to the next frame and a plausible return address.
structure Frame (m : ProcessMemory) (ebp saved ret : DWord) : Prop where
  inStack  : InStack ebp
  savedEbp : m.deref ebp = some saved
  savedRet : m.deref (ebp + 4) = some ret
  code     : 0x10000 ≤ ret

-- The stack grows towards the callers.
def Links (ebp saved : DWord) : Prop :=
  ebp < saved ∧ saved ≤ 0xC0000000

instance (ebp saved : DWord) : Decidable (Links ebp saved) :=
  inferInstanceAs <| Decidable (_ ∧ _)

-- The return addresses of the frames from a pointer on. The chain ends with a pointer without a frame, or
-- with a frame without a link.
inductive Chain (m : ProcessMemory) : DWord → List DWord → Prop
  | nil {ebp} (h : ∀ saved ret, ¬Frame m ebp saved ret) : Chain m ebp []
  | last {ebp saved ret} (f : Frame m ebp saved ret) (h : ¬Links ebp saved) : Chain m ebp [ret]
  | cons {ebp saved ret rets} (f : Frame m ebp saved ret) (h : Links ebp saved) (c : Chain m saved rets) :
    Chain m ebp (ret :: rets)

-- No frame is visited twice, and what is logged after the first line are addresses of code.
structure Sound (es : List Event) : Prop where
  increasing : (followed es).Pairwise (· < ·)
  nodup      : (followed es).Nodup
  inStack    : ∀ ebp ∈ followed es, InStack ebp
  code       : ∀ p ∈ (logged es).tail, 0x10000 ≤ p.2

end Spec

section Walk

-- What both walkers do, with the reads that their checks of an address amount to.
def walk (m : ProcessMemory) (line : Nat → DWord → Line) : Nat → Nat → DWord → List Event
  | 0,     _, _   => []
  | n + 1, i, ebp =>
    if ebp < 0x10000 ∨ ebp > 0xC0000000 then [] else
    .follow ebp ::
    match m.deref ebp with
    | none       => []
    | some saved =>
      match m.deref (ebp + 4) with
      | none     => []
      | some ret =>
        if ret < 0x10000 then [] else
        .log (line i ret) :: if saved ≤ ebp ∨ saved > 0xC0000000 then [] else walk m line n (i + 1) saved

variable {m : ProcessMemory} {line : Nat → DWord → Line} {tag : String} {n i : Nat} {ebp saved ret : DWord}

theorem safeReadValue_eq {a : DWord} (h : 0x10000 ≤ a) : m.safeReadValue 4 a = m.deref a := by
  have hn : ¬(a < 0x10000 ∨ 4 = 0) := by
    rw [not_or, BitVec.not_lt]
    exact ⟨h, by decide⟩
  rw [ProcessMemory.safeReadValue, ProcessMemory.safeReadBytes, if_neg hn]
  rfl

theorem safeReadDword_eq {a : DWord} (h : 0x10000 ≤ a) : safeReadDword m a = m.deref a :=
  if_neg <| BitVec.not_lt.mpr h

theorem inStack_iff : InStack ebp ↔ ¬(ebp < 0x10000 ∨ ebp > 0xC0000000) := by
  rw [InStack, not_or, BitVec.not_lt, gt_iff_lt, BitVec.not_lt]

-- The second word of a frame is not beyond the end of the memory.
theorem InStack.add_four (h : InStack ebp) : 0x10000 ≤ ebp + 4 := by
  have := h.left
  have := h.right
  bv_omega

theorem logBacktrace_loop_eq (b : Bases) : logBacktrace.loop m tag b n i ebp =
    walk m (fun i ret => ⟨"[%s.bt] f%d ret=%p %s\n", tag, i, ret, formatModuleOffset b ret 48⟩) n i ebp := by
  induction n generalizing i ebp
  case zero => rfl
  case succ n hi =>
    rw [logBacktrace.loop, walk]
    split
    case isTrue => rfl
    case isFalse h =>
      have h := inStack_iff.mpr h
      rw [safeReadValue_eq h.left, safeReadValue_eq h.add_four]
      simp only [hi]
      rfl

theorem logCallerStack_loop_eq (modules : List FileEntry) : logCallerStack.loop m tag modules n i ebp =
    walk m (fun i ret =>
      ⟨"[%s.bt] f%d ret=0x%08X %s\n", tag, i, ret, formatAddr modules ret 64⟩) n i ebp := by
  induction n generalizing i ebp
  case zero => rfl
  case succ n hi =>
    rw [logCallerStack.loop, walk]
    split
    case isTrue => rfl
    case isFalse h =>
      have h := inStack_iff.mpr h
      rw [safeReadDword_eq h.left, safeReadDword_eq h.add_four]
      simp only [hi]

-- All that an iteration can do.
theorem walk_succ (m : ProcessMemory) (line : Nat → DWord → Line) (n i : Nat) (ebp : DWord) :
    (¬InStack ebp ∧ walk m line (n + 1) i ebp = []) ∨
    (InStack ebp ∧ (∀ saved ret, ¬Frame m ebp saved ret) ∧ walk m line (n + 1) i ebp = [.follow ebp]) ∨
    ∃ saved ret, Frame m ebp saved ret ∧ (
      (¬Links ebp saved ∧ walk m line (n + 1) i ebp = [.follow ebp, .log (line i ret)]) ∨
      (Links ebp saved ∧
        walk m line (n + 1) i ebp = .follow ebp :: .log (line i ret) :: walk m line n (i + 1) saved)) := by
  by_cases hs : InStack ebp
  case neg => exact .inl ⟨hs, if_pos <| not_not.mp <| inStack_iff.not.mp hs⟩
  case pos =>
    have hw : walk m line (n + 1) i ebp = _ := if_neg <| inStack_iff.mp hs
    rw [hw]
    cases h₁ : m.deref ebp
    case none => exact .inr <| .inl ⟨hs, fun _ _ f => (nomatch h₁.symm.trans f.savedEbp), rfl⟩
    case some saved =>
      cases h₂ : m.deref (ebp + 4)
      case none => exact .inr <| .inl ⟨hs, fun _ _ f => (nomatch h₂.symm.trans f.savedRet), rfl⟩
      case some ret =>
        by_cases hr : ret < 0x10000
        case pos =>
          refine .inr <| .inl ⟨hs, fun saved' ret' f => ?_, by simp only [if_pos hr]⟩
          cases h₂.symm.trans f.savedRet
          exact absurd hr <| BitVec.not_lt.mpr f.code
        case neg =>
          have f : Frame m ebp saved ret := ⟨hs, h₁, h₂, BitVec.not_lt.mp hr⟩
          have hl : Links ebp saved ↔ ¬(saved ≤ ebp ∨ saved > 0xC0000000) := by
            rw [Links, not_or, BitVec.not_le, gt_iff_lt, BitVec.not_lt]
          refine .inr <| .inr ⟨saved, ret, f, ?_⟩
          by_cases hc : saved ≤ ebp ∨ saved > 0xC0000000
          case pos => exact .inl ⟨hl.not.mpr <| not_not.mpr hc, by simp only [if_neg hr, if_pos hc]⟩
          case neg => exact .inr ⟨hl.mpr hc, by simp only [if_neg hr, if_neg hc]⟩

-- The line shows the index and the return address that it is given.
def Shows (line : Nat → DWord → Line) : Prop :=
  ∀ i ret, (line i ret).index = i ∧ (line i ret).ret = ret

theorem logged_cons (hl : Shows line) (es : List Event) :
    logged (.log (line i ret) :: es) = (i, ret) :: logged es := by
  have he : Event.logged? (.log <| line i ret) = some (i, ret) :=
    congrArg some <| Prod.ext (hl i ret).left (hl i ret).right
  rw [logged, List.filterMap_cons_some he, ←logged]

theorem logged_follow (es : List Event) : logged (.follow ebp :: es) = logged es :=
  List.filterMap_cons_none rfl

theorem followed_log (l : Line) (es : List Event) : followed (.log l :: es) = followed es :=
  List.filterMap_cons_none rfl

theorem followed_cons (es : List Event) : followed (.follow ebp :: es) = ebp :: followed es :=
  List.filterMap_cons_some rfl

-- The formats and the texts of the lines do not influence the walk.
theorem logged_walk_congr {line' : Nat → DWord → Line} (hl : Shows line) (hl' : Shows line') :
    logged (walk m line n i ebp) = logged (walk m line' n i ebp) := by
  induction n generalizing i ebp
  case zero => rfl
  case succ n hi =>
    rw [walk, walk]
    split
    case isTrue => rfl
    case isFalse =>
      rw [logged_follow, logged_follow]
      cases m.deref ebp
      case none => rfl
      case some saved =>
        cases m.deref (ebp + 4)
        case none => rfl
        case some ret =>
          simp only
          split
          case isTrue => rfl
          case isFalse =>
            rw [logged_cons hl, logged_cons hl']
            split
            case isTrue  => rfl
            case isFalse => rw [hi]

-- The pointers of a walk grow from the first one on.
theorem followed_walk : (followed (walk m line n i ebp)).Pairwise (· < ·) ∧
    ∀ p ∈ followed (walk m line n i ebp), ebp ≤ p ∧ InStack p := by
  induction n generalizing i ebp
  case zero => exact ⟨.nil, fun _ h => nomatch h⟩
  case succ n hi =>
    rcases walk_succ m line n i ebp with ⟨_, hw⟩ | ⟨hs, _, hw⟩ | ⟨saved, ret, f, ⟨_, hw⟩ | ⟨h, hw⟩⟩
    case inl => rw [hw]; exact ⟨.nil, fun _ h => nomatch h⟩
    case inr.inl =>
      rw [hw]
      exact ⟨List.pairwise_singleton .., List.forall_mem_singleton.mpr ⟨BitVec.le_refl _, hs⟩⟩
    case inr.inr.inl =>
      rw [hw, followed_cons, followed_log]
      exact ⟨List.pairwise_singleton .., List.forall_mem_singleton.mpr ⟨BitVec.le_refl _, f.inStack⟩⟩
    case inr.inr.inr =>
      have h' : (followed (walk m line n (i + 1) saved)).Pairwise (· < ·) ∧
          ∀ p ∈ followed (walk m line n (i + 1) saved), saved ≤ p ∧ InStack p := hi
      obtain ⟨hp, hb⟩ := h'
      rw [hw, followed_cons, followed_log, List.pairwise_cons, List.forall_mem_cons]
      have hlt (p) (hm : p ∈ followed (walk m line n (i + 1) saved)) : ebp < p := by
        have := (hb p hm).left
        have := h.left
        bv_omega
      exact ⟨⟨hlt, hp⟩, ⟨BitVec.le_refl _, f.inStack⟩, fun p hm =>
        ⟨BitVec.le_of_lt <| hlt p hm, (hb p hm).right⟩⟩

theorem code_walk (hl : Shows line) : ∀ p ∈ logged (walk m line n i ebp), 0x10000 ≤ p.2 := by
  induction n generalizing i ebp
  case zero => exact fun _ h => nomatch h
  case succ n hi =>
    rcases walk_succ m line n i ebp with ⟨_, hw⟩ | ⟨hs, _, hw⟩ | ⟨saved, ret, f, ⟨_, hw⟩ | ⟨h, hw⟩⟩
    case inl     => rw [hw]; exact fun _ h => nomatch h
    case inr.inl => rw [hw]; exact fun _ h => nomatch h
    case inr.inr.inl =>
      rw [hw, logged_follow, logged_cons hl, List.forall_mem_cons]
      exact ⟨f.code, fun _ h => nomatch h⟩
    case inr.inr.inr =>
      rw [hw, logged_follow, logged_cons hl, List.forall_mem_cons]
      exact ⟨f.code, hi⟩

theorem Frame.unique {saved' ret' : DWord} (f : Frame m ebp saved ret) (g : Frame m ebp saved' ret') :
    saved = saved' ∧ ret = ret' :=
  ⟨Option.some.inj <| f.savedEbp.symm.trans g.savedEbp, Option.some.inj <| f.savedRet.symm.trans g.savedRet⟩

theorem logged_walk_nil (h : ∀ saved ret, ¬Frame m ebp saved ret) : logged (walk m line n i ebp) = [] := by
  cases n
  case zero => rfl
  case succ n =>
    rcases walk_succ m line n i ebp with ⟨_, hw⟩ | ⟨_, _, hw⟩ | ⟨saved, ret, f, _⟩
    case inl     => rw [hw]; rfl
    case inr.inl => rw [hw]; rfl
    case inr.inr => exact absurd f <| h saved ret

namespace Frame

theorem logged_last (f : Frame m ebp saved ret) (h : ¬Links ebp saved) (hl : Shows line) :
    logged (walk m line (n + 1) i ebp) = [(i, ret)] := by
  rcases walk_succ m line n i ebp with ⟨hs, _⟩ | ⟨_, hf, _⟩ | ⟨saved', ret', g, ⟨_, hw⟩ | ⟨h', _⟩⟩
  case inl     => exact absurd f.inStack hs
  case inr.inl => exact absurd f <| hf saved ret
  case inr.inr.inl =>
    rw [hw, logged_follow, logged_cons hl, (f.unique g).right]
    rfl
  case inr.inr.inr => exact absurd ((f.unique g).left ▸ h') h

theorem logged_link (f : Frame m ebp saved ret) (h : Links ebp saved) (hl : Shows line) :
    logged (walk m line (n + 1) i ebp) = (i, ret) :: logged (walk m line n (i + 1) saved) := by
  rcases walk_succ m line n i ebp with ⟨hs, _⟩ | ⟨_, hf, _⟩ | ⟨saved', ret', g, ⟨h', _⟩ | ⟨_, hw⟩⟩
  case inl     => exact absurd f.inStack hs
  case inr.inl => exact absurd f <| hf saved ret
  case inr.inr.inl => exact absurd ((f.unique g).left ▸ h) h'
  case inr.inr.inr => rw [hw, logged_follow, logged_cons hl, (f.unique g).left, (f.unique g).right]

end Frame

-- Of a chain as many frames are logged as the walk has iterations.
theorem Chain.logged_walk {rets : List DWord} (c : Chain m ebp rets) (hl : Shows line) (n i : Nat) :
    logged (walk m line n i ebp) = ((rets.take n).zipIdx i).map Prod.swap := by
  induction c generalizing n i
  case nil h =>
    rw [logged_walk_nil h, List.take_nil]
    rfl
  case last f h =>
    cases n
    case zero => rfl
    case succ n =>
      rw [f.logged_last h hl, List.take_succ_cons, List.take_nil]
      rfl
  case cons f h _ hi =>
    cases n
    case zero => rfl
    case succ n =>
      rw [f.logged_link h hl, hi, List.take_succ_cons]
      rfl

theorem logged_first {l : Line} (es : List Event) : logged (.log l :: es) = (l.index, l.ret) :: logged es :=
  List.filterMap_cons_some rfl

-- A walk behind the first line.
theorem sound_walk {l : Line} (hl : Shows line) : Sound (.log l :: walk m line n i ebp) := by
  have hf : followed (.log l :: walk m line n i ebp) = followed (walk m line n i ebp) := followed_log ..
  constructor
  case increasing => exact hf ▸ followed_walk.left
  case nodup =>
    rw [hf]
    exact followed_walk.left.imp fun {p q} (h : p < q) (he : p = q) => BitVec.lt_irrefl q (he ▸ h)
  case inStack    => exact hf ▸ fun p hp => (followed_walk.right p hp).right
  case code       => exact logged_first (l := l) _ ▸ code_walk hl

end Walk

section Agreement

variable (getModuleHandle : String → DWord) (m : ProcessMemory) (ctx : DWord) (tag tag' : String)
    (maxDepth : Int)
variable (b : Bases) (modules : List FileEntry)

theorem logBacktrace_run {ebp ret0 : DWord} (he : m.deref (ctx + 8) = some ebp)
    (hr : m.deref (HookTable.hookStack ctx 0) = some ret0) :
    ∃ l line b', l.index = 0 ∧ l.ret = ret0 ∧ Shows line ∧ logBacktrace getModuleHandle m ctx tag maxDepth b =
      some (.log l :: walk m line maxDepth.toNat 1 ebp, b') := by
  let b' := refreshBacktraceModules getModuleHandle b
  refine ⟨
    ⟨"[%s.bt] f0 ret=%p %s\n", tag, 0, ret0, formatModuleOffset b' ret0 48⟩,
    fun i ret => ⟨"[%s.bt] f%d ret=%p %s\n", tag, i, ret, formatModuleOffset b' ret 48⟩,
    b', rfl, rfl, fun _ _ => ⟨rfl, rfl⟩, ?_
  ⟩
  rw [logBacktrace, hr, he]
  simp only [Option.bind_eq_bind, Option.bind_some, logBacktrace_loop_eq]
  rfl

theorem logCallerStack_run (h₁ : 1 ≤ maxDepth) (h₂ : maxDepth ≤ 32) (hc : ctx ≠ 0) {ebp ret0 : DWord}
    (he : m.deref (ctx + 8) = some ebp) (hr : m.deref (HookTable.hookStack ctx 0) = some ret0) :
    ∃ l line modules', l.index = 0 ∧ l.ret = ret0 ∧ Shows line ∧
      logCallerStack getModuleHandle m ctx tag maxDepth modules =
        some (.log l :: walk m line maxDepth.toNat 1 ebp, modules') := by
  have hd : ¬(ctx = 0 ∨ maxDepth ≤ 0) := not_or.mpr ⟨hc, by omega⟩
  have hm : (if maxDepth > 32 then 32 else maxDepth) = maxDepth := if_neg <| Int.not_lt.mpr h₂
  let modules' := refreshModuleBases getModuleHandle modules
  refine ⟨
    ⟨"[%s.bt] f0 ret=0x%08X %s\n", tag, 0, ret0, formatAddr modules' ret0 64⟩,
    fun i ret => ⟨"[%s.bt] f%d ret=0x%08X %s\n", tag, i, ret, formatAddr modules' ret 64⟩,
    modules', rfl, rfl, fun _ _ => ⟨rfl, rfl⟩, ?_
  ⟩
  rw [logCallerStack, if_neg hd, hm, hr, he]
  simp only [Option.bind_eq_bind, Option.bind_some, logCallerStack_loop_eq]
  rfl

theorem backtraces_agree (h₁ : 1 ≤ maxDepth) (h₂ : maxDepth ≤ 32) (hc : ctx ≠ 0) {ebp ret0 : DWord}
    (he : m.deref (ctx + 8) = some ebp) (hr : m.deref (HookTable.hookStack ctx 0) = some ret0) :
    ∃ es b' es' modules', logBacktrace getModuleHandle m ctx tag maxDepth b = some (es, b') ∧
      logCallerStack getModuleHandle m ctx tag' maxDepth modules = some (es', modules') ∧
      logged es = logged es' ∧ Sound es ∧ Sound es' ∧
      ∀ rets, Chain m ebp rets →
        logged es = ((ret0 :: rets.take maxDepth.toNat).zipIdx).map Prod.swap := by
  obtain ⟨l, line, b', hi, hl, hs, hb⟩ := logBacktrace_run getModuleHandle m ctx tag maxDepth b he hr
  obtain ⟨l', line', modules', hi', hl', hs', hc⟩ :=
    logCallerStack_run getModuleHandle m ctx tag' maxDepth modules h₁ h₂ hc he hr
  refine ⟨_, b', _, modules', hb, hc, ?_, sound_walk hs, sound_walk hs', fun rets c => ?_⟩
  case refine_1 => rw [logged_first, logged_first, hi, hl, hi', hl', logged_walk_congr hs hs']
  case refine_2 => rw [logged_first, hi, hl, c.logged_walk hs, List.zipIdx_cons, List.map_cons, Prod.swap]

end Agreement

-- A chain of two frames, where the second one has no link.
def twoFrames : ProcessMemory :=
  .ofDWords [(0x20008, 0x30000), (0x20020, 0x401000), (0x30000, 0x30100), (0x30004, 0x402000), (0x30100, 0),
    (0x30104, 0x403000)]

theorem backtraces_agree_twoFrames :
    ∃ es b' es' modules',
      logBacktrace (fun _ => 0) twoFrames 0x20000 "a" 16 ⟨0, 0, 0, 0, 0, 0, 0⟩ = some (es, b') ∧
      logCallerStack (fun _ => 0) twoFrames 0x20000 "b" 16 gModules = some (es', modules') ∧
      logged es = logged es' ∧ logged es = [(0, 0x401000), (1, 0x402000), (2, 0x403000)] := by
  have h₁ : Frame twoFrames 0x30000 0x30100 0x402000 := ⟨by decide, by decide, by decide, by decide⟩
  have h₂ : Frame twoFrames 0x30100 0 0x403000 := ⟨by decide, by decide, by decide, by decide⟩
  have c : Chain twoFrames 0x30000 [0x402000, 0x403000] := .cons h₁ (by decide) <| .last h₂ <| by decide
  have he : twoFrames.deref (0x20000 + 8) = some 0x30000 := by decide
  have hr : twoFrames.deref (HookTable.hookStack 0x20000 0) = some 0x401000 := by decide
  obtain ⟨es, b', es', modules', hb, hc, hl, _, _, hs⟩ :=
    backtraces_agree (fun _ => 0) twoFrames 0x20000 "a" "b" 16
    ⟨0, 0, 0, 0, 0, 0, 0⟩ gModules (by decide) (by decide) (by decide) he hr
  exact ⟨es, b', es', modules', hb, hc, hl, hs _ c⟩

end CryGame
