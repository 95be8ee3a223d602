import MhoLauncher.CryGame.ProcessMemory
import MhoLauncher.HookTable.Failure

open Bytes Memory HookTable CryGame.ProcessMemory

namespace CryGame.PathB

-- The variables that the out parameters point to, unless they are null.
structure Outputs where
  stubVaOut     : Option DWord
  listOffsetOut : Option DWord
  deriving DecidableEq

variable (m : ProcessMemory) (crygameBase cmd : DWord)

-- The values of `cmd_lo`, `sel_va`, `jmp_va` and `sel_size`.
def selectTable : Option (DWord × DWord × DWord × DWord) :=
  if 1 ≤ cmd ∧ cmd ≤ 0x201 then
    some (1, crygameBase + 0x6639ec, crygameBase + 0x6637b4, 0x10e)
  else if 0x202 ≤ cmd ∧ cmd ≤ 0x501 then
    some (0x202, crygameBase + 0x663e3c, crygameBase + 0x663afc, 0x208)
  else
    none

-- The values of `stub` and `disp`, unless the function returns false.
def resolve : Option (DWord × DWord) := do
  guard (crygameBase ≠ 0)
  let (cmdLo, selVa, jmpVa, selSize) ← selectTable crygameBase cmd
  let idx := cmd - cmdLo
  guard (idx < selSize)
  let sel ← m.safeReadValue 1 (selVa + idx)
  let thunk ← m.safeReadValue 4 (jmpVa + sel.setWidth 32 * 4)
  let tb ← m.safeReadBytes thunk 12
  guard (tb[0]? = some 0x8D ∧ tb[1]? = some 0x42 ∧ tb[2]? = some 0x10)
  guard (tb[7]? = some 0xE9)
  let rel := ofLE 32 (tb.drop 8)
  let stub := thunk + 12 + rel
  let sb ← m.safeReadBytes stub 11
  guard (sb[5]? = some 0x8B ∧ sb[6]? = some 0xB1)
  let disp := ofLE 32 (sb.drop 7)
  return (stub, disp)

def pathBResolve (out : Outputs) : Bool × Outputs :=
  match resolve m crygameBase cmd with
  | none              => (false, out)
  | some (stub, disp) =>
    (true,
      { stubVaOut := out.stubVaOut.map fun _ => stub,
        listOffsetOut := out.listOffsetOut.map fun _ => disp })

section Structure

-- A selector table with the commands that it covers, and its table of jumps. Both are located relative to the
-- base of the module.
structure Table where
  first    : DWord
  last     : DWord
  selector : DWord
  jump     : DWord

def tables : List Table := [
  { first := 1,     last := 0x10e, selector := 0x6639ec, jump := 0x6637b4 },
  { first := 0x202, last := 0x409, selector := 0x663e3c, jump := 0x663afc }
]

-- The address of a command's selector byte and that of the corresponding table of jumps.
inductive IsSelector : DWord → DWord → Prop
  | intro {t} : crygameBase ≠ 0 → t ∈ tables → t.first ≤ cmd → cmd ≤ t.last →
    IsSelector (crygameBase + t.selector + (cmd - t.first)) (crygameBase + t.jump)

inductive IsJump : DWord → Prop
  | intro {sel a jmp} : IsSelector crygameBase cmd a jmp → m.safeReadBytes a 1 = some [sel] →
    IsJump (jmp + sel.setWidth 32 * 4)

inductive IsThunk : DWord → Prop
  | intro {a thunk} : IsJump m crygameBase cmd a → m.safeReadBytes a 4 = some (toLE 4 thunk) → IsThunk thunk

-- The thunk is `lea eax, [edx+0x10]; mov [ebp+8], eax; pop ebp; jmp stub`.
inductive IsStub : DWord → Prop
  | intro {thunk rel bs} : IsThunk m crygameBase cmd thunk → bs.length = 4 →
    m.safeReadBytes thunk 12 = some ([0x8D, 0x42, 0x10] ++ bs ++ [0xE9] ++ toLE 4 rel) →
    IsStub (thunk + 12 + rel)

-- The stub contains `mov esi, [ecx+disp]` after its first five bytes.
inductive Resolves : DWord → DWord → Prop
  | intro {stub disp bs} : IsStub m crygameBase cmd stub → bs.length = 5 →
    m.safeReadBytes stub 11 = some (bs ++ [0x8B, 0xB1] ++ toLE 4 disp) → Resolves stub disp

-- The bytes that lead to the stub.
def path : Set DWord :=
  { x | (∃ jmp, IsSelector crygameBase cmd x jmp) ∨ (∃ a, IsJump m crygameBase cmd a ∧ x ∈ range a 4) ∨
    ∃ a, IsThunk m crygameBase cmd a ∧ x ∈ range a 12 }

-- The bytes of the stub that are checked.
def checked : Set DWord :=
  { x | ∃ a, IsStub m crygameBase cmd a ∧ x ∈ range (a + 5) 6 }

end Structure

section Resolve

variable {m crygameBase cmd} {stub disp : DWord} {out : Outputs}

theorem selectTable_iff {a jmp : DWord} :
    (crygameBase ≠ 0 ∧ ∃ cmdLo selVa selSize,
      selectTable crygameBase cmd = some (cmdLo, selVa, jmp, selSize) ∧
      cmd - cmdLo < selSize ∧ selVa + (cmd - cmdLo) = a) ↔ IsSelector crygameBase cmd a jmp := by
  constructor
  case mp =>
    intro ⟨hb, cmdLo, selVa, selSize, ht, hs, ha⟩
    rw [selectTable] at ht
    split at ht
    case isTrue h =>
      simp only [Option.some.injEq, Prod.mk.injEq] at ht
      have ⟨h₁, h₂, h₃, h₄⟩ := ht
      subst h₁ h₂ h₃ h₄
      have hl : cmd ≤ 0x10e := by bv_omega
      exact ha ▸ .intro (t := tables[0]) hb (List.getElem_mem _) h.left hl
    case isFalse =>
      have ⟨h, ht⟩ := Option.ite_none_right_eq_some.mp ht
      simp only [Option.some.injEq, Prod.mk.injEq] at ht
      have ⟨h₁, h₂, h₃, h₄⟩ := ht
      subst h₁ h₂ h₃ h₄
      have hl : cmd ≤ 0x409 := by bv_omega
      exact ha ▸ .intro (t := tables[1]) hb (List.getElem_mem _) h.left hl
  case mpr =>
    intro h
    cases h
    case intro t hb ht hf hl =>
    refine ⟨hb, ?_⟩
    cases List.mem_pair.mp ht <;> subst t
    case inl =>
      have hc : 1 ≤ cmd ∧ cmd ≤ 0x201 := ⟨hf, BitVec.le_trans hl (by decide)⟩
      refine ⟨_, _, _, if_pos hc, ?_, rfl⟩
      bv_omega
    case inr =>
      have hc : ¬(1 ≤ cmd ∧ cmd ≤ 0x201) := fun h => absurd (BitVec.le_trans hf h.right) (by decide)
      have hc' : 0x202 ≤ cmd ∧ cmd ≤ 0x501 := ⟨hf, BitVec.le_trans hl (by decide)⟩
      refine ⟨_, _, _, (if_neg hc).trans (if_pos hc'), ?_, rfl⟩
      bv_omega

theorem thunk_iff {tb : List Byte} {rel : DWord} (h : tb.length = 12) :
    (tb[0]? = some 0x8D ∧ tb[1]? = some 0x42 ∧ tb[2]? = some 0x10) ∧ tb[7]? = some 0xE9 ∧
      ofLE 32 (tb.drop 8) = rel ↔
    ∃ bs, bs.length = 4 ∧ tb = [0x8D, 0x42, 0x10] ++ bs ++ [0xE9] ++ toLE 4 rel := by
  constructor
  case mp =>
    match tb, h with
    | [_, _, _, b₃, b₄, b₅, b₆, _, b₈, b₉, b₁₀, b₁₁], _ =>
      intro ⟨⟨h₀, h₁, h₂⟩, h₇, hr⟩
      cases h₀; cases h₁; cases h₂; cases h₇
      have hd := toLE_ofLE (w := 32) [b₈, b₉, b₁₀, b₁₁] (Nat.le_refl _)
      exact ⟨[b₃, b₄, b₅, b₆], rfl, hr ▸ hd.symm ▸ rfl⟩
  case mpr =>
    intro ⟨bs, hl, he⟩
    match bs, hl with
    | [_, _, _, _], _ =>
      subst he
      exact ⟨⟨rfl, rfl, rfl⟩, rfl, ofLE_toLE rel (Nat.le_refl _)⟩

theorem stub_iff {sb : List Byte} {disp : DWord} (h : sb.length = 11) :
    (sb[5]? = some 0x8B ∧ sb[6]? = some 0xB1) ∧ ofLE 32 (sb.drop 7) = disp ↔
    ∃ bs, bs.length = 5 ∧ sb = bs ++ [0x8B, 0xB1] ++ toLE 4 disp := by
  constructor
  case mp =>
    match sb, h with
    | [b₀, b₁, b₂, b₃, b₄, _, _, b₇, b₈, b₉, b₁₀], _ =>
      intro ⟨⟨h₅, h₆⟩, hd⟩
      cases h₅; cases h₆
      have hr := toLE_ofLE (w := 32) [b₇, b₈, b₉, b₁₀] (Nat.le_refl _)
      exact ⟨[b₀, b₁, b₂, b₃, b₄], rfl, hd ▸ hr.symm ▸ rfl⟩
  case mpr =>
    intro ⟨bs, hl, he⟩
    match bs, hl with
    | [_, _, _, _, _], _ =>
      subst he
      exact ⟨⟨rfl, rfl⟩, ofLE_toLE disp (Nat.le_refl _)⟩

theorem resolve_iff :
    resolve m crygameBase cmd = some (stub, disp) ↔ Resolves m crygameBase cmd stub disp := by
  simp only [resolve, Option.bind_eq_bind, Option.bind_eq_some_iff, Option.guard_eq_some',
    Prod.exists, exists_const, safeReadValue_iff, Option.pure_def, Option.some.injEq, Prod.mk.injEq]
  constructor
  case mp =>
    intro ⟨hb, cmdLo, selVa, jmpVa, selSize, ht, hi, sel, hs, thunk, hj, tb, htb, h₀, h₇, sb,
      hsb, h₅, hst, hd⟩
    have hsel := selectTable_iff.mp ⟨hb, _, _, _, ht, hi, rfl⟩
    have hthunk := IsThunk.intro (.intro hsel (toLE_one sel ▸ hs)) hj
    have ⟨bs, hl, he⟩ := thunk_iff (length_of_safeReadBytes htb) |>.mp ⟨h₀, h₇, rfl⟩
    have ⟨bs', hl', he'⟩ := stub_iff (length_of_safeReadBytes hsb) |>.mp ⟨h₅, hd⟩
    have hstub := IsStub.intro hthunk hl (htb.trans <| congrArg some he)
    exact hst ▸ .intro hstub hl' (hsb.trans <| congrArg some he')
  case mpr =>
    intro h
    cases h
    case intro bs hstub hl hsb =>
    cases hstub
    case intro thunk rel bs' hthunk hl' htb =>
    cases hthunk
    case intro a hjump hj =>
    cases hjump
    case intro sel a jmp hsel hs =>
    have ⟨hb, cmdLo, selVa, selSize, ht, hi, ha⟩ := selectTable_iff.mpr hsel
    have ⟨h₀, h₇, hr⟩ := thunk_iff (length_of_safeReadBytes htb) |>.mpr ⟨bs', hl', rfl⟩
    have ⟨h₅, hd⟩ := stub_iff (length_of_safeReadBytes hsb) |>.mpr ⟨bs, hl, rfl⟩
    have hst := congrArg (thunk + 12 + ·) hr
    exact ⟨hb, cmdLo, selVa, jmp, selSize, ht, hi, sel, ha ▸ toLE_one sel ▸ hs, thunk, hj, _, htb, h₀, h₇, _,
      (congrArg (m.safeReadBytes · 11) hst).trans hsb, h₅, hst, hd⟩

theorem IsSelector.unique {a a' jmp jmp' : DWord} (h : IsSelector crygameBase cmd a jmp)
    (h' : IsSelector crygameBase cmd a' jmp') : a = a' ∧ jmp = jmp' := by
  have ⟨_, _, _, _, ht, _, ha⟩ := selectTable_iff.mpr h
  have ⟨_, _, _, _, ht', _, ha'⟩ := selectTable_iff.mpr h'
  cases ht.symm.trans ht'
  exact ⟨ha.symm.trans ha', rfl⟩

theorem IsJump.unique {a a' : DWord} (h : IsJump m crygameBase cmd a)
    (h' : IsJump m crygameBase cmd a') : a = a' := by
  cases h with | intro hs hb =>
  cases h' with | intro hs' hb' =>
  have ⟨ha, hj⟩ := hs.unique hs'
  cases hb.symm.trans <| ha ▸ hb'
  rw [hj]

theorem IsThunk.unique {a a' : DWord} (h : IsThunk m crygameBase cmd a)
    (h' : IsThunk m crygameBase cmd a') : a = a' := by
  cases h with | intro hj hb =>
  cases h' with | intro hj' hb' =>
  have he := Option.some.inj <| hb.symm.trans <| hj.unique hj' ▸ hb'
  exact toLE_injective (Nat.le_refl _) he

theorem IsStub.unique {a a' : DWord} (h : IsStub m crygameBase cmd a)
    (h' : IsStub m crygameBase cmd a') : a = a' := by
  cases h with | intro ht hl hb =>
  cases h' with | intro ht' hl' hb' =>
  cases ht.unique ht'
  have he := Option.some.inj <| hb.symm.trans hb'
  have he := List.append_inj_right he (by simp [hl, hl'])
  rw [toLE_injective (Nat.le_refl _) he]

theorem path_eq {a jmp thunk : DWord} (hs : IsSelector crygameBase cmd a jmp) {j : DWord}
    (hj : IsJump m crygameBase cmd j) (ht : IsThunk m crygameBase cmd thunk) :
    path m crygameBase cmd = range a 1 ∪ (range j 4 ∪ range thunk 12) := by
  ext x
  rw [range_one]
  refine or_congr ⟨fun ⟨_, h⟩ => (h.unique hs).left, fun h => ⟨jmp, h ▸ hs⟩⟩ <|
    or_congr ⟨fun ⟨_, h, hx⟩ => ?_, fun h => ⟨j, hj, h⟩⟩
    ⟨fun ⟨_, h, hx⟩ => ?_, fun h => ⟨thunk, ht, h⟩⟩
  · exact h.unique hj ▸ hx
  · exact h.unique ht ▸ hx

theorem checked_eq (hs : IsStub m crygameBase cmd stub) : checked m crygameBase cmd = range (stub + 5) 6 := by
  ext x
  exact ⟨fun ⟨_, h, hx⟩ => h.unique hs ▸ hx, fun h => ⟨stub, hs, h⟩⟩

theorem pathBResolve_true (h : Resolves m crygameBase cmd stub disp) :
    pathBResolve m crygameBase cmd out =
      (true, ⟨out.stubVaOut.map fun _ => stub, out.listOffsetOut.map fun _ => disp⟩) := by
  rw [pathBResolve, resolve_iff.mpr h]

theorem pathBResolve_false (h : ∀ stub disp, ¬Resolves m crygameBase cmd stub disp) :
    pathBResolve m crygameBase cmd out = (false, out) := by
  have hn : resolve m crygameBase cmd = none :=
    Option.eq_none_iff_forall_ne_some.mpr fun (stub, disp) he => h stub disp <| resolve_iff.mp he
  rw [pathBResolve, hn]

end Resolve

section Patched

variable {readable : DWord → Prop} [DecidablePred readable] {crygameBase cmd : DWord}
    {m m' : Memory} {a b : DWord}

theorem safeReadBytes_congr {n : Nat} {bs : List Byte} (h : Set.EqOn m' m (range a n)) :
    (view readable m').safeReadBytes a n = some bs ↔ (view readable m).safeReadBytes a n = some bs := by
  rw [safeReadBytes_view, safeReadBytes_view, read_congr h]

theorem isJump_congr (h : Set.EqOn m' m (path (view readable m) crygameBase cmd)) :
    IsJump (view readable m') crygameBase cmd a ↔ IsJump (view readable m) crygameBase cmd a := by
  have hr {a jmp bs} (hs : IsSelector crygameBase cmd a jmp) :
      (view readable m').safeReadBytes a 1 = some bs ↔ (view readable m).safeReadBytes a 1 = some bs := by
    apply safeReadBytes_congr
    intro x hx
    have ⟨i, hi, he⟩ := exists_of_mem_range hx
    cases Nat.lt_one_iff.mp hi
    exact h <| .inl ⟨jmp, he ▸ (BitVec.add_zero a).symm ▸ hs⟩
  exact ⟨fun ⟨hs, hj⟩ => ⟨hs, (hr hs).mp hj⟩, fun ⟨hs, hj⟩ => ⟨hs, (hr hs).mpr hj⟩⟩

theorem isThunk_congr (h : Set.EqOn m' m (path (view readable m) crygameBase cmd)) :
    IsThunk (view readable m') crygameBase cmd a ↔ IsThunk (view readable m) crygameBase cmd a := by
  have hr {a bs} (hj : IsJump (view readable m) crygameBase cmd a) :
      (view readable m').safeReadBytes a 4 = some bs ↔ (view readable m).safeReadBytes a 4 = some bs :=
    safeReadBytes_congr fun _ hx => h <| .inr <| .inl ⟨a, hj, hx⟩
  constructor
  case mp  => exact fun ⟨hj, ht⟩ => ⟨(isJump_congr h).mp hj, (hr <| (isJump_congr h).mp hj).mp ht⟩
  case mpr => exact fun ⟨hj, ht⟩ => ⟨(isJump_congr h).mpr hj, (hr hj).mpr ht⟩

theorem isStub_congr (h : Set.EqOn m' m (path (view readable m) crygameBase cmd)) :
    IsStub (view readable m') crygameBase cmd a ↔ IsStub (view readable m) crygameBase cmd a := by
  have hr {a bs} (ht : IsThunk (view readable m) crygameBase cmd a) :
      (view readable m').safeReadBytes a 12 = some bs ↔ (view readable m).safeReadBytes a 12 = some bs :=
    safeReadBytes_congr fun _ hx => h <| .inr <| .inr ⟨a, ht, hx⟩
  constructor
  case mp  => exact fun ⟨ht, hl, hb⟩ => ⟨(isThunk_congr h).mp ht, hl, (hr <| (isThunk_congr h).mp ht).mp hb⟩
  case mpr => exact fun ⟨ht, hl, hb⟩ => ⟨(isThunk_congr h).mpr ht, hl, (hr ht).mpr hb⟩

theorem safeReadBytes_stub {bs : List Byte} :
    (∃ bs', bs'.length = 5 ∧ (view readable m).safeReadBytes a 11 = some (bs' ++ bs)) ↔
    Readable readable a 11 ∧ m.read (a + 5) 6 = bs := by
  have hr : m.read a 11 = m.read a 5 ++ m.read (a + 5) 6 := read_add (n := 5) (k := 6)
  simp only [safeReadBytes_view, hr]
  constructor
  case mp =>
    rintro ⟨bs', hl, h, he⟩
    exact ⟨h, List.append_inj_right he <| read_length.trans hl.symm⟩
  case mpr =>
    rintro ⟨h, he⟩
    exact ⟨m.read a 5, read_length, h, by rw [he]⟩

theorem resolves_view {stub disp : DWord} :
    Resolves (view readable m) crygameBase cmd stub disp ↔ IsStub (view readable m) crygameBase cmd stub ∧
      Readable readable stub 11 ∧ m.read (stub + 5) 6 = [0x8B, 0xB1] ++ toLE 4 disp := by
  rw [←safeReadBytes_stub]
  constructor
  case mp  => exact fun ⟨hs, hl, hr⟩ => ⟨hs, _, hl, List.append_assoc .. ▸ hr⟩
  case mpr => exact fun ⟨hs, _, hl, hr⟩ => ⟨hs, hl, (List.append_assoc ..).symm ▸ hr⟩

theorem pathBResolve_congr {out : Outputs} (hp : Set.EqOn m' m (path (view readable m) crygameBase cmd))
    (hc : Set.EqOn m' m (checked (view readable m) crygameBase cmd)) :
    pathBResolve (view readable m') crygameBase cmd out =
      pathBResolve (view readable m) crygameBase cmd out := by
  have h : resolve (view readable m') crygameBase cmd = resolve (view readable m) crygameBase cmd := by
    apply Option.ext
    intro (stub, disp)
    rw [resolve_iff, resolve_iff, resolves_view, resolves_view, isStub_congr hp]
    refine and_congr_right fun hs => and_congr_right fun _ => ?_
    rw [read_congr fun _ hx => hc ⟨stub, hs, hx⟩]
  rw [pathBResolve, pathBResolve, h]

-- The ranges that the installation of an entry writes to.
def writtenBy (base : DWord) : JmpHookEntry × Option DWord → List (Set DWord)
  | (e, code) =>
    range (base + e.offset) (max 5 e.stolenCount) :: code.toList.map fun code =>
      range code (21 + e.stolenCount)

theorem installJmpHooks_eqOn {base : DWord} {entries : List (JmpHookEntry × Option DWord)} {s : Set DWord}
    (h : ∀ p ∈ entries, ∀ r ∈ writtenBy base p, Disjoint s r) :
    Set.EqOn (installJmpHooks base entries m) m s := by
  rw [installJmpHooks_attempts]
  apply patch_eqOn
  intro p hp
  have ⟨(e, code), he, hp⟩ := List.mem_flatMap.mp hp
  have h := h _ he
  cases code
  case none =>
    cases List.mem_singleton.mp hp
    rw [JmpHookEntry.sitePatch_range]
    exact h _ <| List.mem_cons_self ..
  case some code =>
    cases List.mem_pair.mp hp <;> subst p
    case inl =>
      rw [Patch.range, trampoline_length]
      exact h _ <| List.mem_cons_of_mem _ <| List.mem_cons_self ..
    case inr =>
      have hr : (e.sitePatch base code).range = _ := JmpHookEntry.sitePatch_range
      exact (h _ <| List.mem_cons_self ..).mono_right hr.le

-- A jump of five bytes at the stub does not overwrite the bytes that are checked.
theorem checked_disjoint {p : ProcessMemory} (h : IsStub p crygameBase cmd a) :
    Disjoint (checked p crygameBase cmd) (range a 5) := by
  rw [Set.disjoint_left]
  intro x ⟨b, hb, hx⟩ hx'
  cases h.unique hb
  have hd : Disjoint (range (a + BitVec.ofNat 32 0) 5) (range (a + BitVec.ofNat 32 5) 6) :=
    range_add_disjoint (Nat.le_refl _) (by decide)
  exact Set.disjoint_left.mp hd ((BitVec.add_zero a).symm ▸ hx') hx

end Patched

-- The function succeeds exactly if the dispatch structure of the command is in memory, and otherwise leaves the
-- outputs as they are. Its results are not affected by hooks at the stub that replace its first five bytes, and
-- by hooks elsewhere that do not overwrite the dispatch structure.
theorem pathBResolve_correct (crygameBase cmd : DWord) (out : Outputs) :
    (∀ m,
      (∀ stub disp, Resolves m crygameBase cmd stub disp → pathBResolve m crygameBase cmd out =
        (true, ⟨out.stubVaOut.map fun _ => stub, out.listOffsetOut.map fun _ => disp⟩)) ∧
      ((∀ stub disp, ¬Resolves m crygameBase cmd stub disp) →
        pathBResolve m crygameBase cmd out = (false, out))) ∧
    ∀ (readable : DWord → Prop) [DecidablePred readable] (m : Memory) (base : DWord)
      (entries : List (JmpHookEntry × Option DWord)),
      let path := path (view readable m) crygameBase cmd
      let checked := checked (view readable m) crygameBase cmd
      (∀ stub, IsStub (view readable m) crygameBase cmd stub → Disjoint path (range stub 5)) →
      (∀ e code, (e, code) ∈ entries →
        IsStub (view readable m) crygameBase cmd (base + e.offset) ∧ e.stolenCount = 5 ∨
        Disjoint (path ∪ checked) (range (base + e.offset) (max 5 e.stolenCount))) →
      (∀ e code, (e, some code) ∈ entries → Disjoint (path ∪ checked) (range code (21 + e.stolenCount))) →
      pathBResolve (view readable (installJmpHooks base entries m)) crygameBase cmd out =
        pathBResolve (view readable m) crygameBase cmd out := by
  refine ⟨fun m => ⟨fun _ _ => pathBResolve_true, pathBResolve_false⟩, ?_⟩
  intro readable _ m base entries path checked hs he hc
  have h : Set.EqOn (installJmpHooks base entries m) m (path ∪ checked) := by
    apply installJmpHooks_eqOn
    intro (e, code) hp r hr
    cases List.mem_cons.mp hr
    case inr hr =>
      have ⟨c, hm, hr⟩ := List.mem_map.mp hr
      have hm := Option.mem_toList.mp hm
      exact hr ▸ hc e c (hm ▸ hp)
    case inl hr =>
      subst hr
      cases he e code hp
      case inr h => exact h
      case inl h =>
        rw [h.right, max_self]
        exact (hs _ h.left).union_left <| checked_disjoint h.left
  exact pathBResolve_congr (h.mono Set.subset_union_left) (h.mono Set.subset_union_right)


section Example

-- The dispatch structure of the command 641, in a module that is located at `0x400000`.
def exampleModule : Memory :=
  Memory.patch (fun _ => 0) [
    (0xA63AFC, toLE 4 (0x500000 : DWord)),
    (0x500000, [0x8D, 0x42, 0x10, 0x89, 0x45, 0x08, 0x5D, 0xE9, 0x34, 0x10, 0x52, 0x00]),
    (0xA21040, [0x55, 0x8B, 0xEC, 0x53, 0x56, 0x8B, 0xB1, 0x34, 0x12, 0x00, 0x00])
  ]

theorem exampleHook_stolenCount_lt : [0x55, 0x8B, 0xEC, 0x53, (0x56 : Byte)].length < 2 ^ 31 := by
  simp

def exampleHook : JmpHookEntry :=
  { offset := 0x621040, callback := 0x10001000, stolenBytes := [0x55, 0x8B, 0xEC, 0x53, 0x56],
    stolenCount_lt := exampleHook_stolenCount_lt }

theorem pathBResolve_correct_641 :
    pathBResolve (view (fun _ => True) <|
      installJmpHooks 0x400000 [(exampleHook, some 0x20000000)] exampleModule)
      0x400000 641 ⟨some 0, some 0⟩ = (true, ⟨some 0xA21040, some 0x1234⟩) := by
  let p := view (fun _ => True) exampleModule
  have hs := IsSelector.intro (t := tables[1]) (show (0x400000 : DWord) ≠ 0 by decide) (List.getElem_mem _)
    (show tables[1].first ≤ (641 : DWord) by decide) (by decide)
  have ha : (0x400000 : DWord) + tables[1].selector + ((641 : DWord) - tables[1].first) =
      0xA63EBB := by decide
  have hb : (0x400000 : DWord) + tables[1].jump = 0xA63AFC := by decide
  rw [ha, hb] at hs
  have hsel : p.safeReadBytes 0xA63EBB 1 = some [0] := by decide
  have hj : IsJump p 0x400000 641 0xA63AFC := .intro hs hsel
  have hjmp : p.safeReadBytes 0xA63AFC 4 = some (toLE 4 (0x500000 : DWord)) := by decide
  have ht : IsThunk p 0x400000 641 0x500000 := .intro hj hjmp
  have htb : p.safeReadBytes 0x500000 12 = some
      ([0x8D, 0x42, 0x10] ++ [0x89, 0x45, 0x08, 0x5D] ++ [0xE9] ++ toLE 4 (0x521034 : DWord)) := by decide
  have hst : IsStub p 0x400000 641 0xA21040 := .intro ht rfl htb
  have hsb : p.safeReadBytes 0xA21040 11 = some
      ([0x55, 0x8B, 0xEC, 0x53, 0x56] ++ [0x8B, 0xB1] ++ toLE 4 (0x1234 : DWord)) := by decide
  have hr : Resolves p 0x400000 641 0xA21040 0x1234 := .intro hst rfl hsb
  have ⟨h, hi⟩ := pathBResolve_correct 0x400000 641 ⟨some 0, some 0⟩
  refine hi (fun _ => True) exampleModule 0x400000 [(exampleHook, some 0x20000000)] ?_ ?_ ?_
    |>.trans <| (h p).left _ _ hr
  all_goals
    rw [path_eq hs hj ht]
  case refine_1 =>
    intro stub h
    rw [h.unique hst]
    apply Set.disjoint_union_left.mpr
    refine ⟨(range_disjoint (by decide) (by decide)).symm, Set.disjoint_union_left.mpr ⟨?_, ?_⟩⟩
    · exact (range_disjoint (by decide) (by decide)).symm
    · exact range_disjoint (by decide) (by decide)
  case refine_2 =>
    intro e code he
    cases List.mem_singleton.mp he
    exact .inl ⟨hst, rfl⟩
  case refine_3 =>
    intro e code he
    cases List.mem_singleton.mp he
    rw [checked_eq hst]
    simp only [Set.disjoint_union_left]
    refine ⟨⟨?_, ?_, ?_⟩, ?_⟩ <;> exact range_disjoint (by decide) (by decide)

end Example

end CryGame.PathB
