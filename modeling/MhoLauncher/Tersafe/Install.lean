import MhoLauncher.Tersafe.Slots

open Bytes HookTable Memory X86

namespace Tersafe

-- What TerSafe and the system answer while the tables are patched. `CreateObj` may not be exported.
structure System where
  createObj      : Option DWord
  lpBaseOfDll    : DWord
  sizeOfImage    : DWord
  isBadReadPtr   : DWord → Nat → Bool
  virtualProtect : DWord → Bool
  virtualAlloc   : Slot → Option DWord

def subOffs : List DWord :=
  [0x0C, 0x10]

-- The address of an entry of a table.
def entry (table : DWord) (slot : Nat) : DWord :=
  table + BitVec.ofNat 32 (4 * slot)

namespace System

variable (sys : System)

def tsLo : DWord :=
  sys.lpBaseOfDll

def tsHi : DWord :=
  sys.tsLo + sys.sizeOfImage

end System

section Model

variable (g : Globals) (sys : System)

def saveReal (vtable : DWord) (m : Memory) (slot : Fin NUM_SLOTS) : Memory :=
  m.writeDWords (g.realVtAt slot) [m.dword (entry vtable slot)]

-- Puts a trampoline into a table, if there is memory for it.
def hookEntry (tramp : Option DWord) (e : Emitter Unit) (addr : DWord) (m : Memory) : Memory :=
  match tramp with
  | none       => m
  | some tramp => (writeTrampoline tramp e m).writeDWords addr [tramp]

def hookSlot (vtable : DWord) (m : Memory) (slot : Fin NUM_SLOTS) : Memory :=
  hookEntry (sys.virtualAlloc <| .vt slot) (emitVtTrampoline g slot) (entry vtable slot) m

-- The loop stops at the first entry that does not point into the image.
def hookSubSlots (sub : Fin NUM_SUBS) (subVt : DWord) : List (Fin SUB_SLOTS) → Memory → Memory
  | [],            m => m
  | slot :: slots, m =>
    let cur := m.dword (entry subVt slot)
    if cur < sys.tsLo ∨ cur ≥ sys.tsHi then
      m
    else
      let m := m.writeDWords (g.realSubAt sub slot) [cur]
      hookSubSlots sub subVt slots <|
        hookEntry (sys.virtualAlloc <| .sub sub slot) (emitSubTrampoline g sub slot) (entry subVt slot) m

def hookSub (obj : DWord) (m : Memory) (sub : Fin NUM_SUBS) : Memory :=
  let subObj := m.dword (obj + subOffs[sub])
  if subObj = 0 ∨ sys.isBadReadPtr subObj 4 then
    m
  else
    let subVt := m.dword subObj
    if subVt = 0 ∨ sys.isBadReadPtr subVt 4 then
      m
    else if sys.virtualProtect subVt then
      hookSubSlots g sys sub subVt (List.finRange SUB_SLOTS) m
    else
      m

-- The function that is passed to `call_once`.
def patchTables (m : Memory) : Memory :=
  match sys.createObj with
  | none     => m
  | some obj =>
    if obj = 0 then
      m
    else
      let vtable := m.dword obj
      let m := (List.finRange NUM_SLOTS).foldl (saveReal g vtable) m
      if sys.virtualProtect vtable then
        let m := (List.finRange NUM_SLOTS).foldl (hookSlot g sys vtable) m
        (List.finRange NUM_SUBS).foldl (hookSub g sys obj) m
      else
        m

-- The flag tells whether the tables were patched by an earlier call.
def installTersafeVtablePatches (hts : DWord) : Bool × Memory → Bool × Memory
  | (patchesInstalled, m) =>
    if hts = 0 ∨ patchesInstalled then (patchesInstalled, m) else (true, patchTables g sys m)

end Model

section Separate

variable (g : Globals) (sys : System) (obj : DWord) (m : Memory)

def System.tramp (i : Slot) : DWord :=
  (sys.virtualAlloc i).getD 0

def System.pages : Set DWord :=
  { x | ∃ i tramp, sys.virtualAlloc i = some tramp ∧ x ∈ range tramp 0x1000 }

-- The sub object, and its table.
def subObj (b : Fin NUM_SUBS) : DWord :=
  m.dword (obj + subOffs[b])

def subVt (b : Fin NUM_SUBS) : DWord :=
  m.dword (subObj obj m b)

def slotEntry : Slot → DWord
  | .vt slot    => entry (m.dword obj) slot
  | .sub b slot => entry (subVt obj m b) slot

-- A pointer that is followed.
def System.Follows (p : DWord) : Prop :=
  ¬(p = 0 ∨ sys.isBadReadPtr p 4)

-- The table of the slot is visited.
def Reached : Slot → Prop
  | .vt _    => True
  | .sub b _ => sys.Follows (subObj obj m b) ∧ sys.Follows (subVt obj m b) ∧ sys.virtualProtect (subVt obj m b)

def tables : Set DWord :=
  { x | ∃ i, Reached sys obj m i ∧ x ∈ range (slotEntry obj m i) 4 }

-- The pointers that lead from the object to the tables.
def objects : Set DWord :=
  { x | ∃ b : Fin NUM_SUBS, x ∈ range (obj + subOffs[b]) 4 ∨
    sys.Follows (subObj obj m b) ∧ x ∈ range (subObj obj m b) 4 }

-- The tables may overlap by whole entries. New memory does not lie in the image of the library.
structure Separate : Prop where
  entries      : ∀ i j, Reached sys obj m i → Reached sys obj m j → slotEntry obj m i = slotEntry obj m j ∨
    Disjoint (range (slotEntry obj m i) 4) (range (slotEntry obj m j) 4)
  pages        : ∀ i j tramp tramp', sys.virtualAlloc i = some tramp → sys.virtualAlloc j = some tramp' →
    i ≠ j → Disjoint (range tramp 0x1000) (range tramp' 0x1000)
  image        : ∀ i tramp, sys.virtualAlloc i = some tramp → tramp < sys.tsLo ∨ tramp ≥ sys.tsHi
  reals        : Disjoint (range g.realVt <| 4 * NUM_SLOTS) (range g.realSub <| 4 * (SUB_SLOTS * NUM_SUBS))
  realsPages   : Disjoint g.reals sys.pages
  tablesPages  : Disjoint (tables sys obj m) sys.pages
  tablesReals  : Disjoint (tables sys obj m) g.reals
  objects      : Disjoint (objects sys obj m) (tables sys obj m ∪ g.reals ∪ sys.pages)

end Separate

section Hook

variable {g : Globals} {t : Slot → DWord} {i j : Slot} {m : Memory} {addr : DWord}

def emitSlot (g : Globals) : Slot → Emitter Unit
  | .vt slot      => emitVtTrampoline g slot
  | .sub sub slot => emitSubTrampoline g sub slot

theorem hooks_tramp : (hooks g t i).tramp = t i := by
  cases i <;> rfl

theorem hooks_code_length : (hooks g t i).code.length ≤ 0x1000 := by
  have := (hooks g t i).length
  have := (hooks g t i).code_length
  omega

theorem writeTrampoline_slot : writeTrampoline (t i) (emitSlot g i) m =
    (m.write (t i) <| List.replicate 0x1000 0xCC).write (t i) (hooks g t i).code := by
  have he : Emits 0 (t i) (emitSlot g i) (hooks g t i).code := by
    cases i
    case vt k    =>
      exact Trampoline.emitTrampoline_emits (t := vtTrampoline g _ k) <| .of_eq (.cons .emit <| by simp) rfl
    case sub b k =>
      exact Trampoline.emitTrampoline_emits (t := subTrampoline g _ b k) <| .of_eq (.cons .emit <| by simp) rfl
  have := he <| m.write (t i) <| List.replicate 0x1000 0xCC
  rw [zero_add] at this
  rw [writeTrampoline, StateT.run, this]

theorem writeTrampoline_slot_loaded :
    (writeTrampoline (t i) (emitSlot g i) m).Loaded (t i) (hooks g t i).code := by
  have := hooks_code_length (g := g) (t := t) (i := i)
  exact writeTrampoline_slot ▸ loaded_write (by omega)

theorem writeTrampoline_slot_eqOn :
    Set.EqOn (writeTrampoline (t i) (emitSlot g i) m) m (range (t i) 0x1000)ᶜ := by
  rw [writeTrampoline_slot]
  refine (write_eqOn <| disjoint_compl_left.mono_right <| range_subset hooks_code_length).trans <|
    write_eqOn <| disjoint_compl_left.mono_right <| range_subset ?_
  rw [List.length_replicate]

end Hook

theorem tramp_eq {sys : System} {tramp : DWord} {i : Slot} (h : sys.virtualAlloc i = some tramp) :
    sys.tramp i = tramp := by
  rw [System.tramp, h, Option.getD_some]

-- The entry at an address was made to lead to a trampoline.
structure Hooks (g : Globals) (sys : System) (i : Slot) (tramp addr : DWord) (m m' : Memory) : Prop where
  value  : m'.dword addr = tramp
  loaded : m'.Loaded tramp (hooks g sys.tramp i).code
  eqOn   : ∀ {p : Set DWord}, Disjoint p (range tramp 0x1000) → Disjoint p (range addr 4) → Set.EqOn m' m p

theorem hookEntry_hooks {g : Globals} {sys : System} {i : Slot} {tramp addr : DWord} {m : Memory}
    (ha : sys.virtualAlloc i = some tramp) (hp : Disjoint (range addr 4) (range tramp 0x1000)) :
    Hooks g sys i tramp addr m (hookEntry (some tramp) (emitSlot g i) addr m) := by
  have hl := writeTrampoline_slot_loaded (g := g) (t := sys.tramp) (i := i) (m := m)
  have hw := writeTrampoline_slot_eqOn (g := g) (t := sys.tramp) (i := i) (m := m)
  rw [tramp_eq ha] at hl hw
  have he : Set.EqOn (hookEntry (some tramp) (emitSlot g i) addr m) (writeTrampoline tramp (emitSlot g i) m)
      (range addr 4)ᶜ := writeDWords_eqOn disjoint_compl_left
  constructor
  case value  => exact dword_writeDWords_head (by simp)
  case loaded =>
    refine hl.congr <| he.mono <| Set.subset_compl_iff_disjoint_right.mpr ?_
    exact hp.symm.mono_left <| range_subset hooks_code_length
  case eqOn   =>
    intro p h₁ h₂
    exact (he.mono <| Set.subset_compl_iff_disjoint_right.mpr h₂).trans <|
      hw.mono <| Set.subset_compl_iff_disjoint_right.mpr h₁

-- The entry at an address leads to the trampoline of one of the given slots, which calls what the entry pointed
-- to in memory `m`.
def Redirected (g : Globals) (sys : System) (obj : DWord) (m : Memory) (used : Set Slot) (m' : Memory)
    (addr : DWord) : Prop :=
  ∃ i ∈ used, slotEntry obj m i = addr ∧ sys.virtualAlloc i = some (m'.dword addr) ∧
    m'.Loaded (m'.dword addr) (hooks g sys.tramp i).code ∧
    m'.dword (hooks g sys.tramp i).real = m.dword addr

-- Memory `m'` differs from memory `m` by the hooks of the given slots.
structure TablesPatched (g : Globals) (sys : System) (obj : DWord) (m : Memory) (used : Set Slot)
    (m' : Memory) : Prop where
  entries : ∀ i, Reached sys obj m i → m'.dword (slotEntry obj m i) = m.dword (slotEntry obj m i) ∨
    Redirected g sys obj m used m' (slotEntry obj m i)
  rest    : Set.EqOn m' m (tables sys obj m ∪ g.reals ∪ sys.pages)ᶜ

namespace TablesPatched

variable {g : Globals} {sys : System} {obj : DWord} {m m' m'' : Memory} {used used' : Set Slot} {i j : Slot}
variable {tramp : DWord}

theorem entry_subset (hi : Reached sys obj m i) : range (slotEntry obj m i) 4 ⊆ tables sys obj m :=
  fun _ hx => ⟨i, hi, hx⟩

theorem page_subset (h : sys.virtualAlloc i = some tramp) : range tramp 0x1000 ⊆ sys.pages :=
  fun _ hx => ⟨i, tramp, h, hx⟩

theorem real_subset (g : Globals) (sys : System) (i : Slot) : range (hooks g sys.tramp i).real 4 ⊆ g.reals :=
  hooks_real_subset i

theorem refl : TablesPatched g sys obj m used m :=
  ⟨fun _ _ => .inl rfl, fun _ _ => rfl⟩

theorem mono (h : TablesPatched g sys obj m used m') (hu : used ⊆ used') :
    TablesPatched g sys obj m used' m' where
  rest         := h.rest
  entries i hi := (h.entries i hi).imp id fun ⟨j, hj, hr⟩ => ⟨j, hu hj, hr⟩

variable (hs : Separate g sys obj m)

include hs

theorem real_disjoint (hn : i ≠ j) :
    Disjoint (range (hooks g sys.tramp i).real 4) (range (hooks g sys.tramp j).real 4) := by
  have hd {a : DWord} {k l : Nat} (hk : k < 32) (hl : l < 32) (hn : k ≠ l) :
      Disjoint (range (a + BitVec.ofNat 32 (4 * k)) 4) (range (a + BitVec.ofNat 32 (4 * l)) 4) := by
    cases Nat.lt_or_gt_of_ne hn
    case inl hn => exact range_add_disjoint (by omega) (by omega)
    case inr hn => exact (range_add_disjoint (by omega) (by omega)).symm
  have hv (k : Fin NUM_SLOTS) : range (g.realVtAt k) 4 ⊆ range g.realVt (4 * NUM_SLOTS) :=
    range_add_subset <| by omega
  have hb (b : Fin NUM_SUBS) (k : Fin SUB_SLOTS) :
      range (g.realSubAt b k) 4 ⊆ range g.realSub (4 * (SUB_SLOTS * NUM_SUBS)) :=
    have hb : b.val < 2 := b.isLt
    have hk : k.val < 16 := k.isLt
    range_add_subset <| show 4 * (16 * b.val + k.val) + 4 ≤ 128 by omega
  cases i <;> cases j
  case vt.vt i j       =>
    have hi : i.val < 6 := i.isLt
    have hj : j.val < 6 := j.isLt
    exact hd (by omega) (by omega) fun he => hn <| congrArg _ <| Fin.ext he
  case vt.sub i b j    => exact hs.reals.mono (hv i) (hb b j)
  case sub.vt b i j    => exact (hs.reals.mono (hv j) (hb b i)).symm
  case sub.sub b i c j =>
    have hb : b.val < 2 := b.isLt
    have hi : i.val < 16 := i.isLt
    have hc : c.val < 2 := c.isLt
    have hj : j.val < 16 := j.isLt
    refine hd (k := 16 * b + i) (l := 16 * c + j) (by omega) (by omega) fun he => hn ?_
    rw [Fin.ext (show b.val = c.val by omega), Fin.ext (show i.val = j.val by omega)]

-- The pointer to the real method of a slot is written before its trampoline.
theorem save {v : DWord} (h : TablesPatched g sys obj m used m') (hi : i ∉ used) :
    TablesPatched g sys obj m used (m'.writeDWords (hooks g sys.tramp i).real [v]) := by
  have hw : Set.EqOn (m'.writeDWords (hooks g sys.tramp i).real [v]) m' (range (hooks g sys.tramp i).real 4)ᶜ :=
    writeDWords_eqOn disjoint_compl_left
  have hr : range (hooks g sys.tramp i).real 4 ⊆ g.reals := hooks_real_subset i
  have he {j : Slot} (hj : Reached sys obj m j) :
      (m'.writeDWords (hooks g sys.tramp i).real [v]).dword (slotEntry obj m j) =
        m'.dword (slotEntry obj m j) :=
    dword_congr <| hw.mono <| Set.subset_compl_iff_disjoint_right.mpr <|
      hs.tablesReals.mono (entry_subset hj) hr
  constructor
  case entries =>
    intro j hj
    rw [Redirected, he hj]
    refine (h.entries j hj).imp id fun ⟨k, hk, hkj, ha, hl, hv⟩ => ⟨k, hk, hkj, ha, ?_, ?_⟩
    · refine hl.congr <| hw.mono <| Set.subset_compl_iff_disjoint_right.mpr ?_
      exact (hs.realsPages.mono hr <| (range_subset hooks_code_length).trans <| page_subset ha).symm
    · refine (dword_congr <| hw.mono <| Set.subset_compl_iff_disjoint_right.mpr ?_).trans hv
      exact real_disjoint hs fun he => hi <| he ▸ hk
  case rest =>
    refine (hw.mono <| Set.compl_subset_compl.mpr ?_).trans h.rest
    exact hr.trans <| Set.subset_union_right.trans Set.subset_union_left

-- The trampoline of a slot is put into the table.
theorem hook (h : TablesPatched g sys obj m used m') (hi : Reached sys obj m i)
    (hr : m'.dword (hooks g sys.tramp i).real = m.dword (slotEntry obj m i)) :
    TablesPatched g sys obj m (insert i used)
      (hookEntry (sys.virtualAlloc i) (emitSlot g i) (slotEntry obj m i) m') := by
  cases ha : sys.virtualAlloc i
  case none => exact h.mono <| Set.subset_insert ..
  case some tramp =>
    have hp {j : Slot} (hj : Reached sys obj m j) :
        Disjoint (range (slotEntry obj m j) 4) (range tramp 0x1000) :=
      hs.tablesPages.mono (entry_subset hj) <| page_subset ha
    have hh := hookEntry_hooks (g := g) (m := m') ha (hp hi)
    set m₁ := hookEntry (some tramp) (emitSlot g i) (slotEntry obj m i) m'
    have hd (j : Slot) : m₁.dword (hooks g sys.tramp j).real = m'.dword (hooks g sys.tramp j).real :=
      dword_congr <| hh.eqOn (hs.realsPages.mono (hooks_real_subset j) <| page_subset ha)
        (hs.tablesReals.mono (entry_subset hi) <| hooks_real_subset j).symm
    constructor
    case entries =>
      intro j hr'
      by_cases hj : slotEntry obj m j = slotEntry obj m i
      case pos =>
        rw [hj]
        refine .inr ⟨i, Set.mem_insert .., rfl, ?_, ?_, (hd i).trans hr⟩ <;> rw [hh.value]
        case refine_1 => exact ha
        case refine_2 => exact hh.loaded
      case neg =>
        have hn := (hs.entries j i hr' hi).resolve_left hj
        rw [Redirected, dword_congr <| hh.eqOn (hp hr') hn]
        refine (h.entries j hr').imp id fun ⟨k, hk, hkj, hak, hlk, hvk⟩ => ?_
        refine ⟨k, Set.mem_insert_of_mem _ hk, hkj, hak, hlk.congr ?_, (hd k).trans hvk⟩
        have hki : k ≠ i := fun hki => hj <| hkj ▸ hki ▸ rfl
        refine (hh.eqOn (hs.pages k i _ _ hak ha hki) ?_).mono <| range_subset hooks_code_length
        exact (hs.tablesPages.mono (entry_subset hi) <| page_subset hak).symm
    case rest =>
      refine (hh.eqOn ?_ ?_).trans h.rest
      · exact disjoint_compl_left.mono_right <| (page_subset ha).trans Set.subset_union_right
      · exact disjoint_compl_left.mono_right <| (entry_subset hi).trans <|
          Set.subset_union_left.trans Set.subset_union_left

omit hs in
-- No entry changes before the first hook.
theorem entry_eq (h : TablesPatched g sys obj m ∅ m') (hi : Reached sys obj m i) :
    m'.dword (slotEntry obj m i) = m.dword (slotEntry obj m i) :=
  (h.entries i hi).resolve_right fun ⟨_, hi, _⟩ => hi

theorem saveReals {l : List (Fin NUM_SLOTS)} (h : TablesPatched g sys obj m ∅ m') (done : Set (Fin NUM_SLOTS))
    (hd : ∀ k ∈ done, m'.dword (g.realVtAt k) = m.dword (entry (m.dword obj) k)) :
    TablesPatched g sys obj m ∅ (l.foldl (saveReal g <| m.dword obj) m') ∧
      ∀ k, k ∈ done ∨ k ∈ l → (l.foldl (saveReal g <| m.dword obj) m').dword (g.realVtAt k) =
        m.dword (entry (m.dword obj) k) := by
  induction l generalizing m' done
  case nil => exact ⟨h, fun k hk => hd k <| hk.resolve_right List.not_mem_nil⟩
  case cons k l hi =>
    have hk : TablesPatched g sys obj m ∅ (saveReal g (m.dword obj) m' k) := save hs (i := .vt k) h id
    have hv : m'.dword (entry (m.dword obj) k) = m.dword (entry (m.dword obj) k) :=
      entry_eq (i := .vt k) h trivial
    have hd' : ∀ j ∈ insert k done, (saveReal g (m.dword obj) m' k).dword (g.realVtAt j) =
        m.dword (entry (m.dword obj) j) := by
      intro j hj
      by_cases he : j = k
      case pos =>
        rw [he, ←hv]
        exact dword_writeDWords_head (by simp)
      case neg =>
        refine Eq.trans (dword_congr <| writeDWords_eqOn ?_) <| hd j <| hj.resolve_left he
        exact real_disjoint hs (i := .vt j) (j := .vt k) fun hn => he <| by cases hn; rfl
    refine (hi hk _ hd').imp id fun h j hj => h j ?_
    rw [List.mem_cons, ←or_assoc, or_comm (a := j ∈ done)] at hj
    exact hj

-- What a hook changes besides its own entry.
theorem hook_dword {addr : DWord} (hi : Reached sys obj m i) (hp : Disjoint (range addr 4) sys.pages)
    (hd : Disjoint (range addr 4) (range (slotEntry obj m i) 4)) :
    (hookEntry (sys.virtualAlloc i) (emitSlot g i) (slotEntry obj m i) m').dword addr = m'.dword addr := by
  cases ha : sys.virtualAlloc i
  case none => rfl
  case some tramp =>
    have he := hs.tablesPages.mono (entry_subset hi) (page_subset ha)
    exact dword_congr <| (hookEntry_hooks ha he).eqOn (hp.mono_right <| page_subset ha) hd

theorem hook_value (hi : Reached sys obj m i) (ha : sys.virtualAlloc i = some tramp) :
    (hookEntry (sys.virtualAlloc i) (emitSlot g i) (slotEntry obj m i) m').dword (slotEntry obj m i) =
      tramp := by
  have he := hs.tablesPages.mono (entry_subset hi) (page_subset ha)
  exact ha ▸ (hookEntry_hooks ha he).value

-- The state of the second loop.
structure VtHooked (g : Globals) (sys : System) (obj : DWord) (m : Memory) (done : Set (Fin NUM_SLOTS))
    (m' : Memory) : Prop where
  patched : TablesPatched g sys obj m (Slot.vt '' done) m'
  saved   : ∀ k : Fin NUM_SLOTS, m'.dword (g.realVtAt k) = m.dword (entry (m.dword obj) k)
  hooked  : ∀ k ∈ done, ∀ tramp, sys.virtualAlloc (.vt k) = some tramp →
    m'.dword (entry (m.dword obj) k) = tramp

omit hs in
theorem entry_disjoint {table : DWord} {k l : Nat} (hk : k < 48) (hl : l < 48) (hn : k ≠ l) :
    Disjoint (range (entry table k) 4) (range (entry table l) 4) := by
  cases Nat.lt_or_gt_of_ne hn
  case inl hn => exact range_add_disjoint (by omega) (by omega)
  case inr hn => exact (range_add_disjoint (by omega) (by omega)).symm

theorem VtHooked.step {done : Set (Fin NUM_SLOTS)} (h : VtHooked g sys obj m done m') (k : Fin NUM_SLOTS) :
    VtHooked g sys obj m (insert k done) (hookSlot g sys (m.dword obj) m' k) where
  patched  := by
    rw [Set.image_insert_eq]
    exact hook hs (i := .vt k) h.patched trivial <| h.saved k
  saved j  := by
    refine Eq.trans (hook_dword hs (i := .vt k) trivial ?_ ?_) <| h.saved j
    · exact hs.realsPages.mono_left <| real_subset g sys (.vt j)
    · exact (hs.tablesReals.mono (entry_subset (i := .vt k) trivial) <| real_subset g sys (.vt j)).symm
  hooked   := by
    intro j hj tramp ha
    by_cases he : j = k
    case pos =>
      rw [he] at ha ⊢
      exact hook_value hs (i := .vt k) trivial ha
    case neg =>
      have hk : k.val < 6 := k.isLt
      have hl : j.val < 6 := j.isLt
      refine Eq.trans (hook_dword hs (i := .vt k) trivial ?_ ?_) <| h.hooked j (hj.resolve_left he) tramp ha
      · exact hs.tablesPages.mono_left <| entry_subset (i := .vt j) trivial
      · exact entry_disjoint (by omega) (by omega) fun hn => he <| Fin.ext hn

theorem VtHooked.loop {done : Set (Fin NUM_SLOTS)} {l : List (Fin NUM_SLOTS)}
    (h : VtHooked g sys obj m done m') :
    VtHooked g sys obj m (done ∪ { k | k ∈ l }) (l.foldl (hookSlot g sys <| m.dword obj) m') := by
  induction l generalizing m' done
  case nil =>
    rwa [show { k | k ∈ ([] : List (Fin NUM_SLOTS)) } = ∅ by ext; simp, Set.union_empty]
  case cons k l hi =>
    have := hi <| h.step hs k
    rwa [show insert k done ∪ { j | j ∈ l } = done ∪ { j | j ∈ k :: l } by ext; simp; tauto] at this

-- The state of the last loop. An entry of the first table that leads to a trampoline does not point into the
-- image.
structure SubHooked (g : Globals) (sys : System) (obj : DWord) (m : Memory) (used : Set Slot) (m' : Memory) :
    Prop where
  patched : TablesPatched g sys obj m used m'
  hooked  : ∀ (k : Fin NUM_SLOTS) (tramp : DWord), sys.virtualAlloc (.vt k) = some tramp →
    m'.dword (entry (m.dword obj) k) = tramp

theorem SubHooked.step {sub : Fin NUM_SUBS} {slot : Fin SUB_SLOTS} (h : SubHooked g sys obj m used m')
    (hu : .sub sub slot ∉ used) (hi : Reached sys obj m <| .sub sub slot)
    (hc : let cur := m'.dword (slotEntry obj m <| .sub sub slot); ¬(cur < sys.tsLo ∨ cur ≥ sys.tsHi)) :
    let addr := slotEntry obj m <| .sub sub slot
    SubHooked g sys obj m (insert (.sub sub slot) used) <|
      hookEntry (sys.virtualAlloc <| .sub sub slot) (emitSubTrampoline g sub slot) addr <|
        m'.writeDWords (g.realSubAt sub slot) [m'.dword addr] := by
  intro addr
  set i : Slot := .sub sub slot
  have hv : m'.dword addr = m.dword addr := by
    refine (h.patched.entries i hi).resolve_right fun ⟨j, _, _, ha, _⟩ => hc <| hs.image j _ ha
  have hw {j : Slot} (hj : Reached sys obj m j) :
      (m'.writeDWords (g.realSubAt sub slot) [m'.dword addr]).dword (slotEntry obj m j) =
        m'.dword (slotEntry obj m j) :=
    dword_congr <| writeDWords_eqOn <| hs.tablesReals.mono (entry_subset hj) <| real_subset g sys i
  constructor
  case patched =>
    refine hook hs (i := i) (save hs (i := i) h.patched hu) hi ?_
    exact hv ▸ dword_writeDWords_head (by simp)
  case hooked =>
    intro k tramp ha
    have hk := h.hooked k tramp ha
    have hn : slotEntry obj m (.vt k) ≠ addr := by
      refine fun hn => hc ?_
      have : m'.dword addr = tramp := hn ▸ hk
      exact this ▸ hs.image _ tramp ha
    have hd := (hs.entries (.vt k) i trivial hi).resolve_left hn
    refine (hook_dword hs hi (hs.tablesPages.mono_left <| entry_subset (i := .vt k) trivial) hd).trans ?_
    exact (hw (j := .vt k) trivial).trans hk

theorem SubHooked.slots {sub : Fin NUM_SUBS} {l : List (Fin SUB_SLOTS)} (h : SubHooked g sys obj m used m')
    (hu : ∀ slot ∈ l, .sub sub slot ∉ used) (hr : ∀ slot, Reached sys obj m (.sub sub slot)) (hl : l.Nodup) :
    SubHooked g sys obj m (used ∪ { i | ∃ slot, i = .sub sub slot })
      (hookSubSlots g sys sub (subVt obj m sub) l m') := by
  induction l generalizing m' used
  case nil => exact ⟨h.patched.mono Set.subset_union_left, h.hooked⟩
  case cons slot l hi =>
    have ⟨hn, hl⟩ := List.nodup_cons.mp hl
    rw [hookSubSlots]
    split
    case isTrue  => exact ⟨h.patched.mono Set.subset_union_left, h.hooked⟩
    case isFalse hc =>
      have hu' : ∀ k ∈ l, .sub sub k ∉ insert (.sub sub slot) used := by
        intro k hk hm
        cases hm
        case inl he => cases he; exact hn hk
        case inr hm => exact hu k (List.mem_cons_of_mem _ hk) hm
      have := hi (h.step hs (hu slot <| List.mem_cons_self ..) (hr slot) hc) hu' hl
      have hm : Slot.sub sub slot ∈ { i | ∃ slot, i = Slot.sub sub slot } := ⟨slot, rfl⟩
      rwa [Set.insert_union, Set.insert_eq_of_mem <| Set.mem_union_right _ hm] at this

-- The pointers that lead to a table are not changed by the hooks.
theorem object_dword (h : TablesPatched g sys obj m used m') (b : Fin NUM_SUBS) :
    m'.dword (obj + subOffs[b]) = subObj obj m b ∧
    (sys.Follows (subObj obj m b) → m'.dword (subObj obj m b) = subVt obj m b) := by
  have he : Set.EqOn m' m (objects sys obj m) :=
    h.rest.mono <| Set.subset_compl_iff_disjoint_right.mpr hs.objects
  constructor
  case left =>
    have hx : range (obj + subOffs[b]) 4 ⊆ objects sys obj m := fun _ hx => ⟨b, .inl hx⟩
    exact dword_congr <| he.mono hx
  case right =>
    intro hf
    have hx : range (subObj obj m b) 4 ⊆ objects sys obj m := fun _ hx => ⟨b, .inr ⟨hf, hx⟩⟩
    exact dword_congr <| he.mono hx

theorem SubHooked.sub {b : Fin NUM_SUBS} (h : SubHooked g sys obj m used m') (hu : ∀ slot, .sub b slot ∉ used) :
    SubHooked g sys obj m (used ∪ { i | ∃ slot, i = .sub b slot }) (hookSub g sys obj m' b) := by
  have ⟨ho, hv⟩ := object_dword hs h.patched b
  have hn : SubHooked g sys obj m (used ∪ { i | ∃ slot, i = .sub b slot }) m' :=
    ⟨h.patched.mono Set.subset_union_left, h.hooked⟩
  rw [hookSub, ho]
  split
  case isTrue     => exact hn
  case isFalse hf =>
    dsimp only
    rw [hv hf]
    split
    case isTrue      => exact hn
    case isFalse hf' =>
      split
      case isFalse   => exact hn
      case isTrue hp =>
        exact h.slots hs (fun slot _ => hu slot) (fun _ => ⟨hf, hf', hp⟩) <| List.nodup_finRange _

theorem SubHooked.loop {l : List (Fin NUM_SUBS)} (h : SubHooked g sys obj m used m')
    (hu : ∀ sub ∈ l, ∀ slot, .sub sub slot ∉ used) (hl : l.Nodup) :
    SubHooked g sys obj m Set.univ (l.foldl (hookSub g sys obj) m') := by
  induction l generalizing m' used
  case nil => exact ⟨h.patched.mono <| Set.subset_univ _, h.hooked⟩
  case cons sub l hi =>
    have ⟨hn, hl⟩ := List.nodup_cons.mp hl
    refine hi (h.sub hs <| hu sub <| List.mem_cons_self ..) (fun b hb slot hm => ?_) hl
    cases hm
    case inl hm => exact hu b (List.mem_cons_of_mem _ hb) slot hm
    case inr he =>
      obtain ⟨_, he⟩ := he
      cases he
      exact hn hb

end TablesPatched

section Result

variable {g : Globals} {sys : System} {obj : DWord} {m : Memory}

-- The first two loops have hooked the first table when the last one starts.
theorem patchTables_eq (hs : Separate g sys obj m) (ho : sys.createObj = some obj) (hz : obj ≠ 0)
    (hp : sys.virtualProtect (m.dword obj)) :
    ∃ m', TablesPatched.SubHooked g sys obj m (Set.range .vt) m' ∧
      patchTables g sys m = (List.finRange NUM_SUBS).foldl (hookSub g sys obj) m' := by
  have ⟨hv, hr⟩ := TablesPatched.saveReals (l := List.finRange NUM_SLOTS) hs .refl ∅ (by simp)
  have h₀ : TablesPatched.VtHooked g sys obj m ∅ _ :=
    ⟨by rw [Set.image_empty]; exact hv, fun k => hr k <| .inr <| List.mem_finRange k, by simp⟩
  have h₁ := h₀.loop hs (l := List.finRange NUM_SLOTS)
  refine ⟨_, ⟨h₁.patched.mono <| Set.image_subset_range .., fun k => ?_⟩, ?_⟩
  case refine_1 => exact h₁.hooked k <| .inr <| List.mem_finRange k
  case refine_2 => simp only [patchTables, ho, hz, if_false, hp, if_true]

theorem not_mem_range_vt {sub : Fin NUM_SUBS} {slot : Fin SUB_SLOTS} : .sub sub slot ∉ Set.range Slot.vt :=
  fun hm => by obtain ⟨_, he⟩ := hm; cases he

theorem patchTables_patched (hs : Separate g sys obj m) (ho : sys.createObj = some obj) :
    TablesPatched g sys obj m Set.univ (patchTables g sys m) ∧
    (obj ≠ 0 → sys.virtualProtect (m.dword obj) → ∀ (k : Fin NUM_SLOTS) tramp,
      sys.virtualAlloc (.vt k) = some tramp → (patchTables g sys m).dword (entry (m.dword obj) k) = tramp) := by
  have hr := TablesPatched.saveReals (l := List.finRange NUM_SLOTS) hs .refl ∅ (by simp)
  by_cases hz : obj = 0
  case pos => simpa only [patchTables, ho, hz, if_true, ne_eq, not_true, false_implies, and_true] using .refl
  case neg =>
    by_cases hp : sys.virtualProtect (m.dword obj)
    case neg =>
      refine ⟨?_, fun _ h => absurd h hp⟩
      simp only [patchTables, ho, hz, if_false, hp]
      exact hr.left.mono <| Set.empty_subset _
    case pos =>
      obtain ⟨m', hm, he⟩ := patchTables_eq hs ho hz hp
      have h := hm.loop hs (fun _ _ _ => not_mem_range_vt) <| List.nodup_finRange NUM_SUBS
      rw [he]
      exact ⟨h.patched, fun _ _ => h.hooked⟩

-- The tables are patched by the first call with a handle.
theorem installTersafeVtablePatches_calls (g : Globals) (sys : System) (calls : List DWord)
    (s : Bool × Memory) :
    (calls.foldl (fun s hts => installTersafeVtablePatches g sys hts s) s).2 =
      if s.1 = false ∧ ∃ hts ∈ calls, hts ≠ 0 then patchTables g sys s.2 else s.2 := by
  induction calls generalizing s
  case nil => simp
  case cons hts calls hi =>
    obtain ⟨installed, m⟩ := s
    rw [List.foldl_cons, hi]
    cases installed
    case true => simp [installTersafeVtablePatches]
    case false =>
      by_cases hz : hts = 0
      case pos =>
        have he : installTersafeVtablePatches g sys hts (false, m) = (false, m) := if_pos <| .inl hz
        rw [he]
        simp only [List.mem_cons, exists_eq_or_imp, ne_eq, hz, not_true, false_or]
      case neg =>
        have he : installTersafeVtablePatches g sys hts (false, m) = (true, patchTables g sys m) :=
          if_neg <| not_or.mpr ⟨hz, Bool.false_ne_true⟩
        rw [he, if_neg fun h => Bool.noConfusion h.left, if_pos ⟨rfl, hts, List.mem_cons_self .., hz⟩]

end Result

-- A call through the entry of a slot in state `s` gets to the given method, either at once or by a trampoline
-- that has no effect on the call.
def Reaches (method : DWord) (s : State) : Prop :=
  s.eip = method ∨ ∃ t : Trampoline, s.eip = t.tramp ∧ s.memory.Loaded t.tramp t.code ∧
    s.memory.dword t.real = method ∧ t.Transparent

-- However often the installer is called, and whichever allocations fail, every entry of the visited tables
-- leads to the method that it contained before. The tables may share entries. Nothing else changes, except for
-- the saved pointers and the new memory.
theorem tables_reach_methods (g : Globals) (sys : System) (obj : DWord) (m : Memory) (calls : List DWord)
    (ho : sys.createObj = some obj) (hs : Separate g sys obj m) (hp : g.Placed sys.tramp) :
    let m' := (calls.foldl (fun s hts => installTersafeVtablePatches g sys hts s) (false, m)).2
    Set.EqOn m' m (tables sys obj m ∪ g.reals ∪ sys.pages)ᶜ ∧
    (∀ i s, Reached sys obj m i → s.eip = m'.dword (slotEntry obj m i) →
      Set.EqOn s.memory m' (g.reals ∪ sys.pages) → Reaches (m.dword <| slotEntry obj m i) s) ∧
    (obj ≠ 0 → sys.virtualProtect (m.dword obj) → (∃ hts ∈ calls, hts ≠ 0) → ∀ (k : Fin NUM_SLOTS) tramp,
      sys.virtualAlloc (.vt k) = some tramp → m'.dword (entry (m.dword obj) k) = tramp) := by
  intro m'
  have ⟨hm, hv⟩ := patchTables_patched hs ho
  have hc : m' = if ∃ hts ∈ calls, hts ≠ 0 then patchTables g sys m else m := by
    have := installTersafeVtablePatches_calls g sys calls (false, m)
    simpa only [true_and] using this
  have hm' : TablesPatched g sys obj m Set.univ m' := by
    rw [hc]
    split
    case isTrue  => exact hm
    case isFalse => exact .refl
  refine ⟨hm'.rest, fun i s hi he hr => ?_, fun hz hp hn => ?_⟩
  case refine_1 =>
    refine (hm'.entries i hi).imp he.trans fun ⟨j, _, _, ha, hl, hj⟩ => ?_
    rw [←he] at ha hl
    have ht : (hooks g sys.tramp j).tramp = s.eip := hooks_tramp.trans <| tramp_eq ha
    refine ⟨hooks g sys.tramp j, ht.symm, ?_, ?_, Trampoline.transparent <| (hooks_placement hp).placed j⟩
    · rw [ht]
      exact hl.congr <| hr.mono <| (range_subset hooks_code_length).trans <|
        (TablesPatched.page_subset ha).trans Set.subset_union_right
    · exact (dword_congr <| hr.mono <| (hooks_real_subset j).trans Set.subset_union_left).trans hj
  case refine_2 =>
    rw [hc, if_pos hn]
    exact hv hz hp

section Example

-- The tables are in an image of the library from `0x40000000`, and all methods are at `0x40404040`.
def exampleSystem : System where
  createObj      := some 0x800000
  lpBaseOfDll    := 0x40000000
  sizeOfImage    := 0x1000000
  isBadReadPtr   := fun _ _ => false
  virtualProtect := fun _ => true
  virtualAlloc   := fun i => some (exampleTramp i)

def exampleObject : Memory :=
  Memory.writeDWords (fun _ => 0x40) 0x800000 [0x40001000, 0, 0, 0x801000, 0x801004]
    |>.writeDWords 0x801000 [0x40001040, 0x40001080]

-- The position of a slot among the entries and the pages.
def Slot.index : Slot → Nat
  | .vt k    => k
  | .sub b k => 16 * (b + 1) + k

theorem Slot.index_lt (i : Slot) : i.index < 48 := by
  cases i
  case vt k    => have : k.val < 6 := k.isLt; rw [index]; omega
  case sub b k =>
    have : b.val < 2 := b.isLt
    have : k.val < 16 := k.isLt
    rw [index]
    omega

theorem Slot.index_injective {i j : Slot} (h : i.index = j.index) : i = j := by
  cases i <;> cases j <;> rw [index, index] at h
  case vt.vt i j       => rw [Fin.ext h]
  case vt.sub i b j    => have : i.val < 6 := i.isLt; omega
  case sub.vt b i j    => have : j.val < 6 := j.isLt; omega
  case sub.sub b i c j =>
    have hi : i.val < 16 := i.isLt
    have hj : j.val < 16 := j.isLt
    rw [Fin.ext (show b.val = c.val by omega), Fin.ext (show i.val = j.val by omega)]

theorem exampleTramp_index (i : Slot) : exampleTramp i = 0x10000 + BitVec.ofNat 32 (0x1000 * i.index) := by
  cases i
  case vt k    => rfl
  case sub b k =>
    have h : ∀ b k, exampleTramp (.sub b k) = 0x10000 + BitVec.ofNat 32 (0x1000 * (16 * (b + 1) + k)) := by
      decide
    exact h b k

theorem exampleObject_entry (i : Slot) : slotEntry 0x800000 exampleObject i = entry 0x40001000 i.index := by
  have hv : exampleObject.dword 0x800000 = 0x40001000 := by decide +kernel
  have hb : ∀ b, subVt 0x800000 exampleObject b = entry 0x40001000 (16 * (b + 1)) := by decide +kernel
  cases i
  case vt k    => rw [slotEntry, hv, Slot.index]
  case sub b k =>
    rw [slotEntry, hb, entry, entry, entry, add_assoc, ←BitVec.ofNat_add, ←Nat.mul_add, Slot.index]

theorem exampleObject_tables {x : DWord} (h : x ∈ tables exampleSystem 0x800000 exampleObject) :
    0x40001000 ≤ x.toNat ∧ x.toNat < 0x400010C0 := by
  obtain ⟨i, _, hi⟩ := h
  have := i.index_lt
  rw [exampleObject_entry] at hi
  exact toNat_of_mem_range (a := 0x40001000) (n := 0xC0) (range_add_subset (by omega) hi) (by simp)

theorem exampleSystem_pages {x : DWord} (h : x ∈ exampleSystem.pages) :
    0x10000 ≤ x.toNat ∧ x.toNat < 0x40000 := by
  obtain ⟨i, _, hi, hx⟩ := h
  cases hi
  have := i.index_lt
  rw [exampleTramp_index] at hx
  exact toNat_of_mem_range (a := 0x10000) (n := 0x30000) (range_add_subset (by omega) hx) (by simp)

theorem exampleGlobals_reals {x : DWord} (h : x ∈ exampleGlobals.reals) :
    0x720000 ≤ x.toNat ∧ x.toNat < 0x740000 := by
  cases h
  case inl h =>
    have := toNat_of_mem_range h (by decide)
    rw [show exampleGlobals.realVt.toNat = 0x720000 from rfl, NUM_SLOTS] at this
    omega
  case inr h =>
    have := toNat_of_mem_range h (by decide)
    rw [show exampleGlobals.realSub.toNat = 0x730000 from rfl, SUB_SLOTS, NUM_SUBS] at this
    omega

theorem exampleObject_objects {x : DWord} (h : x ∈ objects exampleSystem 0x800000 exampleObject) :
    0x800000 ≤ x.toNat ∧ x.toNat < 0x802000 := by
  obtain ⟨b, h⟩ := h
  have hb : ∀ b : Fin NUM_SUBS, 0x800000 ≤ (0x800000 + subOffs[b] : DWord).toNat ∧
      (0x800000 + subOffs[b] : DWord).toNat + 4 ≤ 0x802000 := by decide
  have hd : ∀ b, 0x800000 ≤ (subObj 0x800000 exampleObject b).toNat ∧
      (subObj 0x800000 exampleObject b).toNat + 4 ≤ 0x802000 := by decide +kernel
  have hb := hb b
  have hd := hd b
  cases h
  case inl h => have := toNat_of_mem_range h (by omega); omega
  case inr h => have := toNat_of_mem_range h.right (by omega); omega

theorem exampleSystem_separate : Separate exampleGlobals exampleSystem 0x800000 exampleObject where
  entries i j _ _ := by
    rw [exampleObject_entry, exampleObject_entry]
    by_cases h : i.index = j.index
    case pos => exact .inl <| congrArg _ h
    case neg =>
      have := i.index_lt
      have := j.index_lt
      exact .inr <| TablesPatched.entry_disjoint (by omega) (by omega) h
  pages i j _ _ hi hj hn := by
    cases hi
    cases hj
    have := i.index_lt
    have := j.index_lt
    rw [exampleTramp_index, exampleTramp_index]
    cases Nat.lt_or_gt_of_ne fun h => hn <| Slot.index_injective h
    case inl h => exact range_add_disjoint (by omega) (by omega)
    case inr h => exact (range_add_disjoint (by omega) (by omega)).symm
  image i _ hi := by
    cases hi
    have := exampleTramp_le i
    exact .inl <| BitVec.lt_def.mpr <| show _ < 0x40000000 by omega
  reals        := range_disjoint (by decide) (by decide)
  realsPages   := Set.disjoint_left.mpr fun x h h' => by
    have := exampleGlobals_reals h
    have := exampleSystem_pages h'
    omega
  tablesPages  := Set.disjoint_left.mpr fun x h h' => by
    have := exampleObject_tables h
    have := exampleSystem_pages h'
    omega
  tablesReals  := Set.disjoint_left.mpr fun x h h' => by
    have := exampleObject_tables h
    have := exampleGlobals_reals h'
    omega
  objects      := Set.disjoint_left.mpr fun x h h' => by
    have := exampleObject_objects h
    obtain (h' | h') | h' := h'
    case inl.inl => have := exampleObject_tables h'; omega
    case inl.inr => have := exampleGlobals_reals h'; omega
    case inr     => have := exampleSystem_pages h'; omega

theorem tables_reach_methods_tick : ∃ s : State, s.eip = 0x14000 ∧ Reaches 0x40404040 s := by
  have hp : exampleGlobals.Placed exampleSystem.tramp := example_placed
  have ⟨_, hr, hv⟩ := tables_reach_methods exampleGlobals exampleSystem 0x800000 exampleObject
    [0, 0x40000000, 0x40000000] rfl exampleSystem_separate hp
  have he : slotEntry 0x800000 exampleObject tick = entry (exampleObject.dword 0x800000) 4 := rfl
  have hm : exampleObject.dword (slotEntry 0x800000 exampleObject tick) = 0x40404040 := by
    rw [exampleObject_entry]
    decide +kernel
  have ht := hv (by decide) rfl ⟨0x40000000, by simp, by decide⟩ ⟨4, by decide⟩ 0x14000 rfl
  rw [←hm]
  exact ⟨⟨⟨1, 2, 3, 4, 0x200000, 6, 7, 8⟩, _, 0x202, _⟩, ht, hr tick _ trivial (he ▸ rfl) fun _ _ => rfl⟩

end Example

end Tersafe
