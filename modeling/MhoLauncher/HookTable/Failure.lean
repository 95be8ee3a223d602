import MhoLauncher.HookTable.Install

open Bytes Memory X86

namespace HookTable

-- The jump that is written to the site of an entry, with the bytes that fill up the site.
def JmpHookEntry.sitePatch (base target : DWord) (e : JmpHookEntry) : Patch :=
  (base + e.offset, (jmpTo (base + e.offset) target).bytes ++ List.replicate (e.stolenCount - 5) 0x90)

-- The patches of an entry, whose trampoline may have failed to be allocated. In this case, the jump at the
-- site leads to the null pointer.
def JmpHookEntry.attempts (base : DWord) : JmpHookEntry × Option DWord → List Patch
  | (e, some code) => JmpHookEntry.patches base (e, code)
  | (e, none)      => [e.sitePatch base 0]

-- The ranges of the sites and of the trampolines that were allocated.
def attemptRegions (base : DWord) (entries : List (JmpHookEntry × Option DWord)) : List (Set DWord) :=
  entries.flatMap fun (e, code) =>
    (code.toList.map fun code => range code (21 + e.stolenCount)) ++ [range (base + e.offset) e.stolenCount]

section Attempts

variable {base : DWord} {m : Memory} {e : JmpHookEntry} {entries : List (JmpHookEntry × Option DWord)}

theorem JmpHookEntry.sitePatch_length {target : DWord} :
    (e.sitePatch base target).2.length = max 5 e.stolenCount := by
  simp [sitePatch, jmpTo, Code.jmpRel]
  omega

theorem JmpHookEntry.sitePatch_range {target : DWord} :
    (e.sitePatch base target).range = range (base + e.offset) (max 5 e.stolenCount) := by
  rw [Patch.range, sitePatch_length]
  rfl

theorem installJmpHook_attempts (p : JmpHookEntry × Option DWord) :
    installJmpHook base m p = m.patch (JmpHookEntry.attempts base p) := by
  have ⟨e, code⟩ := p
  cases code
  case some code => exact installJmpHook_eq e code
  case none =>
    have hn : e.stolenCount < 2 ^ 31 := e.stolenCount_lt
    simp only [installJmpHook, generateTrampoline, fillNops_site, patchJmp_eq]
    exact write_append (by simp [jmpTo, Code.jmpRel]; omega)

theorem installJmpHooks_attempts :
    installJmpHooks base entries m = m.patch (entries.flatMap <| JmpHookEntry.attempts base) :=
  foldl_eq_patch fun _ _ _ => installJmpHook_attempts _

theorem attempts_range (h : ∀ e code, (e, code) ∈ entries → 5 ≤ e.stolenCount) :
    (entries.flatMap <| JmpHookEntry.attempts base).map Patch.range = attemptRegions base entries := by
  rw [List.map_flatMap]
  apply List.flatMap_congr
  intro (e, code) he
  have h := h e code he
  cases code
  case some code => exact jmp_patches_range h
  case none =>
    simp only [JmpHookEntry.attempts, List.map_cons, List.map_nil, JmpHookEntry.sitePatch_range,
      max_eq_right h]
    rfl

theorem mem_attempts {code : Option DWord} {p : Patch} (h : (e, code) ∈ entries)
    (hp : p ∈ JmpHookEntry.attempts base (e, code)) : p ∈ entries.flatMap (JmpHookEntry.attempts base) :=
  List.mem_flatMap.mpr ⟨_, h, hp⟩

end Attempts

section Failure

variable {base : DWord} {m : Memory} {entries : List (JmpHookEntry × Option DWord)}

theorem installed_of_attempts (h : ∀ e code, (e, code) ∈ entries → 5 ≤ e.stolenCount)
    (hd : (attemptRegions base entries).Pairwise Disjoint) {e : JmpHookEntry} {code : DWord}
    (he : (e, some code) ∈ entries) : e.Installed base code (installJmpHooks base entries m) := by
  have hn : e.stolenCount < 2 ^ 31 := e.stolenCount_lt
  rw [←attempts_range h, List.pairwise_map] at hd
  rw [installJmpHooks_attempts]
  apply JmpHookEntry.installed_of_loaded
  case ht =>
    apply loaded_patch (mem_attempts he <| List.mem_cons_self ..) hd
    rw [trampoline_length, ←JmpHookEntry.stolenCount]
    omega
  case hs =>
    apply loaded_patch (mem_attempts he <| List.mem_cons_of_mem _ <| List.mem_cons_self ..) hd
    simp [jmpTo, Code.jmpRel]
    omega

theorem failed_site (h : ∀ e code, (e, code) ∈ entries → 5 ≤ e.stolenCount)
    (hd : (attemptRegions base entries).Pairwise Disjoint) {e : JmpHookEntry} (he : (e, none) ∈ entries) :
    (installJmpHooks base entries m).read (base + e.offset) e.stolenCount = (e.sitePatch base 0).2 := by
  have hn : e.stolenCount < 2 ^ 31 := e.stolenCount_lt
  have hl : (e.sitePatch base 0).2.length = e.stolenCount := by
    rw [JmpHookEntry.sitePatch_length, max_eq_right (h e none he)]
  rw [←attempts_range h, List.pairwise_map] at hd
  rw [installJmpHooks_attempts]
  have hs := loaded_patch (m := m) (mem_attempts he <| List.mem_cons_self ..) hd (by omega)
  rwa [Loaded, hl] at hs

end Failure

-- The installed hooks leave the sites intact whose trampoline was not allocated, if and only if these sites
-- contained a jump to the null pointer before.
theorem installJmpHooks_intact_iff (base : DWord) (m : Memory) (entries : List (JmpHookEntry × Option DWord))
    (h : ∀ e code, (e, code) ∈ entries → 5 ≤ e.stolenCount)
    (hd : (attemptRegions base entries).Pairwise Disjoint) :
    ((∀ e, (e, none) ∈ entries →
        (installJmpHooks base entries m).read (base + e.offset) e.stolenCount =
          m.read (base + e.offset) e.stolenCount) ∧
      ∀ e code, (e, some code) ∈ entries → e.Installed base code (installJmpHooks base entries m)) ↔
    ∀ e, (e, none) ∈ entries →
      m.read (base + e.offset) e.stolenCount =
        0xE9 :: toLE 4 (0 - (base + e.offset + 5)) ++ List.replicate (e.stolenCount - 5) 0x90 := by
  constructor
  case mp =>
    intro ⟨hf, _⟩ e he
    exact (hf e he).symm.trans <| failed_site h hd he
  case mpr =>
    intro hf
    constructor
    case left =>
      intro e he
      exact (failed_site h hd he).trans (hf e he).symm
    case right => exact fun _ _ => installed_of_attempts h hd

-- Two entries. The trampoline of the second one may be missing.
def exampleEntries (code : Option DWord) : List (JmpHookEntry × Option DWord) := [
  (⟨0x100, 0x500000, [0x55, 0x8B, 0xEC, 0x6A, 0xFF, 0x90], by simp⟩, some 0x10000),
  (⟨0x200, 0x500100, [0x55, 0x8B, 0xEC, 0x53, 0x56], by simp⟩, code)
]

theorem exampleEntries_stolenCount (code : Option DWord) :
    ∀ e c, (e, c) ∈ exampleEntries code → 5 ≤ e.stolenCount := by
  intro e c he
  cases List.mem_pair.mp he
  case inl he => cases he; decide
  case inr he => cases he; decide

theorem exampleEntries_disjoint {code : Option DWord} (hc : code.elim True (· = 0x20000)) :
    (attemptRegions 0x400000 <| exampleEntries code).Pairwise Disjoint := by
  have hd {a b : DWord} {n k : Nat} (h : ∀ x : DWord, (x - a).toNat < n → ¬(x - b).toNat < k) :
      Disjoint (range a n) (range b k) := Set.disjoint_left.mpr h
  cases code
  all_goals
    simp only [attemptRegions, exampleEntries, JmpHookEntry.stolenCount, List.flatMap_cons, List.flatMap_nil,
      List.map_cons, List.map_nil, Option.toList_some, Option.toList_none, List.append_nil, List.cons_append,
      List.nil_append, List.pairwise_cons, List.mem_cons, List.not_mem_nil, or_false,
      forall_eq_or_imp, forall_eq, List.length_cons, List.length_nil]
  case none => refine ⟨⟨hd ?_, hd ?_⟩, hd ?_, fun _ h => h.elim, .nil⟩ <;> intro x <;> bv_omega
  case some =>
    cases hc
    refine ⟨⟨hd ?_, hd ?_, hd ?_⟩, ⟨hd ?_, hd ?_⟩, hd ?_, fun _ h => h.elim, .nil⟩ <;> intro x <;> bv_omega

theorem installJmpHooks_intact_iff_allocated :
    (exampleEntries <| some 0x20000).Forall fun (e, code) => ∃ a, code = some a ∧
      e.Installed 0x400000 a (installJmpHooks 0x400000 (exampleEntries <| some 0x20000) fun _ => 0x55) := by
  have hi := installJmpHooks_intact_iff 0x400000 (fun _ => 0x55) (exampleEntries <| some 0x20000)
    (exampleEntries_stolenCount _) (exampleEntries_disjoint rfl) |>.mpr (by simp [exampleEntries]) |>.right
  exact ⟨⟨_, rfl, hi _ _ <| List.mem_cons_self ..⟩,
    ⟨_, rfl, hi _ _ <| List.mem_cons_of_mem _ <| List.mem_cons_self ..⟩⟩

-- Without memory for its trampoline, an entry's site is overwritten.
theorem failed_allocation_overwrites_site :
    ∃ e, (e, none) ∈ exampleEntries none ∧
      (installJmpHooks 0x400000 (exampleEntries none) fun _ => 0x55).read
        (0x400000 + e.offset) e.stolenCount ≠
        Memory.read (fun _ => 0x55) (0x400000 + e.offset) e.stolenCount := by
  have he : (⟨0x200, 0x500100, [0x55, 0x8B, 0xEC, 0x53, 0x56], by simp⟩, none) ∈ exampleEntries none :=
    List.mem_cons_of_mem _ <| List.mem_cons_self ..
  have hd : (attemptRegions 0x400000 <| exampleEntries none).Pairwise Disjoint :=
    exampleEntries_disjoint trivial
  refine ⟨_, he, ?_⟩
  rw [failed_site (exampleEntries_stolenCount _) hd he]
  decide

end HookTable
