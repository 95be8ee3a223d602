import MhoLauncher.HookTable.Trampoline

open Bytes Memory X86

namespace HookTable

variable {m : Memory} {base : DWord}

section Patches

-- A jump or a call to the target, which starts at the given address.
def jmpTo (site target : DWord) : Code :=
  .jmpRel <| target - (site + 5)

def callTo (site target : DWord) : Code :=
  .callRel <| target - (site + 5)

def CallHookEntry.patches (base : DWord) (e : CallHookEntry) : List Patch :=
  let site := base + e.offset
  [(site, (callTo site e.targetFn).bytes)]

def NopPatchEntry.patches (base : DWord) (e : NopPatchEntry) : List Patch :=
  [(base + e.offset, List.replicate e.count 0x90)]

-- The patches of an entry whose trampoline is located at `code`.
def JmpHookEntry.patches (base : DWord) : JmpHookEntry × DWord → List Patch
  | (e, code) =>
    let site := base + e.offset
    [
      (code, trampoline code (site + BitVec.ofNat 32 e.stolenCount) e.stolenBytes e.callback),
      (site, (jmpTo site code).bytes ++ List.replicate (e.stolenCount - 5) 0x90)
    ]

theorem hookCall_eq (offset fnAddr : DWord) :
    hookCall m base offset fnAddr = m.write (base + offset) (callTo (base + offset) fnAddr).bytes := by
  have ha : base + offset + 1 + 4 = base + offset + 5 := by simp [add_assoc]
  simp only [hookCall, writeMemory, ha]
  exact write_append (by simp)

theorem patchJmp_eq (offset fnAddr : DWord) :
    patchJmp m base offset fnAddr = m.write (base + offset) (jmpTo (base + offset) fnAddr).bytes := by
  have ha : base + offset + 1 + 4 = base + offset + 5 := by simp [add_assoc]
  simp only [patchJmp, writeMemory, ha]
  exact write_append (by simp)

theorem fillNops_eq (hookAddr : DWord) {n : Nat} (h : n < 2 ^ 31) :
    fillNops hookAddr n m = m.write (hookAddr + 5) (List.replicate (n - 5) 0x90) := by
  rw [fillNops]
  have h : n - 5 < 2 ^ 31 := by omega
  generalize n - 5 = k at h
  induction k
  case zero => rfl
  case succ k hi =>
    have ha : hookAddr + BitVec.ofNat 32 (5 + k) = hookAddr + 5 + BitVec.ofNat 32 k := by
      rw [BitVec.ofNat_add]
      exact (add_assoc ..).symm
    have hw : (m.write (hookAddr + 5) (List.replicate k 0x90)).write
        (hookAddr + 5 + BitVec.ofNat 32 (List.replicate k (0x90 : Byte)).length) [0x90] = _ :=
      write_append (by simp; omega)
    rw [List.length_replicate, ←ha, ←List.replicate_succ'] at hw
    rw [List.range'_1_concat, List.foldl_append, hi (by omega)]
    exact hw

theorem fillNops_site (e : JmpHookEntry) (hookAddr : DWord) :
    (if e.stolenCount > 5 then fillNops hookAddr e.stolenCount m else m) =
    m.write (hookAddr + 5) (List.replicate (e.stolenCount - 5) 0x90) := by
  split
  case isTrue  => exact fillNops_eq _ e.stolenCount_lt
  case isFalse => rw [Nat.sub_eq_zero_of_le (by omega)]; rfl

theorem installJmpHook_eq (e : JmpHookEntry) (code : DWord) :
    installJmpHook base m (e, some code) = m.patch (JmpHookEntry.patches base (e, code)) := by
  have hn : e.stolenCount < 2 ^ 31 := e.stolenCount_lt
  have hg := generateTrampoline_eq m code
    (base + e.offset + BitVec.ofNat 32 e.stolenCount) e.stolenBytes e.callback
    (by rw [←JmpHookEntry.stolenCount]; omega)
  simp only [installJmpHook, hg, fillNops_site, patchJmp_eq]
  exact write_append (by simp [jmpTo, Code.jmpRel]; omega)

variable {jmps : List (JmpHookEntry × DWord)} {calls : List CallHookEntry} {nops : List NopPatchEntry}

theorem installJmpHooks_eq :
    installJmpHooks base (jmps.map fun (e, code) => (e, some code)) m =
    m.patch (jmps.flatMap <| JmpHookEntry.patches base) := by
  rw [installJmpHooks, List.foldl_map]
  exact foldl_eq_patch fun _ _ _ => installJmpHook_eq ..

theorem installCallHooks_eq :
    installCallHooks base calls m = m.patch (calls.flatMap <| CallHookEntry.patches base) :=
  foldl_eq_patch fun _ _ _ => hookCall_eq ..

theorem installNopPatches_eq :
    installNopPatches base nops m = m.patch (nops.flatMap <| NopPatchEntry.patches base) :=
  foldl_eq_patch fun _ _ _ => rfl

end Patches

section Installed

variable (base : DWord) (jmps : List (JmpHookEntry × DWord)) (calls : List CallHookEntry)
    (nops : List NopPatchEntry)

-- The ranges of addresses that belong to the entries: the patched ones and the trampolines.
def regions : List (Set DWord) :=
  jmps.flatMap (fun (e, code) => [range code (21 + e.stolenCount), range (base + e.offset) e.stolenCount]) ++
  calls.map (fun e => range (base + e.offset) 5) ++
  nops.map (fun e => range (base + e.offset) e.count)

def patches : List Patch :=
  jmps.flatMap (JmpHookEntry.patches base) ++ calls.flatMap (CallHookEntry.patches base) ++
  nops.flatMap (NopPatchEntry.patches base)

-- The bytes at the address decode as a relative jump or call to the target.
def JumpsTo (m : Memory) (site target : DWord) : Prop :=
  m site = 0xE9 ∧ ∃ rel, decode (m.read site 15) = some (.jmpRel rel, 5) ∧ site + 5 + rel = target

def CallsTo (m : Memory) (site target : DWord) : Prop :=
  m site = 0xE8 ∧ ∃ rel, decode (m.read site 15) = some (.callRel rel, 5) ∧ site + 5 + rel = target

structure JmpHookEntry.Installed (base : DWord) (e : JmpHookEntry) (code : DWord) (m : Memory) : Prop where
  site       : JumpsTo m (base + e.offset) code
  nops       : m.Loaded (base + e.offset + 5) (List.replicate (e.stolenCount - 5) 0x90)
  trampoline : m.Loaded code <|
    trampoline code (base + e.offset + BitVec.ofNat 32 e.stolenCount) e.stolenBytes e.callback
  back       : JumpsTo m (jmpAddr code e.stolenBytes) (base + e.offset + BitVec.ofNat 32 e.stolenCount)

structure Installed (m m' : Memory) : Prop where
  jmp   : ∀ e code, (e, code) ∈ jmps → e.Installed base code m'
  call  : ∀ e ∈ calls, CallsTo m' (base + e.offset) e.targetFn
  nop   : ∀ e ∈ nops, m'.Loaded (base + e.offset) (List.replicate e.count 0x90)
  frame : ∀ x, (∀ r ∈ regions base jmps calls nops, x ∉ r) → m' x = m x

variable {base jmps calls nops}

theorem jumpsTo_of_loaded {site target : DWord} (h : m.Loaded site (jmpTo site target).bytes) :
    JumpsTo m site target :=
  ⟨h.head, _, Code.decode_read h, add_sub_cancel ..⟩

theorem callsTo_of_loaded {site target : DWord} (h : m.Loaded site (callTo site target).bytes) :
    CallsTo m site target :=
  ⟨h.head, _, Code.decode_read h, add_sub_cancel ..⟩

theorem JmpHookEntry.installed_of_loaded {e : JmpHookEntry} {code : DWord}
    (hs : m.Loaded (base + e.offset) <|
      (jmpTo (base + e.offset) code).bytes ++ List.replicate (e.stolenCount - 5) 0x90)
    (ht : m.Loaded code <|
      trampoline code (base + e.offset + BitVec.ofNat 32 e.stolenCount) e.stolenBytes e.callback) :
    e.Installed base code m where
  site       := jumpsTo_of_loaded (loaded_append.mp hs).left
  nops       := (loaded_append.mp hs).right
  trampoline := ht
  back       := jumpsTo_of_loaded (loaded_parts ht).right.right.right

theorem mem_patches_jmp {e : JmpHookEntry} {code : DWord} {p : Patch} (h : (e, code) ∈ jmps)
    (hp : p ∈ JmpHookEntry.patches base (e, code)) : p ∈ patches base jmps calls nops :=
  List.mem_append_left _ <| List.mem_append_left _ <| List.mem_flatMap.mpr ⟨_, h, hp⟩

theorem mem_patches_call {e : CallHookEntry} {p : Patch} (h : e ∈ calls) (hp : p ∈ e.patches base) :
    p ∈ patches base jmps calls nops :=
  List.mem_append_left _ <| List.mem_append_right _ <| List.mem_flatMap.mpr ⟨_, h, hp⟩

theorem mem_patches_nop {e : NopPatchEntry} {p : Patch} (h : e ∈ nops) (hp : p ∈ e.patches base) :
    p ∈ patches base jmps calls nops :=
  List.mem_append_right _ <| List.mem_flatMap.mpr ⟨_, h, hp⟩

theorem jmp_patches_range {e : JmpHookEntry} {code : DWord} (h : 5 ≤ e.stolenCount) :
    (JmpHookEntry.patches base (e, code)).map Patch.range =
    [range code (21 + e.stolenCount), range (base + e.offset) e.stolenCount] := by
  have hl (c : Code) (hc : c.bytes.length = 5) :
      (c.bytes ++ List.replicate (e.stolenCount - 5) 0x90).length = e.stolenCount := by
    simp [hc]
    omega
  simp only [JmpHookEntry.patches, List.map_cons, List.map_nil, Patch.range, trampoline_length,
    hl (jmpTo _ _) rfl]
  rfl

theorem patches_range (h : ∀ e code, (e, code) ∈ jmps → 5 ≤ e.stolenCount) :
    (patches base jmps calls nops).map Patch.range = regions base jmps calls nops := by
  have hj : (jmps.flatMap <| JmpHookEntry.patches base).map Patch.range =
      jmps.flatMap fun (e, code) =>
        [range code (21 + e.stolenCount), range (base + e.offset) e.stolenCount] := by
    rw [List.map_flatMap]
    exact List.flatMap_congr fun (e, code) he => jmp_patches_range <| h e code he
  rw [patches, regions, List.map_append, List.map_append, hj, List.map_flatMap, List.map_flatMap,
    List.map_eq_flatMap, List.map_eq_flatMap]
  simp [CallHookEntry.patches, NopPatchEntry.patches, Patch.range, callTo, Code.callRel]

theorem patch_installed (h : ∀ e code, (e, code) ∈ jmps → 5 ≤ e.stolenCount)
    (hd : (regions base jmps calls nops).Pairwise Disjoint) :
    Installed base jmps calls nops m (m.patch <| patches base jmps calls nops) := by
  rw [←patches_range h, List.pairwise_map] at hd
  have hf : ∀ x, (∀ r ∈ regions base jmps calls nops, x ∉ r) →
      m.patch (patches base jmps calls nops) x = m x := by
    rw [←patches_range h]
    intro x hx
    refine patch_eqOn (s := {x}) (fun p hp => ?_) rfl
    exact Set.disjoint_singleton_left.mpr <| hx _ <| List.mem_map_of_mem hp
  constructor
  case jmp =>
    intro e code he
    have hn : e.stolenCount < 2 ^ 31 := e.stolenCount_lt
    have ht := loaded_patch (m := m) (mem_patches_jmp he <| List.mem_cons_self ..) hd <| by
      rw [trampoline_length, ←JmpHookEntry.stolenCount]
      omega
    have hs := loaded_patch (m := m)
      (mem_patches_jmp he <| List.mem_cons_of_mem _ <| List.mem_cons_self ..) hd <| by
      simp [jmpTo, Code.jmpRel]
      omega
    exact JmpHookEntry.installed_of_loaded hs ht
  case call =>
    intro e he
    exact callsTo_of_loaded <| loaded_patch (mem_patches_call he <| List.mem_cons_self ..) hd <| by
      simp [callTo, Code.callRel]
  case nop =>
    intro e he
    have := e.count_lt
    exact loaded_patch (mem_patches_nop he <| List.mem_cons_self ..) hd <| by simp; omega
  case frame => exact hf

theorem patches_perm {jmps' calls' nops'} (hj : jmps.Perm jmps') (hc : calls.Perm calls')
    (hn : nops.Perm nops') :
    (patches base jmps calls nops).Perm (patches base jmps' calls' nops') :=
  (hj.flatMap_right _ |>.append <| hc.flatMap_right _).append <| hn.flatMap_right _

end Installed

-- The three installers for the given entries, in the order in which they are called.
def installers (base : DWord) (jmps : List (JmpHookEntry × DWord)) (calls : List CallHookEntry)
    (nops : List NopPatchEntry) : List (Memory → Memory) := [
  installJmpHooks base (jmps.map fun (e, code) => (e, some code)),
  installCallHooks base calls,
  installNopPatches base nops
]

-- Runs the installers one after the other.
def install (m : Memory) (installers : List (Memory → Memory)) : Memory :=
  installers.foldl (fun m f => f m) m

section Order

variable {jmps : List (JmpHookEntry × DWord)} {calls : List CallHookEntry} {nops : List NopPatchEntry}

theorem install_eq :
    install m (installers base jmps calls nops) = m.patch (patches base jmps calls nops) := by
  simp only [install, installers, List.foldl_cons, List.foldl_nil, installJmpHooks_eq, installCallHooks_eq,
    installNopPatches_eq, patches, patch_append]

theorem installers_comm (hd : (patches base jmps calls nops).Pairwise fun p q => Disjoint p.range q.range) :
    (installers base jmps calls nops).Pairwise fun f g => ∀ m, g (f m) = f (g m) := by
  have hjc := (List.pairwise_append.mp hd).left
  have hjn := hd.sublist <| (List.sublist_append_left ..).append <| List.Sublist.refl _
  have hcn := hd.sublist <| (List.sublist_append_right ..).append <| List.Sublist.refl _
  simp only [installers, List.pairwise_cons, List.mem_cons, List.not_mem_nil, or_false,
    forall_eq_or_imp, forall_eq, installJmpHooks_eq, installCallHooks_eq, installNopPatches_eq]
  exact ⟨⟨fun _ => patch_comm hjc, fun _ => patch_comm hjn⟩, fun _ => patch_comm hcn, nofun, .nil⟩

theorem install_perm {fs : List (Memory → Memory)} (hp : fs.Perm <| installers base jmps calls nops)
    (hd : (patches base jmps calls nops).Pairwise fun p q => Disjoint p.range q.range) :
    install m fs = install m (installers base jmps calls nops) := by
  refine (hp.symm.foldl_eq' (fun f hf g hg m => ?_) m).symm
  have : Std.Symm fun f g : Memory → Memory => ∀ m, g (f m) = f (g m) := ⟨fun _ _ h m => (h m).symm⟩
  by_cases he : f = g
  case pos => rw [he]
  case neg => exact (installers_comm hd).forall hf hg he m

end Order

-- Whatever the order of the entries and of the installers is, the same memory results.
theorem install_installed (base : DWord) (m : Memory) (jmps : List (JmpHookEntry × DWord))
    (calls : List CallHookEntry) (nops : List NopPatchEntry)
    (h : ∀ e code, (e, code) ∈ jmps → 5 ≤ e.stolenCount)
    (hd : (regions base jmps calls nops).Pairwise Disjoint) :
    Installed base jmps calls nops m (install m <| installers base jmps calls nops) ∧
    ∀ jmps' calls' nops' fs, jmps'.Perm jmps → calls'.Perm calls → nops'.Perm nops →
      fs.Perm (installers base jmps' calls' nops') →
        install m fs = install m (installers base jmps calls nops) := by
  have hr := hd
  rw [←patches_range h, List.pairwise_map] at hr
  have hi := patch_installed (m := m) h hd
  rw [←install_eq] at hi
  refine ⟨hi, fun jmps' calls' nops' fs hj hc hn hf => ?_⟩
  have hp : (patches base jmps' calls' nops').Perm (patches base jmps calls nops) := patches_perm hj hc hn
  have hr' := hp.symm.pairwise hr (fun h => h.symm)
  rw [install_perm hf hr', install_eq, install_eq, patch_perm hp hr']

theorem install_installed_three_entries :
    let jmps := [(⟨0x100, 0x500000, [0x55, 0x8B, 0xEC, 0x6A, 0xFF, 0x90], by simp⟩, 0x10000)]
    let calls := [⟨0x200, 0x500100⟩]
    let nops := [⟨0x300, 3, by simp⟩]
    Installed 0x400000 jmps calls nops (fun _ => 0)
      (install (fun _ => 0) <| installers 0x400000 jmps calls nops) ∧
    install (fun _ => 0) (installers 0x400000 jmps calls nops).reverse =
      install (fun _ => 0) (installers 0x400000 jmps calls nops) := by
  intro jmps calls nops
  have hd {a b : DWord} {n k : Nat} (h : ∀ x : DWord, (x - a).toNat < n → ¬ (x - b).toNat < k) :
      Disjoint (range a n) (range b k) := Set.disjoint_left.mpr h
  have ⟨hi, ho⟩ := install_installed 0x400000 (fun _ => 0) jmps calls nops
    (by simp [jmps, JmpHookEntry.stolenCount]) <| by
    simp only [regions, jmps, calls, nops, JmpHookEntry.stolenCount, List.flatMap_cons,
      List.flatMap_nil, List.map_cons, List.map_nil, List.append_nil, List.cons_append,
      List.nil_append, List.pairwise_cons, List.mem_cons, List.not_mem_nil, or_false,
      forall_eq_or_imp, forall_eq, List.length_cons, List.length_nil]
    refine ⟨⟨hd ?_, hd ?_, hd ?_⟩, ⟨hd ?_, hd ?_⟩, hd ?_, nofun, .nil⟩ <;> intro x <;> bv_omega
  exact ⟨hi, ho _ _ _ _ (.refl _) (.refl _) (.refl _) (List.reverse_perm _)⟩

end HookTable
