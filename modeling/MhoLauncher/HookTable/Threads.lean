import Mathlib
import MhoLauncher.HookTable.Failure
import MhoLauncher.HookTable.Tables

open Bytes Memory X86

namespace HookTable

section Install

variable (fn : Callback → DWord) (enableTersafe : Bool) (base : DWord) (code : Nat → DWord) (m : Memory)

-- The entries with the addresses of their trampolines, of which the first one is the `n`-th of the library.
def withCode (n : Nat) (entries : List JmpHookEntry) : List (JmpHookEntry × DWord) :=
  (entries.zipIdx n).map fun (e, i) => (e, code i)

def installJmps (n : Nat) (entries : List JmpHookEntry) : Memory :=
  installJmpHooks base ((withCode code n entries).map fun (e, code) => (e, some code)) m

def installMhoHandlerHooks : Memory :=
  installJmps base code m (mhoclientJmpHooks fn).length (mhoHandlerJmpHooks fn)

def installMhoclientHooks : Memory :=
  let m := installJmps base code m 0 (mhoclientJmpHooks fn)
  let m := installNopPatches base mhoclientNops m
  installMhoHandlerHooks fn base code m

def installCrygameHooks : Memory :=
  let m := installJmps base code m 0 (crygameJmpHooks fn)
  if enableTersafe then installJmps base code m (crygameJmpHooks fn).length (crygameTersafeJmpHooks fn) else m

def installProtocalhandlerHooks : Memory :=
  let m := installCallHooks base (decryptionHooks fn) m
  let m := installCallHooks base (encryptionHooks fn) m
  let m := installCallHooks base (aesHooks fn) m
  installCallHooks base (logHooks fn) m

def installTenproxyHooks : Memory :=
  let m := installJmps base code m 0 (tenproxyJmpHooks fn)
  installNopPatches base tenproxyNops m

def installHooks : Dll → Memory
  | .mhoclient       => installMhoclientHooks fn base code m
  | .crygame         => installCrygameHooks fn enableTersafe base code m
  | .protocalhandler => installProtocalhandlerHooks fn base m
  | .tenproxy        => installTenproxyHooks fn base code m

-- What the installer for a library writes.
def writes (dll : Dll) : List Patch :=
  let jmps n entries := (withCode code n entries).flatMap (JmpHookEntry.patches base)
  match dll with
  | .mhoclient       =>
    jmps 0 (mhoclientJmpHooks fn) ++ mhoclientNops.flatMap (NopPatchEntry.patches base) ++
    jmps (mhoclientJmpHooks fn).length (mhoHandlerJmpHooks fn)
  | .crygame         =>
    jmps 0 (crygameJmpHooks fn) ++
    if enableTersafe then jmps (crygameJmpHooks fn).length (crygameTersafeJmpHooks fn) else []
  | .protocalhandler => (tables fn enableTersafe dll).calls.flatMap (CallHookEntry.patches base)
  | .tenproxy        => jmps 0 (tenproxyJmpHooks fn) ++ tenproxyNops.flatMap (NopPatchEntry.patches base)

-- The patches of all entries for a library.
def tablePatches (dll : Dll) : List Patch :=
  let t := tables fn enableTersafe dll
  patches base (withCode code 0 t.jmps) t.calls t.nops

variable {fn enableTersafe base code m}

theorem installJmps_eq {n : Nat} {entries : List JmpHookEntry} : installJmps base code m n entries =
    m.patch ((withCode code n entries).flatMap <| JmpHookEntry.patches base) :=
  installJmpHooks_eq

theorem installHooks_eq (dll : Dll) :
    installHooks fn enableTersafe base code m dll = m.patch (writes fn enableTersafe base code dll) := by
  cases dll
  case mhoclient       =>
    simp only [installHooks, installMhoclientHooks, installMhoHandlerHooks, installJmps_eq,
      installNopPatches_eq, writes, patch_append]
  case crygame         =>
    cases enableTersafe <;>
      simp [installHooks, installCrygameHooks, installJmps_eq, writes, patch_append]
  case protocalhandler =>
    simp only [installHooks, installProtocalhandlerHooks, installCallHooks_eq, writes, tables,
      List.flatMap_append, patch_append]
  case tenproxy        =>
    simp only [installHooks, installTenproxyHooks, installJmps_eq, installNopPatches_eq, writes, patch_append]

theorem withCode_append {es fs : List JmpHookEntry} :
    withCode code 0 (es ++ fs) = withCode code 0 es ++ withCode code es.length fs := by
  rw [withCode, List.zipIdx_append, List.map_append, Nat.zero_add]
  rfl

-- The order of the kinds of entries does not matter.
theorem writes_perm (dll : Dll) : (writes fn enableTersafe base code dll).Perm
    (tablePatches fn enableTersafe base code dll) := by
  cases dll
  case mhoclient       =>
    simp only [writes, tablePatches, patches, tables, withCode_append, List.flatMap_append, List.flatMap_nil,
      List.append_nil, List.append_assoc]
    exact List.perm_append_comm.append_left _
  case crygame         =>
    simp only [writes, tablePatches, patches, tables, withCode_append, List.flatMap_append, List.flatMap_nil,
      List.append_nil]
    cases enableTersafe <;> exact .refl _
  case protocalhandler =>
    have hj : (tables fn enableTersafe .protocalhandler).jmps = [] := rfl
    have hn : (tables fn enableTersafe .protocalhandler).nops = [] := rfl
    rw [writes, tablePatches, patches, hj, hn, withCode, List.zipIdx_nil, List.map_nil, List.flatMap_nil,
      List.flatMap_nil, List.append_nil, List.nil_append]
  case tenproxy        =>
    simp only [writes, tablePatches, patches, tables, List.flatMap_nil, List.append_nil, List.Perm.refl]

end Install

section Hooked

variable (fn : Callback → DWord) (enableTersafe : Bool) (base : Dll → DWord) (code : Dll → Nat → DWord)

-- The addresses of a library up to its last site.
def image (dll : Dll) : Set DWord :=
  range (base dll) (extent dll)

-- The trampoline of an entry with its index.
def page (dll : Dll) (p : JmpHookEntry × Nat) : Set DWord :=
  range (code dll p.2) (21 + p.1.stolenCount)

abbrev entries (dll : Dll) : List (JmpHookEntry × Nat) :=
  (tables fn enableTersafe dll).jmps.zipIdx

-- Neither the libraries nor the trampolines overlap.
structure Separated : Prop where
  images : ∀ k l, k ≠ l → Disjoint (image base k) (image base l)
  pages  : ∀ k l, ∀ p ∈ entries fn enableTersafe k, ∀ q ∈ entries fn enableTersafe l,
    (k, p.2) ≠ (l, q.2) → Disjoint (page code k p) (page code l q)
  apart  : ∀ k l, ∀ p ∈ entries fn enableTersafe k, Disjoint (page code k p) (image base l)

-- Memory `m'` is memory `m` with all hooks.
structure Hooked (m m' : Memory) : Prop where
  sound : ∀ k, (tables fn enableTersafe k).Sound (extent k)
  jmp   : ∀ k, ∀ p ∈ entries fn enableTersafe k, p.1.Installed (base k) (code k p.2) m'
  call  : ∀ k, ∀ e ∈ (tables fn enableTersafe k).calls, CallsTo m' (base k + e.offset) e.targetFn
  nop   : ∀ k, ∀ e ∈ (tables fn enableTersafe k).nops,
    m'.Loaded (base k + e.offset) (List.replicate e.count 0x90)
  frame : ∀ x, (∀ k, ∀ p ∈ entries fn enableTersafe k, x ∉ page code k p) →
    (∀ k, ∀ p ∈ (tables fn enableTersafe k).sites, x ∉ range (base k + BitVec.ofNat 32 p.1) p.2) → m' x = m x

variable {fn enableTersafe base code} {m : Memory} {dll k l : Dll} {r : Set DWord}

abbrev tableRegions (fn : Callback → DWord) (enableTersafe : Bool) (base : Dll → DWord)
    (code : Dll → Nat → DWord) (dll : Dll) : List (Set DWord) :=
  let t := tables fn enableTersafe dll
  regions (base dll) (withCode (code dll) 0 t.jmps) t.calls t.nops

theorem jmps_stolen {e : JmpHookEntry} {c : DWord}
    (h : (e, c) ∈ withCode (code dll) 0 (tables fn enableTersafe dll).jmps) : 5 ≤ e.stolenCount := by
  obtain ⟨⟨e, i⟩, hm, he⟩ := List.mem_map.mp h
  cases he
  exact ((tables_sound fn enableTersafe dll).stolen e <| List.fst_mem_of_mem_zipIdx hm).left

-- The regions are the trampolines and the sites.
theorem regions_perm : (tableRegions fn enableTersafe base code dll).Perm
    ((entries fn enableTersafe dll).map (page code dll) ++
      (tables fn enableTersafe dll).sites.map fun p => range (base dll + BitVec.ofNat 32 p.1) p.2) := by
  have hs {d : DWord} : base dll + BitVec.ofNat 32 d.toNat = base dll + d := by simp
  have hj : (entries fn enableTersafe dll).map (fun p => range (base dll + p.1.offset) p.1.stolenCount) =
      (tables fn enableTersafe dll).jmps.map fun e => range (base dll + e.offset) e.stolenCount := by
    conv_rhs => rw [←List.zipIdx_map_fst 0 (tables fn enableTersafe dll).jmps, List.map_map]
    rfl
  have hp := List.flatMap_append_perm (entries fn enableTersafe dll) (fun p => [page code dll p])
    (fun p => [range (base dll + p.1.offset) p.1.stolenCount])
  rw [←List.map_eq_flatMap, ←List.map_eq_flatMap, hj] at hp
  simp only [tableRegions, regions, withCode, List.flatMap_map, Tables.sites, List.map_append, List.map_map,
    Function.comp_def, hs, ←List.append_assoc]
  exact (hp.symm.append_right _).append_right _

theorem site_subset {p : Nat × Nat} (h : p ∈ (tables fn enableTersafe dll).sites) :
    range (base dll + BitVec.ofNat 32 p.1) p.2 ⊆ image base dll :=
  range_add_subset <| (tables_sound fn enableTersafe dll).bounds p h

theorem extent_le (dll : Dll) : extent dll ≤ 2 ^ 32 := by
  cases dll <;> decide

section Disjoint

variable (h : Separated fn enableTersafe base code)
include h

theorem pages_pairwise : ((entries fn enableTersafe dll).map (page code dll)).Pairwise Disjoint := by
  refine List.pairwise_map.mpr <| List.pairwise_iff_getElem.mpr fun i j hi hj hij => ?_
  refine h.pages dll dll _ (List.getElem_mem hi) _ (List.getElem_mem hj) fun he => ?_
  rw [List.getElem_zipIdx, List.getElem_zipIdx] at he
  have := (Prod.mk.inj he).right
  omega

omit h in
theorem sites_pairwise : ((tables fn enableTersafe dll).sites.map
    fun p => range (base dll + BitVec.ofNat 32 p.1) p.2).Pairwise Disjoint := by
  have ht := tables_sound fn enableTersafe dll
  refine List.pairwise_map.mpr <| (List.pairwise_iff_forall_sublist.mpr fun {p q} hs => ?_)
  have ha := List.pairwise_iff_forall_sublist.mp ht.apart hs
  have hp := (ht.bounds p <| hs.subset <| .head _).trans <| extent_le dll
  have hq := (ht.bounds q <| hs.subset <| .tail _ <| .head _).trans <| extent_le dll
  cases ha
  case inl ha => exact range_add_disjoint ha hq
  case inr ha => exact (range_add_disjoint ha hp).symm

theorem regions_pairwise : (tableRegions fn enableTersafe base code dll).Pairwise Disjoint := by
  refine regions_perm.symm.pairwise ?_ fun h => h.symm
  refine List.pairwise_append.mpr ⟨pages_pairwise h, sites_pairwise, fun r hr s hs => ?_⟩
  obtain ⟨p, hp, rfl⟩ := List.mem_map.mp hr
  obtain ⟨q, hq, rfl⟩ := List.mem_map.mp hs
  exact (h.apart dll dll p hp).mono_right <| site_subset hq

theorem regions_disjoint {s : Set DWord} (hn : k ≠ l) (hr : r ∈ tableRegions fn enableTersafe base code k)
    (hs : s ∈ tableRegions fn enableTersafe base code l) : Disjoint r s := by
  cases List.mem_append.mp <| regions_perm.mem_iff.mp hr <;>
    cases List.mem_append.mp <| regions_perm.mem_iff.mp hs
  case inl.inl hr hs =>
    obtain ⟨p, hp, rfl⟩ := List.mem_map.mp hr
    obtain ⟨q, hq, rfl⟩ := List.mem_map.mp hs
    exact h.pages k l p hp q hq fun he => hn (Prod.mk.inj he).left
  case inl.inr hr hs =>
    obtain ⟨p, hp, rfl⟩ := List.mem_map.mp hr
    obtain ⟨q, hq, rfl⟩ := List.mem_map.mp hs
    exact (h.apart k l p hp).mono_right <| site_subset hq
  case inr.inl hr hs =>
    obtain ⟨p, hp, rfl⟩ := List.mem_map.mp hr
    obtain ⟨q, hq, rfl⟩ := List.mem_map.mp hs
    exact (h.apart l k q hq).symm.mono_left <| site_subset hp
  case inr.inr hr hs =>
    obtain ⟨p, hp, rfl⟩ := List.mem_map.mp hr
    obtain ⟨q, hq, rfl⟩ := List.mem_map.mp hs
    exact (h.images k l hn).mono (site_subset hp) (site_subset hq)

-- What the installers write, library by library.
abbrev allWrites (fn : Callback → DWord) (enableTersafe : Bool) (base : Dll → DWord)
    (code : Dll → Nat → DWord) (dlls : List Dll) : List Patch :=
  dlls.flatMap fun k => writes fn enableTersafe (base k) (code k) k

omit h in
theorem tablePatches_range (k : Dll) : (tablePatches fn enableTersafe (base k) (code k) k).map Patch.range =
    tableRegions fn enableTersafe base code k :=
  patches_range fun _ _ => jmps_stolen

omit h in
theorem writes_range {p : Patch} (hp : p ∈ writes fn enableTersafe (base k) (code k) k) :
    p.range ∈ tableRegions fn enableTersafe base code k :=
  tablePatches_range k ▸ List.mem_map_of_mem ((writes_perm k).mem_iff.mp hp)

theorem writes_pairwise (k : Dll) : (writes fn enableTersafe (base k) (code k) k).Pairwise
    fun p q => Disjoint p.range q.range := by
  refine (writes_perm k).symm.pairwise (List.pairwise_map.mp ?_) fun h => h.symm
  have hr : (tablePatches fn enableTersafe (base k) (code k) k).map Patch.range =
    tableRegions fn enableTersafe base code k := tablePatches_range k
  exact hr ▸ regions_pairwise h

theorem allWrites_pairwise {dlls : List Dll} (hn : dlls.Nodup) :
    (allWrites fn enableTersafe base code dlls).Pairwise fun p q => Disjoint p.range q.range := by
  refine List.pairwise_flatMap.mpr ⟨fun k _ => writes_pairwise h k, hn.imp ?_⟩
  exact fun hn p hp q hq => regions_disjoint h hn (writes_range hp) (writes_range hq)

omit h in
theorem patches_length {base : DWord} {jmps : List (JmpHookEntry × DWord)} {calls : List CallHookEntry}
    {nops : List NopPatchEntry} {p : Patch} (h : p ∈ patches base jmps calls nops) : p.2.length ≤ 2 ^ 32 := by
  obtain (h | h) | h := (List.mem_append.mp h).imp_left List.mem_append.mp
  case inl.inl =>
    obtain ⟨⟨e, c⟩, _, hp⟩ := List.mem_flatMap.mp h
    have : e.stolenBytes.length < 2 ^ 31 := e.stolenCount_lt
    cases hp
    case head    => rw [trampoline_length]; omega
    case tail hp =>
      have hl : p.2.length = max 5 e.stolenBytes.length :=
        (congrArg (List.length ∘ Prod.snd) <| List.mem_singleton.mp hp).trans JmpHookEntry.sitePatch_length
      omega
  case inl.inr =>
    obtain ⟨e, _, hp⟩ := List.mem_flatMap.mp h
    rw [List.mem_singleton.mp hp]
    simp [callTo, Code.callRel]
  case inr     =>
    obtain ⟨e, _, hp⟩ := List.mem_flatMap.mp h
    have := e.count_lt
    rw [List.mem_singleton.mp hp, List.length_replicate]
    omega

omit h in
theorem allWrites_length {dlls : List Dll} {p : Patch} (hp : p ∈ allWrites fn enableTersafe base code dlls) :
    p.2.length ≤ 2 ^ 32 :=
  have ⟨k, _, hp⟩ := List.mem_flatMap.mp hp
  patches_length <| (writes_perm k).mem_iff.mp hp

-- The entries of a library are installed after all others.
theorem patch_allWrites (k : Dll) : ∃ m', m.patch (allWrites fn enableTersafe base code Dll.all) =
    Memory.patch m' (tablePatches fn enableTersafe (base k) (code k) k) := by
  have ⟨l₁, l₂, he⟩ := List.append_of_mem k.mem_all
  have hp : (allWrites fn enableTersafe base code Dll.all).Perm
      (allWrites fn enableTersafe base code (l₁ ++ l₂) ++
        tablePatches fn enableTersafe (base k) (code k) k) := by
    rw [he]
    refine (List.perm_middle.flatMap_right _).trans <| List.perm_append_comm.trans ?_
    exact (writes_perm k).append_left _
  exact ⟨_, (patch_perm hp <| allWrites_pairwise h <| by decide).trans patch_append⟩

theorem hooked (m : Memory) :
    Hooked fn enableTersafe base code m (m.patch <| allWrites fn enableTersafe base code Dll.all) := by
  have hi (k : Dll) : ∃ m', Installed (base k) (withCode (code k) 0 (tables fn enableTersafe k).jmps)
      (tables fn enableTersafe k).calls (tables fn enableTersafe k).nops m'
      (m.patch <| allWrites fn enableTersafe base code Dll.all) := by
    have ⟨m', he⟩ := patch_allWrites (m := m) h k
    rw [he]
    exact ⟨m', patch_installed (fun _ _ => jmps_stolen) (regions_pairwise h)⟩
  constructor
  case sound => exact fun k => tables_sound ..
  case jmp   =>
    intro k p hp
    have ⟨_, hi⟩ := hi k
    have hm : (p.1, code k p.2) ∈ withCode (code k) 0 (tables fn enableTersafe k).jmps :=
      List.mem_map_of_mem hp
    exact hi.jmp _ _ hm
  case call  =>
    intro k e he
    have ⟨_, hi⟩ := hi k
    exact hi.call e he
  case nop   =>
    intro k e he
    have ⟨_, hi⟩ := hi k
    exact hi.nop e he
  case frame =>
    intro x hp hs
    refine patch_eqOn (s := {x}) (fun p hm => Set.disjoint_singleton_left.mpr fun hx => ?_) rfl
    have ⟨k, _, hm⟩ := List.mem_flatMap.mp hm
    have hr : _ ∈ tableRegions fn enableTersafe base code k := writes_range hm
    cases List.mem_append.mp <| regions_perm.mem_iff.mp hr
    case inl hr =>
      have ⟨q, hq, he⟩ := List.mem_map.mp hr
      exact hp k q hq <| he ▸ hx
    case inr hr =>
      have ⟨q, hq, he⟩ := List.mem_map.mp hr
      exact hs k q hq <| he ▸ hx

end Disjoint

end Hooked

-- The installers run in threads of their own. However their writes are interleaved, byte by byte, all hooks
-- are installed, as if one installer ran after the other.
theorem hooks_installed (fn : Callback → DWord) (enableTersafe : Bool) (base : Dll → DWord)
    (code : Dll → Nat → DWord) (m : Memory) (h : Separated fn enableTersafe base code) (ws : List Patch)
    (hw : ws.Perm ((Dll.all.flatMap fun k => writes fn enableTersafe (base k) (code k) k).flatMap
      Patch.bytewise)) :
    Hooked fn enableTersafe base code m (m.patch ws) ∧
    m.patch ws = Dll.all.foldl (fun m k => installHooks fn enableTersafe (base k) (code k) m k) m := by
  have hp : m.patch ws = m.patch (allWrites fn enableTersafe base code Dll.all) :=
    patch_bytewise_perm hw (fun _ => allWrites_length) <| allWrites_pairwise h <| by decide
  rw [hp]
  refine ⟨hooked h m, Eq.symm ?_⟩
  exact foldl_eq_patch (g := fun k => writes fn enableTersafe (base k) (code k) k)
    fun _ k _ => installHooks_eq k

section Example

def Dll.index : Dll → Nat
  | .mhoclient       => 0
  | .crygame         => 1
  | .protocalhandler => 2
  | .tenproxy        => 3

def exampleBase : Dll → DWord
  | .mhoclient       => 0x400000
  | .crygame         => 0x10000000
  | .protocalhandler => 0x20000000
  | .tenproxy        => 0x30000000

def exampleCode (dll : Dll) (i : Nat) : DWord :=
  0x40000000 + BitVec.ofNat 32 (0x100 * (64 * dll.index + i))

theorem Dll.index_lt (dll : Dll) : dll.index < 4 := by
  cases dll <;> decide

theorem Dll.index_injective {k l : Dll} (h : k.index = l.index) : k = l := by
  cases k <;> cases l <;> first | rfl | contradiction

theorem entries_bounds :
    ∀ b, ∀ k ∈ Dll.all, ∀ p ∈ entries (fun _ => 0) b k, p.2 < 64 ∧ p.1.stolenCount ≤ 200 := by
  decide +kernel

theorem example_separated : Separated (fun _ => 0) true exampleBase exampleCode where
  images k l hn := by
    cases k <;> cases l <;> first
      | contradiction
      | exact range_disjoint (by decide) (by decide)
      | exact (range_disjoint (by decide) (by decide)).symm
  pages k l p hp q hq hn := by
    have ⟨hi, hs⟩ := entries_bounds true k k.mem_all p hp
    have ⟨hj, ht⟩ := entries_bounds true l l.mem_all q hq
    have hk := k.index_lt
    have hl := l.index_lt
    have hne : 64 * k.index + p.2 ≠ 64 * l.index + q.2 := fun he => by
      have := Dll.index_injective (k := k) (l := l) (by omega)
      subst this
      exact hn <| congrArg (Prod.mk k) (by omega)
    cases Nat.lt_or_gt_of_ne hne
    case inl h => exact range_add_disjoint (by omega) (by omega)
    case inr h => exact (range_add_disjoint (by omega) (by omega)).symm
  apart k l p hp := by
    have ⟨hi, hs⟩ := entries_bounds true k k.mem_all p hp
    have hk := k.index_lt
    have hc : (exampleCode k p.2).toNat = 0x40000000 + 0x100 * (64 * k.index + p.2) := by
      rw [exampleCode, BitVec.toNat_add, BitVec.toNat_ofNat]
      simp
      omega
    have hb : (exampleBase l).toNat + extent l ≤ 0x40000000 := by
      cases l <;> decide
    exact (range_disjoint (by omega) (by omega)).symm

-- All bytes are written in the reverse order.
theorem hooks_installed_reverse :
    let ws := (Dll.all.flatMap fun k => writes (fun _ => 0) true (exampleBase k) (exampleCode k) k).flatMap
      Patch.bytewise
    Hooked (fun _ => 0) true exampleBase exampleCode (fun _ => 0) (Memory.patch (fun _ => 0) ws.reverse) :=
  (hooks_installed _ true _ _ _ example_separated _ (List.reverse_perm _)).left

end Example

end HookTable
