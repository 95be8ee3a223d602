import Mathlib
import MhoLauncher.HookTable.Install
import MhoLauncher.Library.X86.Relocate

open Bytes Memory X86

namespace HookTable

-- The functions that the hooks lead to. A thunk of the client's handlers carries the address of its handler.
inductive Callback
  | onClientLog
  | cbMho (funcVa : DWord)
  | onTenproxyLog
  | performTpduDecryption
  | performTpduEncryption
  | aesKeyExpansion
  | protocalhandlerLog
  | onTersafeVt1Wrapper
  | onTersafeVt3Wrapper
  | onTersafeSlot30
  | onPreDispatch
  | onProtocolHandlerRecvMsg
  | onProtocolDispatchEntry
  | onRegisterHandler
  | onCallHandler
  | onMonsterAppearSingle
  | onMonsterAppearList
  | onControlledMonsterAppear
  | onSpawnMonsters
  | onEntityJoinWrapper
  | onSetMonsterInfo
  | onGetMonsterInfo
  | onInitFromAppear
  | onSetPosition
  | onBtobjSimpleLocomotion
  | onMonsterAiSkill
  | onLogNotification
  | onStaticdataInit
  | onStaticdataSet
  | onLevelLoad
  | onStartupInit
  | onLoadData
  | onCmdDispatchSwitch
  | onDispatchCmd641
  | onDispatchCmd648
  | onDispatchCmd651
  | onBbReadSteeringProperties
  | onPathC1Vt5Call

section Tables

variable (fn : Callback → DWord)

def mhoclientJmpHooks : List JmpHookEntry := [
  ⟨0x3E0F06, fn .onClientLog, [0x8B, 0xE5, 0x5D, 0xC2, 0x0C, 0x00], by decide⟩
]

def mhoclientNops : List NopPatchEntry := [
  ⟨0x3E0C82, 6, by decide⟩
]

def crygameTersafeJmpHooks : List JmpHookEntry := [
  ⟨0x45DA50, fn .onTersafeVt1Wrapper, [0x8B, 0xC1, 0x8B, 0x88, 0x4C, 0x03, 0x10, 0x00], by decide⟩,
  ⟨0x45DBC0, fn .onTersafeVt3Wrapper, [0x55, 0x8B, 0xEC, 0x83, 0xEC, 0x10], by decide⟩,
  ⟨0x45A090, fn .onTersafeSlot30, [0x55, 0x8B, 0xEC, 0x83, 0xE4, 0xF8], by decide⟩,
  ⟨0xF0955D, fn .onPreDispatch, [0x55, 0x8B, 0xEC, 0x83, 0xEC, 0x1C], by decide⟩
]

def crygameJmpHooks : List JmpHookEntry := [
  ⟨0x12408f0, fn .onProtocolHandlerRecvMsg, [0x55, 0x8B, 0xEC, 0x56, 0x8B, 0x71, 0x04], by decide⟩,
  ⟨0x12230c0, fn .onProtocolDispatchEntry, [0x55, 0x8B, 0xEC, 0x8B, 0x45, 0x0C, 0x53, 0x56, 0x57], by decide⟩,
  ⟨0x1223631, fn .onRegisterHandler, [0x8B, 0xEC, 0x8B, 0x41, 0x0C], by decide⟩,
  ⟨0x1223148, fn .onCallHandler, [0xFF, 0x75, 0x0C, 0x8B, 0x01], by decide⟩,
  ⟨0x12a5580, fn .onMonsterAppearSingle, [0x55, 0x8B, 0xEC, 0x83, 0xEC, 0x1C, 0x57, 0x8B, 0xF9], by decide⟩,
  ⟨0x12a3ac0, fn .onMonsterAppearList, [0x55, 0x8B, 0xEC, 0x83, 0xEC, 0x10, 0x53, 0x57, 0x8B, 0xF9],
    by decide⟩,
  ⟨0x129f8b0, fn .onControlledMonsterAppear, [0x55, 0x8B, 0xEC, 0x83, 0xEC, 0x44, 0x53, 0x56, 0x8B, 0xF1],
    by decide⟩,
  ⟨0x12a2e10, fn .onSpawnMonsters, [0x55, 0x8B, 0xEC, 0x83, 0xEC, 0x1C], by decide⟩,
  ⟨0x12ad180, fn .onEntityJoinWrapper, [0x55, 0x8B, 0xEC, 0xFF, 0x75, 0x08], by decide⟩,
  ⟨0x13a3da0, fn .onSetMonsterInfo, [0x55, 0x8B, 0xEC, 0x8B, 0x45, 0x08], by decide⟩,
  ⟨0x13a23b0, fn .onGetMonsterInfo, [0x8B, 0x81, 0x50, 0x12, 0x00, 0x00, 0x85, 0xC0], by decide⟩,
  ⟨0x13a3720, fn .onInitFromAppear,
    [0x55, 0x8B, 0xEC, 0x83, 0xEC, 0x10, 0x53, 0x8B, 0x5D, 0x08, 0x56, 0x57, 0x8B, 0xF9], by decide⟩,
  ⟨0x146b830, fn .onSetPosition, [0x55, 0x8B, 0xEC, 0x8B, 0x55, 0x08], by decide⟩,
  ⟨0x1289a00, fn .onBtobjSimpleLocomotion, [0x55, 0x8B, 0xEC, 0x8B, 0x01, 0x83, 0xEC, 0x2C], by decide⟩,
  ⟨0x12e3bec, fn .onMonsterAiSkill, [0x8B, 0x4D, 0x08, 0x8B, 0x10, 0xFF, 0x71, 0x04], by decide⟩,
  ⟨0x50ab31, fn .onLogNotification, [0x8B, 0xEC, 0x83, 0xEC, 0x18], by decide⟩,
  ⟨0x1679c40, fn .onStaticdataInit, [0x55, 0x8B, 0xEC, 0x56, 0x8B, 0x75, 0x10], by decide⟩,
  ⟨0x1679cc0, fn .onStaticdataSet, [0x55, 0x8B, 0xEC, 0x83, 0x3D, 0x6C, 0x7C, 0x38, 0x12, 0x00], by decide⟩,
  ⟨0x0c3f520, fn .onLevelLoad, [0x55, 0x8B, 0xEC, 0x51, 0x53], by decide⟩,
  ⟨0x0b7ffd0, fn .onStartupInit, [0x55, 0x8B, 0xEC, 0x81, 0xEC, 0xE0, 0x0B, 0x00, 0x00], by decide⟩,
  ⟨0x169ed30, fn .onLoadData, [0x55, 0x8B, 0xEC, 0x56, 0x8B, 0xF1], by decide⟩,
  ⟨0x65ede0, fn .onCmdDispatchSwitch, [0x55, 0x8B, 0xEC, 0x8B, 0x49, 0x3C], by decide⟩,
  ⟨0x621040, fn .onDispatchCmd641, [0x55, 0x8B, 0xEC, 0x53, 0x56], by decide⟩,
  ⟨0x621660, fn .onDispatchCmd648, [0x55, 0x8B, 0xEC, 0x53, 0x56], by decide⟩,
  ⟨0x6217b0, fn .onDispatchCmd651, [0x55, 0x8B, 0xEC, 0x53, 0x56], by decide⟩,
  ⟨0xBA8B60, fn .onBbReadSteeringProperties, [0x55, 0x8B, 0xEC, 0x81, 0xEC, 0xA0, 0x02, 0x00, 0x00],
    by decide⟩,
  ⟨0xBA92CC, fn .onPathC1Vt5Call, [0x8B, 0x01, 0x53, 0xFF, 0x50, 0x14], by decide⟩
]

def mhoHandlerJmpHooks : List JmpHookEntry := [
  ⟨0x00480450, fn (.cbMho 0x00880450), [0x55, 0x8B, 0xEC, 0x51, 0xA1, 0xB4, 0x00, 0xE1, 0x01], by decide⟩,
  ⟨0x004905B0, fn (.cbMho 0x008905B0), [0x55, 0x8B, 0xEC, 0x51, 0x53], by decide⟩,
  ⟨0x00490760, fn (.cbMho 0x00890760), [0x55, 0x8B, 0xEC, 0x83, 0xEC, 0x10], by decide⟩,
  ⟨0x0049BDC0, fn (.cbMho 0x0089BDC0), [0x55, 0x8B, 0xEC, 0x83, 0xEC, 0x5C], by decide⟩,
  ⟨0x0049FA20, fn (.cbMho 0x0089FA20), [0x55, 0x8B, 0xEC, 0x81, 0xEC, 0x8C, 0x00, 0x00, 0x00], by decide⟩,
  ⟨0x004A04F0, fn (.cbMho 0x008A04F0), [0x55, 0x8B, 0xEC, 0x83, 0xEC, 0x14], by decide⟩,
  ⟨0x004A0C50, fn (.cbMho 0x008A0C50), [0x55, 0x8B, 0xEC, 0x83, 0xEC, 0x0C], by decide⟩,
  ⟨0x004A4970, fn (.cbMho 0x008A4970), [0x55, 0x8B, 0xEC, 0x81, 0xEC, 0x88, 0x00, 0x00, 0x00], by decide⟩,
  ⟨0x004A6670, fn (.cbMho 0x008A6670), [0x55, 0x8B, 0xEC, 0x83, 0xEC, 0x54], by decide⟩,
  ⟨0x004A6D40, fn (.cbMho 0x008A6D40), [0x55, 0x8B, 0xEC, 0x51, 0x56], by decide⟩,
  ⟨0x004A7030, fn (.cbMho 0x008A7030), [0x55, 0x8B, 0xEC, 0x83, 0xEC, 0x0C], by decide⟩,
  ⟨0x004B66C0, fn (.cbMho 0x008B66C0), [0x55, 0x8B, 0xEC, 0x83, 0xEC, 0x30], by decide⟩,
  ⟨0x004B7120, fn (.cbMho 0x008B7120), [0x55, 0x8B, 0xEC, 0x83, 0xEC, 0x24], by decide⟩,
  ⟨0x004B74A0, fn (.cbMho 0x008B74A0), [0x55, 0x8B, 0xEC, 0x83, 0xEC, 0x18], by decide⟩,
  ⟨0x004B7660, fn (.cbMho 0x008B7660), [0x55, 0x8B, 0xEC, 0x83, 0xEC, 0x24], by decide⟩,
  ⟨0x004BB990, fn (.cbMho 0x008BB990), [0x55, 0x8B, 0xEC, 0x83, 0xEC, 0x0C], by decide⟩,
  ⟨0x004C49D0, fn (.cbMho 0x008C49D0), [0x55, 0x8B, 0xEC, 0x83, 0xEC, 0x0C], by decide⟩,
  ⟨0x004C4CD0, fn (.cbMho 0x008C4CD0), [0x55, 0x8B, 0xEC, 0x83, 0xEC, 0x1C], by decide⟩,
  ⟨0x004C4EE0, fn (.cbMho 0x008C4EE0), [0x55, 0x8B, 0xEC, 0x83, 0xEC, 0x10], by decide⟩,
  ⟨0x004D11F0, fn (.cbMho 0x008D11F0), [0x55, 0x8B, 0xEC, 0x81, 0xEC, 0xA8, 0x01, 0x00, 0x00], by decide⟩,
  ⟨0x004D6E00, fn (.cbMho 0x008D6E00), [0x55, 0x8B, 0xEC, 0x81, 0xEC, 0x2C, 0x0C, 0x00, 0x00], by decide⟩,
  ⟨0x004D9DB0, fn (.cbMho 0x008D9DB0), [0x55, 0x8B, 0xEC, 0x81, 0xEC, 0x20, 0x02, 0x00, 0x00], by decide⟩,
  ⟨0x004DD8E0, fn (.cbMho 0x008DD8E0), [0x55, 0x8B, 0xEC, 0x81, 0xEC, 0x98, 0x00, 0x00, 0x00], by decide⟩,
  ⟨0x004DF2D0, fn (.cbMho 0x008DF2D0), [0x55, 0x8B, 0xEC, 0x83, 0xEC, 0x3C], by decide⟩,
  ⟨0x004E40B0, fn (.cbMho 0x008E40B0), [0x55, 0x8B, 0xEC, 0x83, 0xEC, 0x34], by decide⟩,
  ⟨0x004E7250, fn (.cbMho 0x008E7250), [0x55, 0x8B, 0xEC, 0x83, 0xEC, 0x70], by decide⟩,
  ⟨0x004E84D0, fn (.cbMho 0x008E84D0), [0x55, 0x8B, 0xEC, 0x81, 0xEC, 0x08, 0x01, 0x00, 0x00], by decide⟩,
  ⟨0x004E9040, fn (.cbMho 0x008E9040), [0x55, 0x8B, 0xEC, 0x51, 0x53], by decide⟩,
  ⟨0x004EA5F0, fn (.cbMho 0x008EA5F0), [0x55, 0x8B, 0xEC, 0x53, 0x56], by decide⟩,
  ⟨0x004EB960, fn (.cbMho 0x008EB960), [0x55, 0x8B, 0xEC, 0x8B, 0x4D, 0x08], by decide⟩,
  ⟨0x004EE3C0, fn (.cbMho 0x008EE3C0), [0x55, 0x8B, 0xEC, 0x8B, 0x55, 0x08], by decide⟩,
  ⟨0x004EFD40, fn (.cbMho 0x008EFD40), [0x55, 0x8B, 0xEC, 0x81, 0xEC, 0xA4, 0x00, 0x00, 0x00], by decide⟩,
  ⟨0x004F4040, fn (.cbMho 0x008F4040), [0x55, 0x8B, 0xEC, 0xA1, 0xB4, 0x00, 0xE1, 0x01], by decide⟩,
  ⟨0x004F4C30, fn (.cbMho 0x008F4C30), [0x55, 0x8B, 0xEC, 0x83, 0xEC, 0x10], by decide⟩,
  ⟨0x004F9630, fn (.cbMho 0x008F9630), [0x55, 0x8B, 0xEC, 0x81, 0xEC, 0x74, 0x01, 0x00, 0x00], by decide⟩,
  ⟨0x004FBF50, fn (.cbMho 0x008FBF50), [0x55, 0x8B, 0xEC, 0x81, 0xEC, 0xA4, 0x00, 0x00, 0x00], by decide⟩,
  ⟨0x004E5130, fn (.cbMho 0x008E5130), [0x55, 0x8B, 0xEC, 0x83, 0xEC, 0x68], by decide⟩,
  ⟨0x004E49E0, fn (.cbMho 0x008E49E0), [0x55, 0x8B, 0xEC, 0x83, 0xEC, 0x08], by decide⟩,
  ⟨0x00493F90, fn (.cbMho 0x00893F90), [0x55, 0x8B, 0xEC, 0xA1, 0xB4, 0x00, 0xE1, 0x01], by decide⟩
]

def decryptionHooks : List CallHookEntry := [
  ⟨0x36002, fn .performTpduDecryption⟩,
  ⟨0x360FE, fn .performTpduDecryption⟩,
  ⟨0x74AD3, fn .performTpduDecryption⟩,
  ⟨0x74F7F, fn .performTpduDecryption⟩,
  ⟨0x75336, fn .performTpduDecryption⟩,
  ⟨0x75508, fn .performTpduDecryption⟩,
  ⟨0x75651, fn .performTpduDecryption⟩
]

def encryptionHooks : List CallHookEntry := [
  ⟨0x36FAB, fn .performTpduEncryption⟩,
  ⟨0x742A2, fn .performTpduEncryption⟩,
  ⟨0x74661, fn .performTpduEncryption⟩,
  ⟨0x75B70, fn .performTpduEncryption⟩,
  ⟨0x76069, fn .performTpduEncryption⟩
]

def aesHooks : List CallHookEntry := [
  ⟨0x88CB0, fn .aesKeyExpansion⟩,
  ⟨0x8B1E1, fn .aesKeyExpansion⟩,
  ⟨0x8B50B, fn .aesKeyExpansion⟩
]

def logHooks : List CallHookEntry := [
  ⟨0x39171, fn .protocalhandlerLog⟩,
  ⟨0x39141, fn .protocalhandlerLog⟩,
  ⟨0x390B1, fn .protocalhandlerLog⟩,
  ⟨0x390E1, fn .protocalhandlerLog⟩,
  ⟨0x3910E, fn .protocalhandlerLog⟩,
  ⟨0x391A1, fn .protocalhandlerLog⟩,
  ⟨0x38F2E, fn .protocalhandlerLog⟩,
  ⟨0x38F61, fn .protocalhandlerLog⟩,
  ⟨0x38F04, fn .protocalhandlerLog⟩,
  ⟨0x123F1, fn .protocalhandlerLog⟩,
  ⟨0x12391, fn .protocalhandlerLog⟩,
  ⟨0x123C1, fn .protocalhandlerLog⟩,
  ⟨0x1CC61, fn .protocalhandlerLog⟩,
  ⟨0x38FBE, fn .protocalhandlerLog⟩,
  ⟨0x39021, fn .protocalhandlerLog⟩,
  ⟨0x38F91, fn .protocalhandlerLog⟩,
  ⟨0x3907E, fn .protocalhandlerLog⟩,
  ⟨0x208D1, fn .protocalhandlerLog⟩,
  ⟨0x39051, fn .protocalhandlerLog⟩,
  ⟨0x38FF1, fn .protocalhandlerLog⟩,
  ⟨0x1CC91, fn .protocalhandlerLog⟩,
  ⟨0xC921, fn .protocalhandlerLog⟩,
  ⟨0xC551, fn .protocalhandlerLog⟩,
  ⟨0x83F1, fn .protocalhandlerLog⟩,
  ⟨0xA831, fn .protocalhandlerLog⟩,
  ⟨0x83C1, fn .protocalhandlerLog⟩
]

def tenproxyJmpHooks : List JmpHookEntry := [
  ⟨0xA143, fn .onTenproxyLog, [0x5F, 0x5E, 0x5B, 0x8B, 0xE5, 0x5D, 0xC2, 0x14, 0x00], by decide⟩
]

def tenproxyNops : List NopPatchEntry := [
  ⟨0xA0D3, 8, by decide⟩
]

-- The libraries that are hooked, each by a thread of its own. The client is hooked before the threads start.
inductive Dll
  | mhoclient
  | crygame
  | protocalhandler
  | tenproxy
  deriving DecidableEq

def Dll.all : List Dll :=
  [.mhoclient, .crygame, .protocalhandler, .tenproxy]

-- The entries for a library, in the order in which they are installed but for the kinds.
structure Tables where
  jmps  : List JmpHookEntry
  calls : List CallHookEntry
  nops  : List NopPatchEntry

def tables (enableTersafe : Bool) : Dll → Tables
  | .mhoclient       => ⟨mhoclientJmpHooks fn ++ mhoHandlerJmpHooks fn, [], mhoclientNops⟩
  | .crygame         => ⟨crygameJmpHooks fn ++ if enableTersafe then crygameTersafeJmpHooks fn else [], [], []⟩
  | .protocalhandler => ⟨[], decryptionHooks fn ++ encryptionHooks fn ++ aesHooks fn ++ logHooks fn, []⟩
  | .tenproxy        => ⟨tenproxyJmpHooks fn, [], tenproxyNops⟩

end Tables

section Sites

-- The offsets and the sizes of the sites.
def Tables.sites (t : Tables) : List (Nat × Nat) :=
  t.jmps.map (fun e => (e.offset.toNat, e.stolenCount)) ++ t.calls.map (fun e => (e.offset.toNat, 5)) ++
  t.nops.map (fun e => (e.offset.toNat, e.count))

def Apart (p q : Nat × Nat) : Prop :=
  p.1 + p.2 ≤ q.1 ∨ q.1 + q.2 ≤ p.1

instance : DecidableRel Apart :=
  fun _ _ => inferInstanceAs <| Decidable (_ ∨ _)

-- Where the sites of a library end.
def extent : Dll → Nat
  | .mhoclient       => 0x4FBF59
  | .crygame         => 0x169ED36
  | .protocalhandler => 0x8B510
  | .tenproxy        => 0xA14C

-- What the entries of a library have to satisfy.
structure Tables.Sound (t : Tables) (size : Nat) : Prop where
  apart  : t.sites.Pairwise Apart
  bounds : ∀ p ∈ t.sites, p.1 + p.2 ≤ size
  stolen : ∀ e ∈ t.jmps, 5 ≤ e.stolenCount ∧ Relocatable e.stolenBytes

variable (fn : Callback → DWord) (enableTersafe : Bool) (dll : Dll)

-- Neither the sites nor the stolen bytes depend on where the callbacks are.
theorem tables_sites : (tables fn enableTersafe dll).sites = (tables (fun _ => 0) enableTersafe dll).sites := by
  cases dll <;> cases enableTersafe <;> rfl

theorem tables_stolen : (tables fn enableTersafe dll).jmps.map JmpHookEntry.stolenBytes =
    (tables (fun _ => 0) enableTersafe dll).jmps.map JmpHookEntry.stolenBytes := by
  cases dll <;> cases enableTersafe <;> rfl

theorem sites_apart : ∀ b, ∀ k ∈ Dll.all, (tables (fun _ => 0) b k).sites.Pairwise Apart := by
  decide +kernel

theorem sites_bounds : ∀ b, ∀ k ∈ Dll.all, ∀ p ∈ (tables (fun _ => 0) b k).sites, p.1 + p.2 ≤ extent k := by
  decide +kernel

theorem stolen_relocates : ∀ b, ∀ k ∈ Dll.all,
    ∀ s ∈ (tables (fun _ => 0) b k).jmps.map JmpHookEntry.stolenBytes, 5 ≤ s.length ∧ relocates s.length s := by
  decide +kernel

theorem Dll.mem_all : dll ∈ Dll.all := by
  cases dll <;> decide

theorem tables_sound : (tables fn enableTersafe dll).Sound (extent dll) where
  apart  := tables_sites .. ▸ sites_apart _ _ dll.mem_all
  bounds := tables_sites .. ▸ sites_bounds _ _ dll.mem_all
  stolen := by
    intro e he
    have hs : e.stolenBytes ∈ (tables (fun _ => 0) enableTersafe dll).jmps.map JmpHookEntry.stolenBytes :=
      tables_stolen fn enableTersafe dll ▸ List.mem_map_of_mem he
    have ⟨hl, hr⟩ := stolen_relocates _ _ dll.mem_all _ hs
    exact ⟨hl, .of_relocates hr⟩

end Sites

end HookTable
