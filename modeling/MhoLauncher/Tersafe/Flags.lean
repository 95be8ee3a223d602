import MhoLauncher.HookTable.Trampoline
import MhoLauncher.Library.X86.Flags
import MhoLauncher.Tersafe.Transparency

open Bytes Memory X86

namespace HookTable

variable (site code returnAddr : DWord) (stolen : List Byte) (callback : DWord)

-- The processor is at a hooked instruction, which was replaced by a jump to the trampoline. The stack does not
-- overlap the trampoline.
structure AtSite (s : State) : Prop where
  eip    : s.eip = site
  jmp    : s.memory.Loaded site (Code.jmpRel <| code - (site + 5)).bytes
  loaded : s.memory.Loaded code (trampoline code returnAddr stolen callback)
  stack  : Disjoint (range code (21 + stolen.length)) (below s.regs.esp 40)

-- The flags at the hook site that a callback which returns in state `s₂` leaves for the stolen bytes: the
-- status flags are those that `add esp, 4` sets, and the callback does not change the others.
structure FlagsSurvive (s s₂ : State) : Prop where
  status : s.eflags &&& statusFlags = addFlags 0 (s.regs.esp - 36) 4
  others : s₂.eflags &&& ~~~statusFlags = s.eflags &&& ~~~statusFlags

-- All callbacks return to the epilogue, which gets to the stolen bytes in a state with a given property.
def ReachesStolen (P : State → State → State → Prop) : Prop :=
  ∀ s, AtSite site code returnAddr stolen callback s →
    ∃ s₁, Steps (insert site <| range code 12) s s₁ ∧ s₁.regs.esp = s.regs.esp - 40 ∧
      EntersCallback code callback { s with eip := code } s₁ ∧
      ∀ s₂, Cdecl (range code (21 + stolen.length)) s₁ s₂ →
        ∃ s₃, Runs (range (epilogueAddr code) 4) s₂ s₃ ∧ s₃.eip = stolenAddr code ∧ P s s₂ s₃

variable {site code returnAddr stolen callback} {s s₁ s₂ : State}

theorem AtSite.step (h : AtSite site code returnAddr stolen callback s) :
    step s = some { s with eip := code } := by
  have ⟨he, hj, _, _⟩ := h
  rw [←he] at hj
  exact step_jmpRel hj

-- The flags that the stolen bytes see.
theorem AtSite.returns (hs : AtSite site code returnAddr stolen callback s) (hx : s₁.regs.esp = s.regs.esp - 40)
    (hc : EntersCallback code callback { s with eip := code } s₁)
    (hr : Cdecl (range code (21 + stolen.length)) s₁ s₂) :
    ∃ s₃, Runs (range (epilogueAddr code) 4) s₂ s₃ ∧ s₃.eip = stolenAddr code ∧
      s₃.eflags = addFlags s₂.eflags (s.regs.esp - 36) 4 := by
  have hn := trampoline_length code returnAddr stolen callback
  have hl : s₁.memory.Loaded code (trampoline code returnAddr stolen callback) := by
    refine hs.loaded.congr <| hc.memory.mono <| Set.subset_compl_iff_disjoint_right.mpr ?_
    exact hn ▸ hs.stack
  have ⟨_, hl, _⟩ := loaded_parts <| hl.congr <| hn ▸ hr.memory
  have he : s₂.eip = epilogueAddr code := hr.eip.trans hc.ret
  have hx : s₂.regs.esp = s.regs.esp - 36 := by
    rw [hr.esp, hx]
    bv_omega
  have hs₃ : (exec epilogue s₂).eip = stolenAddr code := by
    rw [exec_epilogue, he, epilogueAddr, stolenAddr]
    bv_omega
  refine ⟨exec epilogue s₂, Steps.runs ?_ ?_, hs₃, ?_⟩
  · rw [←he] at hl ⊢
    exact .block hl subset_rfl ⟨rfl, fun _ _ => rfl, trivial⟩
  · rw [hs₃, mem_range, epilogueAddr, stolenAddr]
    bv_omega
  · rw [exec_epilogue, hx]

theorem AtSite.enters (hs : AtSite site code returnAddr stolen callback s) :
    ∃ s₁, Steps (insert site <| range code 12) s s₁ ∧ s₁.regs.esp = s.regs.esp - 40 ∧
      EntersCallback code callback { s with eip := code } s₁ := by
  let s₀ : State := { s with eip := code }
  have hd : Disjoint (range code 12) (below s₀.regs.esp 40) := hs.stack.mono_left <| range_subset <| by omega
  refine ⟨exec (prologue callback) s₀, ?_, ?_, prologue_entersCallback code callback rfl⟩
  · refine .head (hs.eip ▸ Set.mem_insert ..) hs.step ?_
    have hp : Steps (range s₀.eip 12) s₀ (exec (prologue callback) s₀) :=
      .block (loaded_parts hs.loaded).left subset_rfl <| keeps_prologue callback hd
    exact hp.mono <| Set.subset_insert ..
  · rw [exec_prologue]
    rfl

theorem reachesStolen_iff :
    ReachesStolen site code returnAddr stolen callback fun s s₂ s₃ =>
      s₃.eflags = s.eflags ↔ FlagsSurvive s s₂ := by
  intro s hs
  have ⟨s₁, h₁, hx, hc⟩ := hs.enters
  refine ⟨s₁, h₁, hx, hc, fun s₂ hr => ?_⟩
  have ⟨s₃, h₃, he, hf⟩ := hs.returns hx hc hr
  refine ⟨s₃, h₃, he, ?_⟩
  show s₃.eflags = s.eflags ↔ FlagsSurvive s s₂
  rw [hf, addFlags_eq_iff]
  exact ⟨fun h => ⟨h.left, h.right⟩, fun h => ⟨h.status, h.others⟩⟩

end HookTable

namespace Tersafe

-- All observers return to a trampoline that enters the real method with the flags of its caller.
def Trampoline.KeepsFlags (t : Trampoline) : Prop :=
  ∀ s p, t.IsCalled s → t.own ∪ below (s.regs.esp + 4) 40 ⊆ p →
    ∃ s₁, Steps t.addrs s s₁ ∧ t.EntersBefore s s₁ ∧
      ∀ s₂, Cdecl p s₁ s₂ →
        ∃ s₃, Steps t.addrs s₂ s₃ ∧ s₃.eip = s.memory.dword t.real ∧ s₃.eflags = s.eflags

theorem Trampoline.Transparent.keepsFlags {t : Trampoline} (h : t.Transparent) : t.KeepsFlags := by
  intro s p hs hp
  have ⟨s₁, h₁, hb, hr⟩ := h s p hs hp
  refine ⟨s₁, h₁, hb, fun s₂ h₂ => ?_⟩
  have ⟨s₃, h₃, he, _⟩ := hr s₂ h₂
  exact ⟨s₃, h₃, he.eip, he.eflags⟩

open HookTable

theorem flags_survive_iff (g : Globals) (tramp : DWord) (m : Memory) :
    (∀ site returnAddr stolen callback, 21 + stolen.length ≤ 2 ^ 32 →
      generateTrampoline m (some tramp) returnAddr stolen callback =
        (m.write tramp <| trampoline tramp returnAddr stolen callback, tramp) ∧
      ReachesStolen site tramp returnAddr stolen callback fun s s₂ s₃ =>
        s₃.eflags = s.eflags ↔ FlagsSurvive s s₂) ∧
    (∀ slot < NUM_SLOTS,
      let t := vtTrampoline g tramp slot
      (writeTrampoline tramp (emitVtTrampoline g slot) m).Loaded tramp t.code ∧ (t.Placed → t.KeepsFlags)) ∧
    (∀ sub < NUM_SUBS, ∀ slot < SUB_SLOTS,
      let t := subTrampoline g tramp sub slot
      (writeTrampoline tramp (emitSubTrampoline g sub slot) m).Loaded tramp t.code ∧ (t.Placed → t.KeepsFlags)) :=
  ⟨fun _ _ _ _ h => ⟨generateTrampoline_eq _ _ _ _ _ h, reachesStolen_iff⟩,
    fun slot _ => ⟨vtTrampoline_loaded g tramp slot m, fun h => (Trampoline.transparent h).keepsFlags⟩,
    fun sub _ slot _ =>
      ⟨subTrampoline_loaded g tramp sub slot m, fun h => (Trampoline.transparent h).keepsFlags⟩⟩

-- The stolen bytes follow a comparison of two equal numbers. The zero flag is lost, whatever the callback does.
theorem flags_do_not_survive :
    ¬ReachesStolen 0x400100 0x10000 0x400105 [0x74, 0x10, 0x90, 0x90, 0x90] 0x600000 fun s _ s₃ =>
      s₃.eflags = s.eflags := by
  let bs := trampoline 0x10000 0x400105 [0x74, 0x10, 0x90, 0x90, 0x90] 0x600000
  let jmp := (Code.jmpRel <| 0x10000 - (0x400100 + 5)).bytes
  let m := Memory.write (fun _ => 0) 0x10000 bs
  let s : State := ⟨⟨1, 2, 3, 4, 0x200000, 6, 7, 8⟩, 0x400100, 0x242, m.write 0x400100 jmp⟩
  have hn : bs.length = 26 := rfl
  have hs : AtSite 0x400100 0x10000 0x400105 [0x74, 0x10, 0x90, 0x90, 0x90] 0x600000 s := by
    constructor
    case eip    => rfl
    case jmp    => exact loaded_write <| by decide
    case loaded =>
      have hl : m.Loaded 0x10000 bs := loaded_write <| by simp [hn]
      exact hl.congr <| write_eqOn <| range_disjoint (by simp [hn]) (by decide)
    case stack =>
      have hb : below s.regs.esp 40 = range 0x1FFFD8 40 := congrArg (range · 40) <| by decide
      rw [hb]
      exact range_disjoint (by simp) (by decide)
  intro h
  have ⟨s₁, _, hx, hc, hr⟩ := h s hs
  have ⟨s₃, h₃, _, hf⟩ := hr s₁.ret <| cdecl_ret _ _
  have ⟨s₃', h₃', _, hf'⟩ := hs.returns hx hc <| cdecl_ret _ _
  rw [h₃.unique h₃'] at hf
  have hz := (addFlags_eq_iff.mp <| hf'.symm.trans hf).left
  exact absurd hz <| by decide

end Tersafe
