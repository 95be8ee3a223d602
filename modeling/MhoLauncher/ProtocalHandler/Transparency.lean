import Mathlib
import MhoLauncher.ProtocalHandler.Tpdu

open Bytes Memory Traced

namespace ProtocalHandler

-- What the original function makes of a call. The `out` and `outlen` are what it leaves at the pointers
-- of its output.
structure Outcome where
  ret    : DWord
  memory : Memory
  out    : DWord
  outlen : DWord

section

variable {α : Type} (hook : Hook α DWord) (original : Original α) (args : α) (base : Args) (m : Memory)

def outcome : Outcome :=
  let (ret, memory) := original args m
  ⟨ret, memory, memory.dword base.outputBuffer, memory.dword base.outputBufferLength⟩

-- The hook calls the original function once with its own arguments, and its caller sees what the original
-- function did.
structure Transparent : Prop where
  calls  : calls (hook (m, [])).2.2 = [args]
  ret    : (hook (m, [])).1 = (outcome original args base m).ret
  memory : (hook (m, [])).2.1 = (outcome original args base m).memory

-- Whatever the hook reads through the output are bytes that a successful call has put there.
def SafeReads (length : DWord → Nat) : Prop :=
  let o := outcome original args base m
  ∀ x ∈ outputReads (hook (m, [])).2.2,
    o.ret = 0 ∧ o.out ≠ 0 ∧ ∃ i, x.1 = o.out + BitVec.ofNat 32 i ∧ i + x.2 ≤ length o.outlen

-- There is no dump, the call has succeeded with an output, or the dump has nothing to show.
def Harmless (logCrypto : Bool) (o : Outcome) : Prop :=
  logCrypto = false ∨ (o.ret = 0 ∧ o.out ≠ 0) ∨ o.outlen.toInt ≤ 0

end

section Parts

variable {α : Type} {m : Memory} {p q : DWord} {args : Args} {ret tid : DWord} {logCrypto : Bool}

theorem does_log {format : String} {l : List DWord} : Does m p ∅ (log format l : Hook α Unit) :=
  does_emit rfl rfl

-- Without reads the pointer does not matter.
theorem Does.rebase {h : Hook α Unit} (hd : Does m q ∅ h) : Does m p ∅ h := by
  obtain ⟨es, hy, ht⟩ := hd
  exact ⟨es, hy, ht.calls, fun x => by rw [ht.reads]; simp⟩

theorem does_show_input (size : Int) : Does m p ∅ («show» .inputBuffer q size : Hook α Unit) := by
  have hs : window .inputBuffer 0 size.toNat = ∅ := by simp [window]
  have hd : Does m q ∅ («show» .inputBuffer q size : Hook α Unit) := hs ▸ does_show size
  exact hd.rebase

theorem does_logCmd {format : String} {via : Source} {length apiHandle : DWord} :
    Does m p (window via 0 2) (logCmd format via p length apiHandle tid : Hook α Unit) := by
  have ht : Touches p (window via 0 2) ([.read via p 1, .read via (p + 1) 1] : List (Event α)) := by
    simpa [List.range_succ] using touches_readBytes 0 2
  refine ⟨_, yields_look.bind <| yields_look.bind yields_emit, ?_⟩
  rw [←Set.union_empty <| window via 0 2]
  exact ht.append <| .of_none rfl rfl .nil

theorem does_dumpEncrypted : Does m p ∅ (dumpEncrypted logCrypto args : Hook α Unit) := by
  unfold dumpEncrypted
  split
  case isTrue =>
    exact does_log.quiet <| .bind_look rfl rfl <| does_log.quiet <| does_log.quiet <| does_show_input _
  case isFalse => exact does_pure

theorem does_dumpPlain : Does m p ∅ (dumpPlain logCrypto args : Hook α Unit) := by
  unfold dumpPlain
  split
  case isTrue =>
    exact does_log.quiet <| does_log.quiet <| (does_show_input _).quiet <| .bind_look rfl rfl does_log
  case isFalse => exact does_pure

theorem does_captureApiHandle {gApiHandle : DWord} :
    Does m p ∅ (captureApiHandle gApiHandle args : Hook α Unit) := by
  unfold captureApiHandle
  split
  case isTrue  => exact (does_emit rfl rfl).quiet does_log
  case isFalse => exact does_pure

theorem does_summarizeSent : Does m p ∅ (summarizeSent tid args : Hook α Unit) := by
  unfold summarizeSent
  split
  case isTrue =>
    have hs : ∅ = window .inputBuffer 0 2 := by simp [window]
    refine Does.rebase (q := args.inputBuffer) ?_
    rw [hs]
    exact does_logCmd
  case isFalse => exact does_pure

-- The summary reads the command of a packet that a successful call has made.
theorem does_summarizeReceived (hp : m.dword args.outputBuffer = p) :
    ∃ is, Does m p is (summarizeReceived tid args ret : Hook α Unit) ∧
      ∀ i ∈ is, ret = 0 ∧ p ≠ 0 ∧ i < (m.dword args.outputBufferLength).toNat := by
  unfold summarizeReceived
  split
  case isFalse => exact ⟨∅, does_pure, by simp⟩
  case isTrue h =>
    by_cases hc : p ≠ 0 ∧ (m.dword args.outputBufferLength).toNat ≥ 4
    case pos =>
      refine ⟨window .output 0 2, .bind_look rfl rfl ?_, fun i hi => ⟨h.1, hc.1, by have := hi.2.2; omega⟩⟩
      rw [hp, if_pos hc.1]
      refine .bind_look rfl rfl ?_
      rw [if_pos hc.2]
      exact does_logCmd
    case neg =>
      refine ⟨∅, .bind_look rfl rfl ?_, by simp⟩
      rw [hp]
      split
      case isFalse => exact does_pure
      case isTrue hn =>
        refine .bind_look rfl rfl ?_
        rw [if_neg <| not_and.mp hc hn]
        exact does_pure

-- The dump reads the output whatever the call has returned.
theorem does_dumpOutput {name : String} (hp : m.dword args.outputBuffer = p) :
    Does m p {i | logCrypto = true ∧ (i : Int) < (m.dword args.outputBufferLength).toInt}
      (dumpOutput logCrypto name args ret : Hook α Unit) := by
  unfold dumpOutput
  split
  case isFalse h =>
    have hs : {i : Nat | logCrypto = true ∧ (i : Int) < (m.dword args.outputBufferLength).toInt} = ∅ := by
      simp [h]
    exact hs ▸ does_pure
  case isTrue h =>
    have hs : {i : Nat | logCrypto = true ∧ (i : Int) < (m.dword args.outputBufferLength).toInt} =
        window .output 0 (m.dword args.outputBufferLength).toInt.toNat ∪ ∅ := by
      ext i
      simp [window, h]
    rw [hs]
    refine .bind_look rfl rfl <| .bind_look rfl rfl <| does_log.quiet <| does_log.quiet ?_
    rw [hp]
    exact (does_show _).seq does_log

end Parts

section Wrapper

variable {α : Type} {original : Original α} {args : α} {base : Args} {m : Memory} {before : Hook α Unit}
variable {after : DWord → Hook α Unit} {is js : Set Nat}

-- A wrapper that does not touch the output before the call.
def wrap (original : Original α) (args : α) (before : Hook α Unit) (after : DWord → Hook α Unit) :
    Hook α DWord := do
  before
  let ret ← callOriginal original args
  after ret
  return ret

theorem wrap_run (hb : Does m (outcome original args base m).out ∅ before)
    (ha : Does (outcome original args base m).memory (outcome original args base m).out is
      (after (outcome original args base m).ret)) :
    Transparent (wrap original args before after) original args base m ∧
      ∀ x, x ∈ outputReads (wrap original args before after (m, [])).2.2 ↔
        ∃ i ∈ is, x = ((outcome original args base m).out + BitVec.ofNat 32 i, 1) := by
  obtain ⟨es, hy, ht⟩ := hb
  obtain ⟨fs, hy', ht'⟩ := ha
  let o := outcome original args base m
  have hr : wrap original args before after (m, []) = (o.ret, o.memory, es ++ [.call args] ++ fs) := by
    have hw : wrap original args before after (m, []) = (do
        let ret ← callOriginal original args
        after ret
        return ret : Hook α DWord) (before (m, [])).2 := rfl
    have hc : callOriginal original args (m, es) = (o.ret, o.memory, es ++ [.call args]) := rfl
    have ha : (do after o.ret; return o.ret : Hook α DWord) (o.memory, es ++ [.call args]) = _ :=
      (hy'.seq <| yields_pure o.ret) _
    rw [hw, hy, List.nil_append, ←List.append_nil fs]
    exact ha
  have hc : calls (es ++ [.call args] ++ fs) = [args] := by
    rw [calls_append, calls_append, ht.calls, ht'.calls]
    rfl
  have ho : outputReads (es ++ [.call args] ++ fs) = outputReads es ++ outputReads fs := by
    rw [outputReads_append, outputReads_append]
    exact congrArg (· ++ _) <| List.append_nil _
  refine ⟨⟨hr ▸ hc, hr ▸ rfl, hr ▸ rfl⟩, fun x => ?_⟩
  rw [hr, ho, List.mem_append, ht.reads, ht'.reads]
  simp

-- The reads after a call are safe exactly if the dump does no harm.
theorem safeReads_iff {hook : Hook α DWord} {length : DWord → Nat} {logCrypto : Bool}
    (hr : ∀ x, x ∈ outputReads (hook (m, [])).2.2 ↔
      ∃ i ∈ is, x = ((outcome original args base m).out + BitVec.ofNat 32 i, 1))
    (hi : ∀ i, i ∈ is ↔ i ∈ js ∨ logCrypto = true ∧ (i : Int) < (outcome original args base m).outlen.toInt)
    (hj : ∀ i ∈ js, (outcome original args base m).ret = 0 ∧ (outcome original args base m).out ≠ 0 ∧
      i < length (outcome original args base m).outlen)
    (hl : (outcome original args base m).outlen.toInt ≤ length (outcome original args base m).outlen) :
    SafeReads hook original args base m length ↔ Harmless logCrypto (outcome original args base m) := by
  let o := outcome original args base m
  constructor
  case mp =>
    intro hs
    by_contra hn
    simp only [Harmless, not_or, Bool.not_eq_false, Int.not_le] at hn
    have ⟨hc, hf, hp⟩ := hn
    have hx := (hr (o.out + BitVec.ofNat 32 0, 1)).mpr ⟨0, (hi 0).mpr <| .inr ⟨hc, hp⟩, rfl⟩
    have ⟨h₀, hz, _⟩ := hs _ hx
    exact hf ⟨h₀, hz⟩
  case mpr =>
    intro hh x hx
    have ⟨i, him, he⟩ := (hr x).mp hx
    rcases (hi i).mp him with h | ⟨hc, ho⟩
    case inl =>
      have ⟨h₀, hz, hb⟩ := hj i h
      exact ⟨h₀, hz, i, he ▸ rfl, he ▸ hb⟩
    case inr =>
      have ⟨h₀, hz⟩ : o.ret = 0 ∧ o.out ≠ 0 := by
        rcases hh with h | h | h
        · simp [hc] at h
        · exact h
        · omega
      refine ⟨h₀, hz, i, he ▸ rfl, ?_⟩
      have hb : (i : Int) < length o.outlen := ho.trans_le hl
      exact he ▸ Int.ofNat_lt.mp hb

end Wrapper

section Hooks

variable {α : Type} (logCrypto : Bool) (tid : DWord)

-- The length of the output of a decryption is unsigned.
theorem performTpduDecryption_spec (original : Original DecryptionArgs) (args : DecryptionArgs) (m : Memory) :
    let hook := performTpduDecryption logCrypto tid original args
    Transparent hook original args args.toArgs m ∧
      (SafeReads hook original args args.toArgs m BitVec.toNat ↔
        Harmless logCrypto (outcome original args args.toArgs m)) := by
  let o := outcome original args args.toArgs m
  let after (ret : DWord) : Hook DecryptionArgs Unit := do
    summarizeReceived tid args.toArgs ret
    dumpOutput logCrypto "DECRYPT" args.toArgs ret
  obtain ⟨js, hd, hj⟩ : ∃ js, Does o.memory o.out js
    (summarizeReceived tid args.toArgs o.ret : Hook DecryptionArgs Unit) ∧
      ∀ i ∈ js, o.ret = 0 ∧ o.out ≠ 0 ∧ i < o.outlen.toNat := does_summarizeReceived rfl
  have hb : Does m o.out ∅ (dumpEncrypted logCrypto args.toArgs : Hook DecryptionArgs Unit) :=
    does_dumpEncrypted
  have ha : Does o.memory o.out _ (after o.ret) := hd.seq <| does_dumpOutput rfl
  obtain ⟨ht, hr⟩ := wrap_run hb ha
  refine ⟨ht, safeReads_iff hr (fun _ => Iff.rfl) hj ?_⟩
  rw [BitVec.toInt_eq_toNat_cond]
  split <;> omega

-- The length of the output of an encryption is signed.
theorem performTpduEncryption_spec (gApiHandle : DWord) (original : Original EncryptionArgs)
    (args : EncryptionArgs) (m : Memory) :
    let hook := performTpduEncryption logCrypto tid gApiHandle original args
    Transparent hook original args args.toArgs m ∧
      (SafeReads hook original args args.toArgs m (·.toInt.toNat) ↔
        Harmless logCrypto (outcome original args args.toArgs m)) := by
  let o := outcome original args args.toArgs m
  let before : Hook EncryptionArgs Unit := do
    captureApiHandle gApiHandle args.toArgs
    dumpPlain logCrypto args.toArgs
    summarizeSent tid args.toArgs
  let after (ret : DWord) : Hook EncryptionArgs Unit :=
    dumpOutput logCrypto "ENCRYPT" args.toArgs ret
  have hb : Does m o.out ∅ before := does_captureApiHandle.quiet <| does_dumpPlain.quiet does_summarizeSent
  have ha : Does o.memory o.out _ (after o.ret) := does_dumpOutput rfl
  obtain ⟨ht, hr⟩ := wrap_run hb ha
  have hi (i : Nat) : i ∈ {i : Nat | logCrypto = true ∧ (i : Int) < o.outlen.toInt} ↔
      i ∈ (∅ : Set Nat) ∨ logCrypto = true ∧ (i : Int) < o.outlen.toInt := by simp
  exact ⟨ht, safeReads_iff hr hi (by simp) <| Int.self_le_toNat _⟩

theorem tpdu_transparent_safe_iff (gApiHandle : DWord) (decrypt : Original DecryptionArgs)
    (encrypt : Original EncryptionArgs) (args : DecryptionArgs) (args' : EncryptionArgs) (m : Memory) :
    (Transparent (performTpduDecryption logCrypto tid decrypt args) decrypt args args.toArgs m ∧
      (SafeReads (performTpduDecryption logCrypto tid decrypt args) decrypt args args.toArgs m BitVec.toNat ↔
        Harmless logCrypto (outcome decrypt args args.toArgs m))) ∧
    (Transparent (performTpduEncryption logCrypto tid gApiHandle encrypt args') encrypt args' args'.toArgs m ∧
      (SafeReads (performTpduEncryption logCrypto tid gApiHandle encrypt args') encrypt args' args'.toArgs m
          (·.toInt.toNat) ↔
        Harmless logCrypto (outcome encrypt args' args'.toArgs m))) :=
  ⟨performTpduDecryption_spec .., performTpduEncryption_spec ..⟩

-- A call that fails without an output, and that has left the length of an earlier packet.
def failedCall : Original α :=
  fun _ m => (-1, m)

def failedCallArgs : Args where
  apiHandle          := 0x500000
  inputBuffer        := 0x600000
  inputBufferLength  := 16
  outputBuffer       := 0x700000
  outputBufferLength := 0x700004

def failedCallMemory : Memory :=
  fun a => if a = 0x700004 then 16 else 0

theorem failedCall_harmful (args : α) :
    ¬Harmless true (outcome failedCall args failedCallArgs failedCallMemory) := by
  show ¬(true = false ∨ (-1 = (0 : DWord) ∧ failedCallMemory.dword 0x700000 ≠ 0) ∨
    (failedCallMemory.dword 0x700004).toInt ≤ 0)
  decide

theorem tpdu_reads_after_failure :
    ¬SafeReads (performTpduDecryption true 1 failedCall ⟨failedCallArgs, 0, 0⟩) failedCall
      ⟨failedCallArgs, 0, 0⟩ failedCallArgs failedCallMemory BitVec.toNat ∧
    ¬SafeReads (performTpduEncryption true 1 0 failedCall ⟨failedCallArgs, 0⟩) failedCall ⟨failedCallArgs, 0⟩
      failedCallArgs failedCallMemory (·.toInt.toNat) :=
  ⟨(performTpduDecryption_spec ..).right.not.mpr <| failedCall_harmful _,
    (performTpduEncryption_spec ..).right.not.mpr <| failedCall_harmful _⟩

end Hooks

end ProtocalHandler
