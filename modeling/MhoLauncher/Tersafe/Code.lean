import MhoLauncher.Library.X86.Run
import MhoLauncher.Tersafe.Basic

open Bytes HookTable Memory X86

namespace Tersafe

-- A trampoline and what its code refers to. The instruction `push` pushes the argument `arg` of the
-- observers.
structure Trampoline where
  tramp  : DWord
  slot   : DWord
  arg    : DWord
  push   : Code
  before : DWord
  after  : DWord
  real   : DWord
  instr  : push.instr = .pushImm arg
  length : push.bytes.length ≤ 5

namespace Trampoline

variable (t : Trampoline)

def pushLength : DWord :=
  BitVec.ofNat 32 t.push.bytes.length

section Code

def save : List Code := [
  .popEax,
  .movMemEax <| SlotState.callerAddr t.slot,
  .movMemEcx <| SlotState.thisPtrAddr t.slot,
  .movMemEdx <| SlotState.edxAddr t.slot
]

def copyArg (i : Nat) : List Code := [
  if i * 4 = 0 then .movEaxEsp else .movEaxEspAdd <| BitVec.ofNat 8 (i * 4),
  .movMemEax <| SlotState.argAddr t.slot i
]

def copyArgs (n : Nat) : List Code :=
  List.range n |>.flatMap t.copyArg

-- The call of an observer, which starts at the given address.
def callObserver (addr observer : DWord) : List Code := [
  .pushad,
  .pushfd,
  t.push,
  .callRel <| observer - (addr + (7 + t.pushLength))
]

def restore : List Code := [
  .addEsp 4,
  .popfd,
  .popad
]

def callReal : List Code := [
  .movMemEsp <| SlotState.espBeforeAddr t.slot,
  .callMem t.real
]

def saveResult : List Code := [
  .movMemEsp <| SlotState.espAfterAddr t.slot,
  .movMemEax <| SlotState.retvalAddr t.slot
]

def returnToCaller : List Code := [
  .pushMem <| SlotState.callerAddr t.slot,
  .ret
]

-- The addresses of the parts of the trampoline.
def beforeAddr : DWord :=
  t.tramp + 89

def enterAddr : DWord :=
  t.beforeAddr + (7 + t.pushLength)

def resultAddr : DWord :=
  t.enterAddr + 17

def leaveAddr : DWord :=
  t.resultAddr + 11 + (7 + t.pushLength)

def code : List Byte :=
  bytes (t.save ++ t.copyArgs MAX_ARGS) ++ bytes (t.callObserver t.beforeAddr t.before) ++
  bytes (restore ++ t.callReal) ++ bytes (t.saveResult ++ t.callObserver (t.resultAddr + 11) t.after) ++
  bytes (restore ++ t.returnToCaller)

@[simp]
theorem save_length : (bytes t.save).length = 18 :=
  rfl

@[simp]
theorem copyArgs_length : (bytes <| t.copyArgs MAX_ARGS).length = 71 :=
  rfl

@[simp]
theorem callObserver_length (addr observer : DWord) :
    (bytes <| t.callObserver addr observer).length = 7 + t.push.bytes.length := by
  simp [bytes, callObserver, Code.pushad, Code.pushfd, Code.callRel]
  omega

@[simp]
theorem restore_length : (bytes restore).length = 5 :=
  rfl

@[simp]
theorem callReal_length : (bytes t.callReal).length = 12 :=
  rfl

@[simp]
theorem saveResult_length : (bytes t.saveResult).length = 11 :=
  rfl

@[simp]
theorem returnToCaller_length : (bytes t.returnToCaller).length = 7 :=
  rfl

theorem code_length : t.code.length = 143 + 2 * t.push.bytes.length := by
  simp [code]
  omega

end Code

section Part

theorem part_capture : Part t.tramp (bytes <| t.save ++ t.copyArgs MAX_ARGS) t.tramp t.code :=
  Part.left.trans <| Part.left.trans <| Part.left.trans .left

theorem part_before : Part t.beforeAddr (bytes <| t.callObserver t.beforeAddr t.before) t.tramp t.code := by
  refine .trans (.right ?_) <| Part.left.trans <| Part.left.trans .left
  simp [beforeAddr]

theorem part_enter : Part t.enterAddr (bytes <| restore ++ t.callReal) t.tramp t.code := by
  refine .trans (.right ?_) <| Part.left.trans .left
  simp only [enterAddr, beforeAddr, pushLength, bytes_append, List.length_append, save_length,
    copyArgs_length, callObserver_length, BitVec.ofNat_add]
  generalize BitVec.ofNat 32 t.push.bytes.length = n
  bv_omega

theorem part_results : Part t.resultAddr
    (bytes <| t.saveResult ++ t.callObserver (t.resultAddr + 11) t.after) t.tramp t.code := by
  refine .trans (.right ?_) .left
  simp only [resultAddr, enterAddr, beforeAddr, pushLength, bytes_append, List.length_append, save_length,
    copyArgs_length, callObserver_length, restore_length, callReal_length, BitVec.ofNat_add]
  generalize BitVec.ofNat 32 t.push.bytes.length = n
  bv_omega

theorem part_result : Part t.resultAddr (bytes t.saveResult) t.tramp t.code :=
  (bytes_append ▸ Part.left).trans t.part_results

theorem part_after : Part (t.resultAddr + 11)
    (bytes <| t.callObserver (t.resultAddr + 11) t.after) t.tramp t.code :=
  (bytes_append ▸ Part.right rfl).trans t.part_results

theorem part_leave : Part t.leaveAddr (bytes <| restore ++ t.returnToCaller) t.tramp t.code := by
  refine .right ?_
  simp only [leaveAddr, resultAddr, enterAddr, beforeAddr, pushLength, bytes_append,
    List.length_append, save_length, copyArgs_length, callObserver_length, restore_length,
    callReal_length, saveResult_length, BitVec.ofNat_add]
  generalize BitVec.ofNat 32 t.push.bytes.length = n
  bv_omega

end Part

section Emit

variable {t} {p : DWord} {pushArg : Emitter Unit}

theorem emitSave_emits : Emits 0 p (emitSave t.slot) (bytes t.save) := by
  apply Emits.of_eq
  case h =>
    iterate 8 apply Emits.cons
    exact .emit
    all_goals simp
  case he => simp [bytes, save, Code.popEax, Code.movMemEax, Code.movMemEcx, Code.movMemEdx]

theorem emitCopyArg_emits (i : Nat) : Emits 0 p (emitCopyArg t.slot i) (bytes <| t.copyArg i) := by
  by_cases hi : i * 4 = 0 <;> simp only [emitCopyArg, copyArg, hi, if_true, if_false] <;> apply Emits.of_eq
  case pos.h =>
    iterate 4 apply Emits.cons
    exact .emit
    all_goals simp
  case neg.h =>
    iterate 5 apply Emits.cons
    exact .emit
    all_goals simp
  case pos.he => simp [bytes, Code.movEaxEsp, Code.movMemEax]
  case neg.he => simp [bytes, Code.movEaxEspAdd, Code.movMemEax]

theorem emitCallReal_emits :
    Emits 0 p (emitCallReal t.slot t.real) (bytes t.callReal ++ bytes t.saveResult) := by
  apply Emits.of_eq
  case h =>
    iterate 10 apply Emits.cons
    exact .emit
    all_goals simp
  case he => simp [bytes, callReal, saveResult, Code.movMemEsp, Code.callMem, Code.movMemEax]

theorem emitReturn_emits : Emits 0 p (emitReturn t.slot) (bytes t.returnToCaller) := by
  apply Emits.of_eq
  case h =>
    iterate 3 apply Emits.cons
    exact .emit
    all_goals simp
  case he => simp [bytes, returnToCaller, Code.pushMem, Code.ret]

variable (hp : ∀ {p}, Emits 0 p pushArg t.push.bytes)
include hp

theorem emitObserve_emits (observer : DWord) :
    Emits 0 p (emitObserve pushArg observer) (bytes (t.callObserver p observer) ++ bytes restore) := by
  have hl := t.length
  apply Emits.of_eq
  case h =>
    iterate 2 apply Emits.cons
    apply hp.seq
    case hf =>
      apply Emits.seq
      case he => exact .cons .emitRel (by simp)
      case hf =>
        iterate 4 apply Emits.cons
        exact .emit
        all_goals simp
      case hl => simp
    all_goals simp; omega
  case he =>
    have ha (n : DWord) : p + 1#32 + 1#32 + n + 1#32 + 4#32 = p + (7#32 + n) := by bv_omega
    simp [bytes, callObserver, restore, pushLength, Code.pushad, Code.pushfd, Code.callRel,
      Code.addEsp, Code.popfd, Code.popad, ha]

omit hp in
theorem emitCopyArgs_emits :
    Emits 0 p (forM (List.range MAX_ARGS) <| emitCopyArg t.slot) (bytes <| t.copyArgs MAX_ARGS) := by
  rw [bytes, copyArgs, List.flatMap_assoc]
  refine .forM (fun i _ _ => emitCopyArg_emits i) ?_
  rw [←List.flatMap_assoc]
  exact (copyArgs_length t).trans_le (by simp)

theorem emitTrampoline_emits :
    Emits 0 t.tramp (emitTrampoline t.slot pushArg t.before t.after t.real) t.code := by
  have hl := t.length
  apply Emits.of_eq
  case h =>
    refine emitSave_emits.seq (emitCopyArgs_emits.seq ((emitObserve_emits hp _).seq (emitCallReal_emits.seq
      ((emitObserve_emits hp _).seq emitReturn_emits ?_) ?_) ?_) ?_) ?_
    all_goals simp; omega
  case he =>
    have h₁ : 18#32 + 71#32 = 89 := rfl
    have h₂ : 5#32 + (12#32 + 11#32) = 17 + 11 := rfl
    simp only [code, bytes_append, beforeAddr, resultAddr, enterAddr, pushLength,
      List.length_append, save_length, copyArgs_length, callObserver_length, restore_length,
      callReal_length, saveResult_length, List.append_assoc, add_assoc, BitVec.ofNat_add,
      BitVec.ofNat_eq_ofNat, h₁, h₂]

end Emit

end Trampoline

end Tersafe
