import Mathlib
import MhoLauncher.Library.Memory
import MhoLauncher.Library.Traced
import MhoLauncher.SharedMemory.HexDump

open Bytes Memory Traced

namespace ProtocalHandler

-- The pointers that memory is read through. The `output` is what the original function has stored at
-- `outputBuffer`.
inductive Source
  | apiHandle
  | inputBuffer
  | outputBuffer
  | outputBufferLength
  | output
  deriving DecidableEq

-- What a wrapper with arguments of type `α` does.
inductive Event (α : Type)
  | log (format : String) (args : List DWord)
  | print (format : String) (args : List DWord)
  | row (offset : Nat) (hex ascii : Option (List Char))
  | read (via : Source) (address : DWord) (size : Nat)
  | setApiHandle (apiHandle : DWord)
  | call (args : α)

variable {α : Type}

abbrev Hook (α : Type) := Traced Memory (Event α)

def log (format : String) (args : List DWord) : Hook α Unit :=
  emit <| .log format args

def print (format : String) (args : List DWord) : Hook α Unit :=
  emit <| .print format args

def readByte (via : Source) (a : DWord) : Hook α Byte :=
  look (fun m => m a) <| .read via a 1

def readDWord (via : Source) (a : DWord) : Hook α DWord :=
  look (fun m => m.dword a) <| .read via a 4

def readBytes (via : Source) (a : DWord) (n : Nat) : Hook α (List Byte) :=
  (List.range n).mapM fun i => readByte via (a + BitVec.ofNat 32 i)

-- Both texts of a row read the bytes.
def showRow (via : Source) (bytes : DWord) (offset size : Nat) : Hook α Unit := do
  let hex ← readBytes via (bytes + BitVec.ofNat 32 offset) size
  let ascii ← readBytes via (bytes + BitVec.ofNat 32 offset) size
  emit <| .row offset (HexDump.toHex hex size) (HexDump.toAscii ascii size)

def «show» (via : Source) (bytes : DWord) (size : Int) : Hook α Unit := do
  print "\n" []
  print "---------\n" []
  print "Ptr:%p Size:%d\n" [bytes, BitVec.ofInt 32 size]
  let chunks := size.tdiv 16
  let rem := size.tmod 16
  forM (List.range chunks.toNat) fun i => showRow via bytes (i * 16) 16
  (if rem > 0 then showRow via bytes (chunks * 16).toNat rem.toNat else pure ())
  print "---------\n" []
  print "\n" []

-- The arguments that both functions have.
structure Args where
  apiHandle          : DWord
  inputBuffer        : DWord
  inputBufferLength  : DWord
  outputBuffer       : DWord
  outputBufferLength : DWord

structure DecryptionArgs extends Args where
  isTpduCmdPlain          : DWord
  allowUnencryptedPackets : DWord

structure EncryptionArgs extends Args where
  allowUnencrypted : DWord

-- The original function returns a value and may change the memory.
abbrev Original (α : Type) := α → Memory → DWord × Memory

def callOriginal (original : Original α) (args : α) : Hook α DWord :=
  fun (m, t) =>
    let (ret, m) := original args m
    (ret, m, t ++ [.call args])

-- The command of a packet in both byte orders.
def logCmd (format : String) (via : Source) (bytes length apiHandle tid : DWord) : Hook α Unit := do
  let b₀ ← readByte via bytes
  let b₁ ← readByte via (bytes + 1)
  let cmdLe := b₀.setWidth 32 ||| (b₁.setWidth 32 <<< 8)
  let cmdBe := (b₀.setWidth 32 <<< 8) ||| b₁.setWidth 32
  log format [cmdLe, cmdLe, cmdBe, cmdBe, length, apiHandle, tid]

section

variable (logCrypto : Bool) (tid : DWord)

-- Both functions end with this, except for their names.
def dumpOutput (name : String) (args : Args) (ret : DWord) : Hook α Unit :=
  if logCrypto then do
    let out ← readDWord .outputBuffer args.outputBuffer
    let outlen ← readDWord .outputBufferLength args.outputBufferLength
    log (name ++ " - Return: Dec=%d Hex:0x%08X\n") [ret, ret]
    log (name ++ " - Output Buffer\n") []
    «show» .output out outlen.toInt
    log (name ++ " - END\n") []
  else
    pure ()

def dumpEncrypted (args : Args) : Hook α Unit :=
  if logCrypto then do
    log "DECRYPT - START\n" []
    let encryptionMode ← readByte .apiHandle (args.apiHandle + 0x84)
    log "DECRYPT - encryption_mode_addr: %d\n" [encryptionMode.setWidth 32]
    log "DECRYPT - Input Buffer\n" []
    «show» .inputBuffer args.inputBuffer args.inputBufferLength.toInt
  else
    pure ()

def summarizeReceived (args : Args) (ret : DWord) : Hook α Unit :=
  if ret = 0 ∧ args.outputBuffer ≠ 0 then do
    let out ← readDWord .outputBuffer args.outputBuffer
    if out ≠ 0 then
      let outlen ← readDWord .outputBufferLength args.outputBufferLength
      if outlen.toNat ≥ 4 then
        logCmd "[PktRecv] cmd_le=%u(0x%X) cmd_be=%u(0x%X) len=%u apihdl=%p tid=%lu\n" .output out outlen
          args.apiHandle tid
      else
        pure ()
    else
      pure ()
  else
    pure ()

def performTpduDecryption (original : Original DecryptionArgs) (args : DecryptionArgs) :
    Hook DecryptionArgs DWord := do
  dumpEncrypted logCrypto args.toArgs
  let ret ← callOriginal original args
  summarizeReceived tid args.toArgs ret
  dumpOutput logCrypto "DECRYPT" args.toArgs ret
  return ret

def captureApiHandle (gApiHandle : DWord) (args : Args) : Hook α Unit :=
  if gApiHandle = 0 ∧ args.apiHandle ≠ 0 then do
    emit <| .setApiHandle args.apiHandle
    log "[proto_send] captured apiHandle=%p\n" [args.apiHandle]
  else
    pure ()

def dumpPlain (args : Args) : Hook α Unit :=
  if logCrypto then do
    log "ENCRYPT - START\n" []
    log "ENCRYPT - Input Buffer\n" []
    «show» .inputBuffer args.inputBuffer args.inputBufferLength.toInt
    let encryptionMode ← readByte .apiHandle (args.apiHandle + 0x84)
    log "ENCRYPT - encryption_mode_addr: %d\n" [encryptionMode.setWidth 32]
  else
    pure ()

def summarizeSent (args : Args) : Hook α Unit :=
  if args.inputBuffer ≠ 0 ∧ args.inputBufferLength.toInt ≥ 4 then
    logCmd "[PktSend] cmd_le=%u(0x%X) cmd_be=%u(0x%X) len=%u apihdl=%p tid=%lu\n" .inputBuffer
      args.inputBuffer
      args.inputBufferLength args.apiHandle tid
  else
    pure ()

def performTpduEncryption (gApiHandle : DWord) (original : Original EncryptionArgs) (args : EncryptionArgs) :
    Hook EncryptionArgs DWord := do
  captureApiHandle gApiHandle args.toArgs
  dumpPlain logCrypto args.toArgs
  summarizeSent tid args.toArgs
  let ret ← callOriginal original args
  dumpOutput logCrypto "ENCRYPT" args.toArgs ret
  return ret

end

section Reads

-- The arguments of a call.
def Event.call? : Event α → Option α
  | call args => some args
  | _         => none

-- The address and the number of bytes of a read through the output.
def Event.outputRead? : Event α → Option (DWord × Nat)
  | read .output a n => some (a, n)
  | _                => none

def calls (es : List (Event α)) : List α :=
  es.filterMap Event.call?

def outputReads (es : List (Event α)) : List (DWord × Nat) :=
  es.filterMap Event.outputRead?

theorem calls_append (es fs : List (Event α)) : calls (es ++ fs) = calls es ++ calls fs :=
  List.filterMap_append

theorem outputReads_append (es fs : List (Event α)) :
    outputReads (es ++ fs) = outputReads es ++ outputReads fs :=
  List.filterMap_append

-- The events contain no call, and what is read through the output are the bytes at the given indices.
structure Touches (p : DWord) (is : Set Nat) (es : List (Event α)) : Prop where
  calls : calls es = []
  reads : ∀ x, x ∈ outputReads es ↔ ∃ i ∈ is, x = (p + BitVec.ofNat 32 i, 1)

variable {p : DWord} {is js : Set Nat} {es fs : List (Event α)} {m : Memory}

theorem Touches.nil : Touches p ∅ ([] : List (Event α)) :=
  ⟨rfl, fun _ => by simp [outputReads]⟩

theorem Touches.append (he : Touches p is es) (hf : Touches p js fs) : Touches p (is ∪ js) (es ++ fs) := by
  constructor
  case calls => rw [calls_append, he.calls, hf.calls, List.append_nil]
  case reads =>
    intro x
    rw [outputReads_append, List.mem_append, he.reads, hf.reads]
    simp only [Set.mem_union, or_and_right, exists_or]

-- These events neither call nor read through the output.
theorem Touches.of_none {e : Event α} (hc : e.call? = none) (hr : e.outputRead? = none)
    (h : Touches p is es) :
    Touches p is (e :: es) := by
  constructor
  case calls => rw [ProtocalHandler.calls, List.filterMap_cons_none hc]; exact h.calls
  case reads => rw [outputReads, List.filterMap_cons_none hr]; exact h.reads

theorem Touches.flatMap {β : Type} {is : β → Set Nat} {ev : β → List (Event α)} {l : List β}
    (h : ∀ b ∈ l, Touches p (is b) (ev b)) : Touches p {i | ∃ b ∈ l, i ∈ is b} (l.flatMap ev) := by
  induction l
  case nil => simpa using Touches.nil
  case cons b l hi =>
    have hl := (h b <| .head _).append <| hi fun b hb => h b <| .tail _ hb
    have hs : {i | ∃ c ∈ b :: l, i ∈ is c} = is b ∪ {i | ∃ c ∈ l, i ∈ is c} := by
      ext i
      simp
    rwa [List.flatMap_cons, hs]

-- The computation has these effects on the given memory.
def Does (m : Memory) (p : DWord) (is : Set Nat) (h : Hook α Unit) : Prop :=
  ∃ es, Yields m h ⟨⟩ es ∧ Touches p is es

variable {h k : Hook α Unit} {via : Source}

theorem Does.seq (hh : Does m p is h) (hk : Does m p js k) : Does m p (is ∪ js) (do h; k) := by
  obtain ⟨es, hy, ht⟩ := hh
  obtain ⟨fs, hy', ht'⟩ := hk
  exact ⟨es ++ fs, hy.seq hy', ht.append ht'⟩

-- The first computation does not read through the output.
theorem Does.quiet (hh : Does m p ∅ h) (hk : Does m p is k) : Does m p is (do h; k) := by
  have hs := hh.seq hk
  rwa [Set.empty_union] at hs

theorem does_pure : Does m p ∅ (pure () : Hook α Unit) :=
  ⟨[], yields_pure _, .nil⟩

theorem Does.forM {β : Type} {is : β → Set Nat} {f : β → Hook α Unit} {l : List β}
    (h : ∀ b ∈ l, Does m p (is b) (f b)) : Does m p {i | ∃ b ∈ l, i ∈ is b} (forM l f) := by
  induction l
  case nil => simpa using does_pure
  case cons b l hi =>
    have hl := (h b <| .head _).seq <| hi fun b hb => h b <| .tail _ hb
    have hs : {i | ∃ c ∈ b :: l, i ∈ is c} = is b ∪ {i | ∃ c ∈ l, i ∈ is c} := by
      ext i
      simp
    rw [hs]
    exact hl

theorem does_emit {e : Event α} (hc : e.call? = none) (hr : e.outputRead? = none) : Does m p ∅ (emit e) :=
  ⟨[e], yields_emit, .of_none hc hr .nil⟩

-- A read that is not through the output.
theorem Does.bind_look {β : Type} {f : Memory → β} {e : Event α} {k : β → Hook α Unit} (hc : e.call? = none)
    (hr : e.outputRead? = none) (hk : Does m p is (k <| f m)) : Does m p is (look f e >>= k) := by
  obtain ⟨es, hy, ht⟩ := hk
  exact ⟨[e] ++ es, yields_look.bind hy, ht.of_none hc hr⟩

theorem yields_readBytes (a : DWord) (n : Nat) :
    Yields m (readBytes via a n : Hook α _) (m.read a n)
      ((List.range n).flatMap fun i => [.read via (a + BitVec.ofNat 32 i) 1]) :=
  .mapM fun _ _ => yields_look

theorem touches_read (i : Nat) :
    Touches p {j | via = .output ∧ j = i} [(.read via (p + BitVec.ofNat 32 i) 1 : Event α)] := by
  by_cases hv : via = .output
  case pos =>
    cases hv
    exact ⟨rfl, fun x => by simp [outputReads, Event.outputRead?]⟩
  case neg =>
    have hs : {j | via = .output ∧ j = i} = ∅ := by simp [hv]
    have hr : (Event.read via (p + BitVec.ofNat 32 i) 1 : Event α).outputRead? = none := by
      cases via <;> first | contradiction | rfl
    exact hs ▸ .of_none rfl hr .nil

-- The indices that are read by reading `n` bytes at an offset.
def window (via : Source) (offset n : Nat) : Set Nat :=
  {i | via = .output ∧ offset ≤ i ∧ i < offset + n}

theorem touches_readBytes (offset n : Nat) :
    Touches p (window via offset n)
      ((List.range n).flatMap fun i =>
        [(.read via (p + BitVec.ofNat 32 offset + BitVec.ofNat 32 i) 1 : Event α)]) := by
  have hs : window via offset n = {i | ∃ j ∈ List.range n, i ∈ {i | via = .output ∧ i = offset + j}} := by
    ext i
    simp only [window, Set.mem_ofPred_eq, List.mem_range]
    constructor
    · exact fun ⟨hv, hi, hn⟩ => ⟨i - offset, by omega, hv, by omega⟩
    · exact fun ⟨j, hj, hv, hi⟩ => ⟨hv, by omega, by omega⟩
  rw [hs]
  refine .flatMap fun j _ => ?_
  rw [add_assoc, ←BitVec.ofNat_add]
  exact touches_read _

theorem does_showRow (offset n : Nat) :
    Does m p (window via offset n) (showRow via p offset n : Hook α Unit) := by
  have hs : window via offset n = window via offset n ∪ (window via offset n ∪ ∅) := by simp
  refine ⟨_, (yields_readBytes _ n).bind <| (yields_readBytes _ n).bind yields_emit, ?_⟩
  rw [hs]
  exact (touches_readBytes _ _).append <| (touches_readBytes _ _).append <| .of_none rfl rfl .nil

-- The chunks and the remainder cover the bytes.
theorem window_chunks (via : Source) (size : Int) :
    {i | ∃ j ∈ List.range (size.tdiv 16).toNat, i ∈ window via (j * 16) 16} ∪
      {i | size.tmod 16 > 0 ∧ i ∈ window via (size.tdiv 16 * 16).toNat (size.tmod 16).toNat} =
    window via 0 size.toNat := by
  have hd := HexDump.tdiv_cases size
  have hs := Int.tdiv_mul_add_tmod size 16
  ext i
  simp only [window, Set.mem_union, Set.mem_ofPred_eq, List.mem_range]
  constructor
  case mp =>
    rintro (⟨j, hj, hv, hi, hn⟩ | ⟨hr, hv, hi, hn⟩)
    · exact ⟨hv, by omega, by omega⟩
    · exact ⟨hv, by omega, by omega⟩
  case mpr =>
    intro ⟨hv, _, hi⟩
    by_cases hc : i < (size.tdiv 16).toNat * 16
    case pos => exact .inl ⟨i / 16, by omega, hv, by omega, by omega⟩
    case neg => exact .inr ⟨by omega, hv, by omega, by omega⟩

theorem does_show (size : Int) : Does m p (window via 0 size.toNat) («show» via p size : Hook α Unit) := by
  have hp {format : String} {args : List DWord} :
    Does m p ∅ (print format args : Hook α Unit) := does_emit rfl rfl
  let chunks := size.tdiv 16
  let rem := size.tmod 16
  have hc : Does m p {i | ∃ j ∈ List.range chunks.toNat, i ∈ window via (j * 16) 16}
      (forM (List.range chunks.toNat) fun i => showRow via p (i * 16) 16 : Hook α Unit) :=
    .forM fun _ _ => does_showRow _ _
  have hr : Does m p {i | rem > 0 ∧ i ∈ window via (chunks * 16).toNat rem.toNat}
      (if rem > 0 then showRow via p (chunks * 16).toNat rem.toNat else pure () : Hook α Unit) := by
    split
    case isTrue h  => simp only [h, true_and]; exact does_showRow _ _
    case isFalse h => simp only [h, false_and]; exact does_pure
  have h : Does m p _ («show» via p size : Hook α Unit) :=
    hp.quiet <| hp.quiet <| hp.quiet <| hc.seq <| hr.seq <| hp.quiet hp
  rw [Set.union_empty, window_chunks] at h
  exact h

end Reads

end ProtocalHandler
