import Mathlib
import MhoLauncher.Library.Machine
import MhoLauncher.ProtocalHandler.Transparency

open Bytes Memory Traced

namespace ProtocalHandler

section SendRaw

variable {α : Type}

def store (a : DWord) (bytes : List Byte) : Hook α Unit :=
  modify fun (m, t) => (m.write a bytes, t)

def memcpy (dst src : DWord) (n : Nat) : Hook α Unit :=
  modify fun (m, t) => (m.write dst <| m.read src n, t)

-- The address of the original function is `org`, and `malloc` returns the `frame`. The variables of the
-- function are at `outBuf` and `outLen`. The length is not negative.
def protocalhandlerSendRaw (org : DWord) (original : Original EncryptionArgs) (gApiHandle : DWord)
    (frame : Option DWord) (outBuf outLen data : DWord) (len : Nat) : Hook EncryptionArgs DWord :=
  if org = 0 ∨ gApiHandle = 0 then do
    log "[proto_send] not ready (encrypt=%p apiHandle=%p)\n" [org, gApiHandle]
    return -1
  else
    match frame with
    | none       => return -2
    | some frame => do
      let frameLen := 4 + len
      store frame <| List.replicate 4 0
      memcpy (frame + 4) data len
      store outBuf <| toLE 4 (0 : DWord)
      store outLen <| toLE 4 (0 : DWord)
      let ret ← callOriginal original {
        apiHandle          := gApiHandle
        inputBuffer        := frame
        inputBufferLength  := BitVec.ofNat 32 frameLen
        outputBuffer       := outBuf
        outputBufferLength := outLen
        allowUnencrypted   := 0
      }
      let (m, _) ← get
      log "[proto_send] encrypt ret=%d out=%p out_len=%d\n" [ret, m.dword outBuf, m.dword outLen]
      return ret

end SendRaw

-- What happens in the process of the client, in any order. The last case is what the client does itself.
inductive Action
  | decrypt (tid : DWord) (args : DecryptionArgs)
  | encrypt (tid : DWord) (args : EncryptionArgs)
  | sendRaw (frame : Option DWord) (outBuf outLen data : DWord) (len : Nat)
  | client (f : Memory → Memory)

def Action.apiHandle? : Action → Option DWord
  | encrypt _ args => some args.apiHandle
  | _              => none

-- The calls of the two original functions.
abbrev Call := DecryptionArgs ⊕ EncryptionArgs

section Handles

variable {α β γ : Type}

def Event.apiHandle? : Event α → Option DWord
  | setApiHandle h => some h
  | _              => none

-- What was stored in `g_apiHandle`.
def apiHandles (es : List (Event α)) : List DWord :=
  es.filterMap Event.apiHandle?

theorem apiHandles_concat {e : Event α} (he : e.apiHandle? = none) {t : List (Event α)} :
    apiHandles (t ++ [e]) = apiHandles t := by
  rw [apiHandles, List.filterMap_append, List.filterMap_cons_none he, List.filterMap_nil, List.append_nil]
  rfl

-- The computation does not store an `apiHandle`.
def Silent (h : Hook α β) : Prop :=
  ∀ s, apiHandles (h s).2.2 = apiHandles s.2

namespace Silent

variable {h : Hook α β} {f : β → Hook α γ} {args : Args} {a tid ret : DWord} {logCrypto : Bool} {via : Source}

theorem pure (b : β) : Silent (pure b : Hook α β) :=
  fun _ => rfl

theorem bind (hh : Silent h) (hf : ∀ b, Silent (f b)) : Silent (h >>= f) :=
  fun s => (hf _ _).trans (hh s)

theorem emit {e : Event α} (he : e.apiHandle? = none) : Silent (emit e : Hook α _) :=
  fun _ => apiHandles_concat he

theorem look {f : Memory → β} {e : Event α} (he : e.apiHandle? = none) : Silent (look f e : Hook α _) :=
  fun _ => apiHandles_concat he

theorem callOriginal {original : Original α} {args : α} : Silent (callOriginal original args) :=
  fun _ => apiHandles_concat rfl

theorem mapM {l : List γ} {f : γ → Hook α β} (hf : ∀ c, Silent (f c)) : Silent (l.mapM f) := by
  induction l
  case nil => exact pure _
  case cons c l hi =>
    rw [List.mapM_cons]
    exact (hf c).bind fun _ => hi.bind fun _ => pure _

theorem forM {l : List γ} {f : γ → Hook α Unit} (hf : ∀ c, Silent (f c)) : Silent (forM l f) := by
  induction l
  case nil         => exact pure _
  case cons c l hi => exact (hf c).bind fun _ => hi

theorem showRow {i n : Nat} : Silent (showRow via a i n : Hook α Unit) :=
  (mapM fun _ => look rfl).bind fun _ => (mapM fun _ => look rfl).bind fun _ => emit rfl

theorem «show» {size : Int} : Silent («show» via a size : Hook α Unit) := by
  refine .bind (emit rfl) fun _ => .bind (emit rfl) fun _ => .bind (emit rfl) fun _ => ?_
  refine .bind (forM fun _ => showRow) fun _ => .bind ?_ fun _ => .bind (emit rfl) fun _ => emit rfl
  split
  case isTrue  => exact showRow
  case isFalse => exact pure _

theorem dumpPlain : Silent (dumpPlain logCrypto args : Hook α Unit) := by
  unfold ProtocalHandler.dumpPlain
  split
  case isTrue =>
    exact .bind (emit rfl) fun _ => .bind (emit rfl) fun _ => .bind «show» fun _ => .bind (look rfl) fun _ =>
      emit rfl
  case isFalse => exact pure _

theorem summarizeSent : Silent (summarizeSent tid args : Hook α Unit) := by
  unfold ProtocalHandler.summarizeSent
  split
  case isTrue  => exact .bind (look rfl) fun _ => .bind (look rfl) fun _ => emit rfl
  case isFalse => exact pure _

theorem dumpOutput {name : String} : Silent (dumpOutput logCrypto name args ret : Hook α Unit) := by
  unfold ProtocalHandler.dumpOutput
  split
  case isTrue =>
    exact .bind (look rfl) fun _ => .bind (look rfl) fun _ => .bind (emit rfl) fun _ =>
      .bind (emit rfl) fun _ => .bind «show» fun _ => emit rfl
  case isFalse => exact pure _

end Silent

-- A call stores its `apiHandle` if there is none yet.
theorem apiHandles_encryption {logCrypto : Bool} {tid gApiHandle : DWord} {original : Original EncryptionArgs}
    {args : EncryptionArgs} {m : Memory} :
    apiHandles (performTpduEncryption logCrypto tid gApiHandle original args (m, [])).2.2 =
      if gApiHandle = 0 ∧ args.apiHandle ≠ 0 then [args.apiHandle] else [] := by
  have hs : Silent (do
      dumpPlain logCrypto args.toArgs
      summarizeSent tid args.toArgs
      let ret ← callOriginal original args
      dumpOutput logCrypto "ENCRYPT" args.toArgs ret
      return ret : Hook EncryptionArgs DWord) :=
    Silent.dumpPlain.bind fun _ => Silent.summarizeSent.bind fun _ => Silent.callOriginal.bind fun _ =>
      Silent.dumpOutput.bind fun _ => .pure _
  refine (hs (captureApiHandle gApiHandle args.toArgs (m, [])).2).trans ?_
  unfold captureApiHandle
  split <;> rfl

end Handles

-- The variable `g_apiHandle` and the memory.
structure Process where
  gApiHandle : DWord
  memory     : Memory

-- The same without the hooks, which only need to know the `apiHandle` of each encryption so far.
structure Unhooked where
  apiHandles : List DWord
  memory     : Memory

section Session

variable (logCrypto : Bool) (org : DWord) (decrypt : Original DecryptionArgs)
variable (encrypt : Original EncryptionArgs)

-- The result of an action, and the calls of the original functions.
def session : Machine Action (DWord × List Call) Process
  | .client f, s => some ((0, []), { s with memory := f s.memory })
  | .decrypt tid args, s =>
    let (ret, m, es) := performTpduDecryption logCrypto tid decrypt args (s.memory, [])
    some ((ret, (calls es).map .inl), { s with memory := m })
  | .encrypt tid args, s =>
    let (ret, m, es) := performTpduEncryption logCrypto tid s.gApiHandle encrypt args (s.memory, [])
    some ((ret, (calls es).map .inr), ⟨(apiHandles es).getLast?.getD s.gApiHandle, m⟩)
  | .sendRaw frame outBuf outLen data len, s =>
    let (ret, m, es) :=
      protocalhandlerSendRaw org encrypt s.gApiHandle frame outBuf outLen data len (s.memory, [])
    some ((ret, (calls es).map .inr), { s with memory := m })

-- The memory with a frame of the data, and the variables.
def framed (m : Memory) (frame outBuf outLen data : DWord) (len : Nat) : Memory :=
  let m := m.write frame (List.replicate 4 0 ++ m.read data len)
  (m.write outBuf <| toLE 4 (0 : DWord)).write outLen <| toLE 4 (0 : DWord)

def frameArgs (apiHandle frame outBuf outLen : DWord) (len : Nat) : EncryptionArgs :=
  ⟨⟨apiHandle, frame, BitVec.ofNat 32 (4 + len), outBuf, outLen⟩, 0⟩

-- The client calls the original functions. What is sent goes to the connection of the first encryption that
-- had one.
def unhooked : Machine.Spec Action (DWord × List Call) Unhooked
  | .client f, s          => ((0, []), { s with memory := f s.memory })
  | .decrypt _ args, s    =>
    let (ret, m) := decrypt args s.memory
    ((ret, [.inl args]), { s with memory := m })
  | .encrypt _ args, s    =>
    let (ret, m) := encrypt args s.memory
    ((ret, [.inr args]), ⟨s.apiHandles ++ [args.apiHandle], m⟩)
  | .sendRaw frame outBuf outLen data len, s =>
    match s.apiHandles.find? (· ≠ 0), frame with
    | none, _                    => ((-1, []), s)
    | some _, none               => ((-2, []), s)
    | some apiHandle, some frame =>
      let args := frameArgs apiHandle frame outBuf outLen len
      let (ret, m) := encrypt args <| framed s.memory frame outBuf outLen data len
      ((ret, [.inr args]), { s with memory := m })

-- The memory that `malloc` returns does not overlap the data.
def Action.Fresh : Action → Prop
  | sendRaw (some frame) _ _ data len => 4 + len ≤ 2 ^ 32 ∧ Disjoint (range data len) (range frame 4)
  | _                                 => True

-- The hooks have the first `apiHandle`.
structure Captured (s : Process) (t : Unhooked) : Prop where
  gApiHandle : s.gApiHandle = (t.apiHandles.find? (· ≠ 0)).getD 0
  memory     : s.memory = t.memory

variable {logCrypto org decrypt encrypt} {m : Memory} {gApiHandle outBuf outLen data frame : DWord} {len : Nat}

theorem sendRaw_notReady {f : Option DWord} :
    protocalhandlerSendRaw org encrypt 0 f outBuf outLen data len (m, []) =
      (-1, m, [.log "[proto_send] not ready (encrypt=%p apiHandle=%p)\n" [org, 0]]) := by
  unfold protocalhandlerSendRaw
  rw [if_pos <| .inr rfl]
  rfl

theorem sendRaw_unallocated (ho : org ≠ 0) (hg : gApiHandle ≠ 0) :
    protocalhandlerSendRaw org encrypt gApiHandle none outBuf outLen data len (m, []) = (-2, m, []) := by
  unfold protocalhandlerSendRaw
  rw [if_neg <| not_or.mpr ⟨ho, hg⟩]
  rfl

-- The frame consists of four bytes that the server replaces and of the data.
theorem copy_framed (h : (Action.sendRaw (some frame) outBuf outLen data len).Fresh) :
    (m.write frame <| List.replicate 4 0).write (frame + 4)
        ((m.write frame <| List.replicate 4 0).read data len) =
      m.write frame (List.replicate 4 0 ++ m.read data len) := by
  have hr : (m.write frame <| List.replicate 4 0).read data len = m.read data len :=
    read_congr <| write_eqOn h.right
  rw [hr]
  refine write_append ?_
  rw [List.length_replicate, read_length]
  exact h.left

theorem sendRaw_framed (ho : org ≠ 0) (hg : gApiHandle ≠ 0)
    (h : (Action.sendRaw (some frame) outBuf outLen data len).Fresh) :
    let args := frameArgs gApiHandle frame outBuf outLen len
    let r := protocalhandlerSendRaw org encrypt gApiHandle (some frame) outBuf outLen data len (m, [])
    (r.1, r.2.1) = encrypt args (framed m frame outBuf outLen data len) ∧ calls r.2.2 = [args] := by
  intro args r
  have hr : r = (do
      let ret ← callOriginal encrypt args
      let (m, _) ← get
      log "[proto_send] encrypt ret=%d out=%p out_len=%d\n" [ret, m.dword outBuf, m.dword outLen]
      return ret : Hook EncryptionArgs DWord) (framed m frame outBuf outLen data len, []) := by
    rw [framed, ←copy_framed h]
    unfold r protocalhandlerSendRaw
    rw [if_neg <| not_or.mpr ⟨ho, hg⟩]
    rfl
  rw [hr]
  exact ⟨rfl, rfl⟩

-- The `apiHandle` of another encryption is stored exactly if there was none before.
theorem find?_apiHandles {hs : List DWord} {h : DWord} (hg : gApiHandle = (hs.find? (· ≠ 0)).getD 0) :
    (if gApiHandle = 0 ∧ h ≠ 0 then [h] else []).getLast?.getD gApiHandle =
      ((hs ++ [h]).find? (· ≠ 0)).getD 0 := by
  rw [List.find?_append]
  cases hf : hs.find? (· ≠ 0)
  case none =>
    have hz : gApiHandle = 0 := hg.trans <| by rw [hf, Option.getD_none]
    by_cases hh : h = 0#32 <;> simp [hz, hh]
  case some h' =>
    have hz : gApiHandle = h' := hg.trans <| by rw [hf, Option.getD_some]
    have hn : h' ≠ 0#32 := by simpa using List.find?_some hf
    simp [hz, hn]

theorem session_refines (ho : org ≠ 0) : Machine.Refines (session logCrypto org decrypt encrypt)
    (unhooked decrypt encrypt) (fun _ a => a.Fresh) Captured := by
  intro s t a hr ha
  obtain ⟨g, m⟩ := s
  obtain ⟨hg, rfl⟩ := hr
  cases a
  case client f => exact ⟨_, rfl, hg, rfl⟩
  case decrypt tid args =>
    let r := performTpduDecryption logCrypto tid decrypt args (t.memory, [])
    have ⟨hc, hr, hm⟩ := (performTpduDecryption_spec logCrypto tid decrypt args t.memory).left
    refine ⟨⟨g, r.2.1⟩, ?_, hg, hm⟩
    show some ((r.1, (calls r.2.2).map Sum.inl), _) = _
    rw [hr, hc]
    rfl
  case encrypt tid args =>
    let r := performTpduEncryption logCrypto tid g encrypt args (t.memory, [])
    have ⟨hc, hr, hm⟩ := (performTpduEncryption_spec logCrypto tid g encrypt args t.memory).left
    refine ⟨⟨(apiHandles r.2.2).getLast?.getD g, r.2.1⟩, ?_, ?_, hm⟩
    case refine_1 =>
      show some ((r.1, (calls r.2.2).map Sum.inr), _) = _
      rw [hr, hc]
      rfl
    case refine_2 =>
      show (apiHandles r.2.2).getLast?.getD g = ((t.apiHandles ++ [args.apiHandle]).find? (· ≠ 0)).getD 0
      rw [apiHandles_encryption]
      exact find?_apiHandles hg
  case sendRaw frame outBuf outLen data len =>
    let r := protocalhandlerSendRaw org encrypt g frame outBuf outLen data len (t.memory, [])
    have hs : session logCrypto org decrypt encrypt (.sendRaw frame outBuf outLen data len) ⟨g, t.memory⟩ =
      some ((r.1, (calls r.2.2).map .inr), ⟨g, r.2.1⟩) := rfl
    rw [hs]
    cases hf : t.apiHandles.find? (· ≠ 0)
    case none =>
      have hz : g = 0 := hg.trans <| by rw [hf, Option.getD_none]
      have hu : unhooked decrypt encrypt (.sendRaw frame outBuf outLen data len) t = ((-1, []), t) := by
        simp only [unhooked, hf]
      have hr : r = _ := hz ▸ sendRaw_notReady
      rw [hu, hr]
      exact ⟨_, rfl, hg, rfl⟩
    case some h =>
      have hz : g = h := hg.trans <| by rw [hf, Option.getD_some]
      have hn : g ≠ 0 := by simpa [hz] using List.find?_some hf
      cases frame
      case none =>
        have hu : unhooked decrypt encrypt (.sendRaw none outBuf outLen data len) t = ((-2, []), t) := by
          simp only [unhooked, hf]
        have hr : r = _ := sendRaw_unallocated ho hn
        rw [hu, hr]
        exact ⟨_, rfl, hg, rfl⟩
      case some frame =>
        let args := frameArgs g frame outBuf outLen len
        have ⟨hr, hc⟩ : (r.1, r.2.1) = encrypt args (framed t.memory frame outBuf outLen data len) ∧
          calls r.2.2 = [args] := sendRaw_framed ho hn ha
        have hu : unhooked decrypt encrypt (.sendRaw (some frame) outBuf outLen data len) t =
            ((r.1, [.inr args]), { t with memory := r.2.1 }) := by
          simp only [unhooked, hf]
          rw [←hz, ←hr]
        rw [hu, hc]
        exact ⟨_, rfl, hg, rfl⟩

theorem unhooked_apiHandles {actions : List Action} {t : Unhooked} :
    ((unhooked decrypt encrypt).run actions t).2.apiHandles =
      t.apiHandles ++ actions.filterMap Action.apiHandle? := by
  induction actions generalizing t
  case nil => exact (List.append_nil _).symm
  case cons a actions hi =>
    refine hi.trans ?_
    cases a
    case client | decrypt => rfl
    case encrypt => exact List.append_assoc ..
    case sendRaw frame _ _ _ _ =>
      refine congrArg (· ++ _) ?_
      dsimp only
      split <;> rfl

variable {actions : List Action}

-- Once the hooks are installed, and whatever is logged, the client has the results and the memory that it has
-- without them, and the original functions are called with the same arguments in the same order. What is sent
-- goes to the first `apiHandle` of the encryptions.
theorem session_transparent (ho : org ≠ 0) (h : ∀ a ∈ actions, a.Fresh) :
    ∃ s, (session logCrypto org decrypt encrypt).run actions ⟨0, m⟩ =
        some (((unhooked decrypt encrypt).run actions ⟨[], m⟩).1, s) ∧
      s.memory = ((unhooked decrypt encrypt).run actions ⟨[], m⟩).2.memory ∧
      s.gApiHandle = ((actions.filterMap Action.apiHandle?).find? (· ≠ 0)).getD 0 := by
  have hc : Captured ⟨0, m⟩ ⟨[], m⟩ := ⟨rfl, rfl⟩
  obtain ⟨s, hs, hc⟩ := Machine.Refines.run (session_refines ho) hc <| .of_forall h
  exact ⟨s, hs, hc.memory, hc.gApiHandle.trans <| by rw [unhooked_apiHandles, List.nil_append]⟩

section Example

def exampleArgs (apiHandle : DWord) : EncryptionArgs :=
  ⟨⟨apiHandle, 0x600000, 16, 0x700000, 0x700004⟩, 0⟩

def exampleSend : Action :=
  .sendRaw (some 0x900000) 0x30000 0x30004 0x800000 2

theorem exampleSend_fresh : exampleSend.Fresh := by
  refine ⟨by decide, Set.disjoint_left.mpr fun x hx hy => ?_⟩
  simp only [range, Set.mem_ofPred_eq] at hx hy
  bv_omega

-- Nothing is sent before the second encryption, which is the first one with an `apiHandle`.
theorem session_transparent_send : ∃ s,
    (session true 0x173BB0 (fun _ m => (0, m)) (fun _ m => (7, m))).run
        [exampleSend, .encrypt 1 (exampleArgs 0), .encrypt 1 (exampleArgs 0x500000), exampleSend]
        ⟨0, fun _ => 0⟩ =
      some ([(-1, []), (7, [.inr <| exampleArgs 0]), (7, [.inr <| exampleArgs 0x500000]),
        (7, [.inr <| frameArgs 0x500000 0x900000 0x30000 0x30004 2])], s) ∧
    s.gApiHandle = 0x500000 := by
  have hf : ∀ a ∈ [exampleSend, .encrypt 1 (exampleArgs 0), .encrypt 1 (exampleArgs 0x500000), exampleSend],
      a.Fresh :=
    List.forall_mem_cons.mpr ⟨exampleSend_fresh, List.forall_mem_cons.mpr ⟨trivial,
      List.forall_mem_cons.mpr ⟨trivial, List.forall_mem_singleton.mpr exampleSend_fresh⟩⟩⟩
  obtain ⟨s, hs, _, hg⟩ := @session_transparent true 0x173BB0 (fun _ m => (0, m)) (fun _ m => (7, m))
    (fun _ => 0) _ (by decide) hf
  exact ⟨s, hs, hg⟩

end Example

end Session

end ProtocalHandler
