import MhoLauncher.Library.Memory

open Bytes Memory

namespace HookTable

-- A program that writes machine code. The state consists of the memory and the position `p` of the
-- next byte.
abbrev Emitter := StateM (Memory × DWord)

-- Writes the bytes to the address `code + p`, and increases `p` by their number.
def emit (code : DWord) (bs : List Byte) : Emitter Unit :=
  modify fun (m, p) => (m.write (code + p) bs, p + BitVec.ofNat 32 bs.length)

-- Writes the displacement from the end of the written bytes to a target.
def emitRel (code target : DWord) : Emitter Unit := do
  let (_, p) ← get
  emit code (toLE 4 <| target - (code + p + 4))

-- The program writes the given bytes if it starts at position `p`.
def Emits (code p : DWord) (e : Emitter Unit) (bs : List Byte) : Prop :=
  ∀ m, e (m, p) = ((), m.write (code + p) bs, p + BitVec.ofNat 32 bs.length)

namespace Emits

variable {code p : DWord} {e f : Emitter Unit} {bs cs : List Byte}

theorem of_eq (h : Emits code p e bs) (he : bs = cs) : Emits code p e cs :=
  he ▸ h

theorem emit : Emits code p (emit code bs) bs :=
  fun _ => rfl

theorem emitRel {target : DWord} : Emits code p (emitRel code target) (toLE 4 <| target - (code + p + 4)) :=
  fun _ => rfl

theorem seq (he : Emits code p e bs) (hf : Emits code (p + BitVec.ofNat 32 bs.length) f cs)
    (hl : bs.length + cs.length ≤ 2 ^ 32) : Emits code p (do e; f) (bs ++ cs) := by
  intro m
  have h := hf <| m.write (code + p) bs
  rw [←add_assoc, write_append hl, add_assoc, ←BitVec.ofNat_add, ←List.length_append] at h
  exact (congrArg (fun r => f r.2) (he m)).trans h

theorem cons (h : Emits code (p + BitVec.ofNat 32 bs.length) e cs) (hl : bs.length + cs.length ≤ 2 ^ 32) :
    Emits code p (do HookTable.emit code bs; e) (bs ++ cs) :=
  emit.seq h hl

theorem forM {f : α → Emitter Unit} {g : α → List Byte} {l : List α}
    (h : ∀ a ∈ l, ∀ p, Emits code p (f a) (g a)) (hl : (l.flatMap g).length ≤ 2 ^ 32) :
    Emits code p (forM l f) (l.flatMap g) := by
  induction l generalizing p
  case nil => exact fun m => by simp; rfl
  case cons a l hi =>
    rw [List.flatMap_cons, List.length_append] at hl
    refine (h a (List.mem_cons_self ..) p).seq (hi (fun b hb => h b <| List.mem_cons_of_mem _ hb) ?_) hl
    omega

end Emits

end HookTable
