import Mathlib
import MhoLauncher.Library.File
import MhoLauncher.CryGame.ProcessMemory
import MhoLauncher.Tersafe.Basic

open Bytes CryGame CryGame.ProcessMemory File

namespace Tersafe

def SNAP_SIZE : Nat := 0x100

def ARG_SNAP : Nat := 0x40

-- The name of a method in the log.
inductive Name
  | vt  (slot : Nat)
  | sub (sub slot : Nat)

-- What a dump or a comparison shows.
inductive Label
  | thisBefore
  | thisAfter
  | this
  | edxBefore (v : DWord)
  | edx       (v : DWord)
  | argBefore (i : Nat) (v : DWord)
  | arg       (i : Nat) (v : DWord)
  deriving DecidableEq

-- The lines of the log, with what is printed in them.
inductive Line
  | entry (name : Name) (thisPtr edx caller tid : DWord)
  | stack (args : List DWord)
  | thisFailed
  | fullDump (label : Label) (size : Nat)
  | row (offset : Nat) (bytes : List Byte)
  | returned (name : Name) (retval : DWord) (delta nArgs : Int)
  | changed (label : Label) (offset : Nat) (before after : DWord)
  | unchanged (label : Label)
  | thisAfterFailed

section Helpers

-- `IsBadReadPtr` fails for the ranges that can not be read.
@[irreducible]
def safeCopy (m : ProcessMemory) (src : DWord) (n : Nat) : Option (List Byte) :=
  if src = 0 then none else m.readProcessMemory src n

def looksLikePtr (v : DWord) : Prop :=
  v ≥ 0x00010000 ∧ v < 0x80000000

instance {v : DWord} : Decidable (looksLikePtr v) :=
  inferInstanceAs <| Decidable (_ ∧ _)

-- A row of zeros is not printed.
def hexDumpRow (buf : List Byte) (size i : Nat) : Option Line :=
  if ((buf.take size).drop i).take 16 |>.all (· = 0) then none else some <| .row i ((buf.drop i).take 16)

def hexDump (label : Label) (buf : List Byte) (size : Nat) : List Line :=
  .fullDump label size :: (List.range ((size + 15) / 16)).filterMap fun i => hexDumpRow buf size (16 * i)

def dwordAt (buf : List Byte) (i : Nat) : DWord :=
  ofLE 32 ((buf.drop (4 * i)).take 4)

def changes (label : Label) (before after : List Byte) (size : Nat) : List Line :=
  (List.range (size / 4)).filterMap fun i =>
    if dwordAt before i ≠ dwordAt after i then
      some <| .changed label (4 * i) (dwordAt before i) (dwordAt after i)
    else
      none

def diffMem (label : Label) (before after : List Byte) (size : Nat) : List Line :=
  let lines := changes label before after size
  if lines.length = 0 then [.unchanged label] else lines

end Helpers

section Observers

-- The fields of a slot state that the observers write. A value is present if it is valid.
structure Snapshots where
  this : Option (List Byte)
  edx  : Option (List Byte)
  args : List (Option (List Byte))

-- The snapshot of the target of a value that looks like a pointer.
def snapshot (m : ProcessMemory) (v : DWord) : Option (List Byte) :=
  if looksLikePtr v then safeCopy m v ARG_SNAP else none

def dumpSnapshot (label : Label) (snap : Option (List Byte)) : List Line :=
  snap.elim [] (hexDump label · ARG_SNAP)

def diffSnapshot (label : Label) (m : ProcessMemory) (v : DWord) (snap : Option (List Byte)) : List Line :=
  match snap, safeCopy m v ARG_SNAP with
  | some before, some after => diffMem label before after ARG_SNAP
  | _,           _          => []

variable (name : Name) (failed : List Line) (s : SlotState)

-- What the first observers have in common. They differ in what they print if there is no snapshot of `this`.
def observeBefore (tid : DWord) (m : ProcessMemory) : Snapshots × List Line :=
  let snaps : Snapshots := {
    this := safeCopy m s.thisPtr SNAP_SIZE
    edx  := snapshot m s.edx
    args := s.args.map (snapshot m)
  }
  (snaps,
    [.entry name s.thisPtr s.edx s.caller tid, .stack s.args] ++
    snaps.this.elim failed (hexDump .thisBefore · SNAP_SIZE) ++
    dumpSnapshot (.edxBefore s.edx) snaps.edx ++
    s.args.zipIdx.flatMap fun (v, i) => dumpSnapshot (.argBefore i v) (snaps.args[i]?.join))

-- The number of bytes that the method has removed from the stack.
def espDelta : Int :=
  (s.espAfter - s.espBefore).toInt

def nArgsInferred : Int :=
  if espDelta s ≥ 0 then (espDelta s).tdiv 4 else -1

def diffThis (this : Option (List Byte)) (after : List Byte) : List Line :=
  this.elim [] (diffMem .this · after SNAP_SIZE)

-- What the second observers have in common.
def observeAfter (snaps : Snapshots) (m : ProcessMemory) : List Line :=
  [.returned name s.retval (espDelta s) (nArgsInferred s)] ++
  (safeCopy m s.thisPtr SNAP_SIZE).elim failed (fun after =>
    diffThis snaps.this after ++ hexDump .thisAfter after SNAP_SIZE) ++
  diffSnapshot (.edx s.edx) m s.edx snaps.edx ++
  s.args.zipIdx.flatMap fun (v, i) => diffSnapshot (.arg i v) m v (snaps.args[i]?.join)

variable (g : Globals) (readable : DWord → Prop) [DecidablePred readable] (m : Memory)

-- The observers have no effect if the argument is no slot.
def tersafeObserverBefore (slot tid : DWord) : Option (Snapshots × List Line) :=
  (g.observed slot).map fun addr =>
    observeBefore (.vt slot.toNat) [.thisFailed] (.load addr m) tid (view readable m)

def tersafeObserverAfter (slot : DWord) (snaps : Snapshots) : List Line :=
  (g.observed slot).elim [] fun addr =>
    observeAfter (.vt slot.toNat) [.thisAfterFailed] (.load addr m) snaps (view readable m)

def subName (idx : DWord) : Name :=
  .sub (idx.sshiftRight 8 &&& 0xFF).toNat (idx &&& 0xFF).toNat

def tersafeSubObserverBefore (idx tid : DWord) : Option (Snapshots × List Line) :=
  (g.subObserved idx).map fun addr => observeBefore (subName idx) [] (.load addr m) tid (view readable m)

def tersafeSubObserverAfter (idx : DWord) (snaps : Snapshots) : List Line :=
  (g.subObserved idx).elim [] fun addr =>
    observeAfter (subName idx) [] (.load addr m) snaps (view readable m)

end Observers

end Tersafe
