import MhoLauncher.Library.Memory

open Bytes Memory

namespace CryGame

-- The bytes that the process can read.
abbrev ProcessMemory := DWord → Option Byte

namespace ProcessMemory

variable (m : ProcessMemory)

-- This fails if any of the bytes can not be read.
def readProcessMemory (address : DWord) (size : Nat) : Option (List Byte) :=
  if address.toNat + size ≤ 2 ^ 32 then
    (List.range size).mapM fun i => m (address + BitVec.ofNat 32 i)
  else
    none

def safeReadBytes (address : DWord) (size : Nat) : Option (List Byte) :=
  if address < 0x10000 ∨ size = 0 then none else m.readProcessMemory address size

-- Reads an integer of `size` bytes.
def safeReadValue (size : Nat) (address : DWord) : Option (BitVec (8 * size)) :=
  m.safeReadBytes address size |>.map (ofLE (8 * size))

-- The memory that consists of the double words at the given addresses.
def ofDWords (l : List (DWord × DWord)) : ProcessMemory := fun a => do
  let (address, v) ← l.find? fun p => (a - p.1).toNat < 4
  (toLE 4 v)[(a - address).toNat]?

section View

variable (readable : DWord → Prop) [DecidablePred readable]

-- The readable part of a memory.
def view (m : Memory) : ProcessMemory :=
  fun a => if readable a then some (m a) else none

structure Readable (address : DWord) (size : Nat) : Prop where
  le       : 0x10000 ≤ address
  ne       : size ≠ 0
  add_le   : address.toNat + size ≤ 2 ^ 32
  readable : ∀ i < size, readable (address + BitVec.ofNat 32 i)

variable {readable} {m : Memory} {a : DWord} {n : Nat} {bs : List Byte}

theorem mapM_view {l : List Nat} :
    l.mapM (fun i => view readable m (a + BitVec.ofNat 32 i)) = some bs ↔
    (∀ i ∈ l, readable (a + BitVec.ofNat 32 i)) ∧ l.map (fun i => m (a + BitVec.ofNat 32 i)) = bs := by
  induction l generalizing bs
  case nil => simp
  case cons i l hi =>
    rw [List.mapM_cons, List.forall_mem_cons, List.map_cons]
    by_cases hr : readable (a + BitVec.ofNat 32 i)
    case neg => simp [view, hr]
    case pos =>
      have hv : view readable m (a + BitVec.ofNat 32 i) = some (m (a + BitVec.ofNat 32 i)) := if_pos hr
      simp only [hv, Option.bind_eq_bind, Option.bind_some, Option.bind_eq_some_iff, hi, Option.pure_def,
        Option.some.injEq, hr, true_and, and_assoc, exists_and_left, exists_eq_left']

theorem safeReadBytes_view :
    (view readable m).safeReadBytes a n = some bs ↔ Readable readable a n ∧ m.read a n = bs := by
  rw [safeReadBytes, readProcessMemory, Option.ite_none_left_eq_some, Option.ite_none_right_eq_some,
    mapM_view, not_or]
  constructor
  case mp =>
    intro ⟨⟨h₁, h₂⟩, h₃, h₄, h⟩
    exact ⟨⟨BitVec.not_lt.mp h₁, h₂, h₃, fun i hi => h₄ i <| List.mem_range.mpr hi⟩, h⟩
  case mpr =>
    intro ⟨⟨h₁, h₂, h₃, h₄⟩, h⟩
    exact ⟨⟨BitVec.not_lt.mpr h₁, h₂⟩, h₃, fun i hi => h₄ i <| List.mem_range.mp hi, h⟩

end View

section Read

variable {m : ProcessMemory} {a : DWord} {n : Nat} {bs : List Byte}

theorem eq_view (m : ProcessMemory) : view (fun a => (m a).isSome) (fun a => (m a).getD 0) = m := by
  funext a
  rw [view]
  cases m a <;> rfl

theorem length_of_safeReadBytes (h : m.safeReadBytes a n = some bs) : bs.length = n := by
  rw [←eq_view m, safeReadBytes_view] at h
  exact h.right ▸ read_length

theorem safeReadValue_iff {v : BitVec (8 * n)} :
    m.safeReadValue n a = some v ↔ m.safeReadBytes a n = some (toLE n v) := by
  rw [safeReadValue, Option.map_eq_some_iff]
  constructor
  case mp =>
    intro ⟨bs, hr, hv⟩
    have hl := length_of_safeReadBytes hr
    rw [hr, ←hv, ←toLE_ofLE (w := 8 * n) bs (by rw [hl]), hl, ofLE_toLE _ (Nat.le_refl _)]
  case mpr =>
    intro hr
    exact ⟨_, hr, ofLE_toLE v (Nat.le_refl _)⟩

end Read

end ProcessMemory

end CryGame
