import MhoLauncher.Library.Bytes

namespace HexDump

-- The text for each of the first `size` bytes. Reading behind the end of the bytes fails.
def append (text : Byte → List Char) (bytes : List Byte) (size : Nat) : Option (List Char) := do
  let strs ← (List.range size).mapM fun i => do
    let ch ← bytes[i]?
    return text ch
  return strs.flatten

def hex : List Char :=
  ['0', '1', '2', '3', '4', '5', '6', '7', '8', '9', 'A', 'B', 'C', 'D', 'E', 'F']

def toHex : List Byte → Nat → Option (List Char) :=
  append fun ch => [hex.getD ((ch &&& 0xF0) >>> 4).toNat ' ', hex.getD (ch &&& 0xF).toNat ' ', ' ']

-- In the source `char` is signed.
def toAscii : List Byte → Nat → Option (List Char) :=
  append fun ch => if 32 ≤ ch.toInt ∧ ch.toInt ≤ 127 then [Char.ofNat ch.toNat] else ['.']

structure Row where
  offset : Nat
  hex    : List Char
  ascii  : List Char

def row (bytes : List Byte) (offset size : Nat) : Option Row := do
  return ⟨offset, ← toHex (bytes.drop offset) size, ← toAscii (bytes.drop offset) size⟩

-- The rows that `show` prints. The size is of type `int`.
def showBytes (bytes : List Byte) (size : Int) : Option (List Row) := do
  let chunks := size.tdiv 16
  let rem := size.tmod 16
  let rows ← (List.range chunks.toNat).mapM fun i => row bytes (i * 16) 16
  if rem > 0 then
    return rows ++ [← row bytes (chunks * 16).toNat rem.toNat]
  else
    return rows

section

variable {text : Byte → List Char} {bytes : List Byte} {size : Nat} {f : α → Option β} {l : List α}

theorem mapM_isSome_iff : (l.mapM f).isSome ↔ ∀ a ∈ l, (f a).isSome := by
  induction l
  case nil => simp
  case cons a l hi =>
    rw [List.forall_mem_cons, ←hi, List.mapM_cons]
    cases f a <;> cases l.mapM f <;> simp

theorem isSome_bind_iff {o : Option α} {f : α → Option β} (h : ∀ a, (f a).isSome) :
    (o.bind f).isSome ↔ o.isSome := by
  cases o
  case none   => rfl
  case some a => simp [h a]

theorem append_isSome_iff : (append text bytes size).isSome ↔ size ≤ bytes.length := by
  have h (i) : (bytes[i]?.bind fun ch => some <| text ch).isSome ↔ i < bytes.length := by
    rw [isSome_bind_iff fun _ => rfl, Option.isSome_iff_ne_none, ne_eq, List.getElem?_eq_none_iff, Nat.not_le]
  refine (isSome_bind_iff fun _ => rfl).trans <| mapM_isSome_iff.trans ?_
  constructor
  case mp =>
    intro hi
    by_contra hl
    exact absurd ((h _).mp <| hi bytes.length <| List.mem_range.mpr <| by omega) <| by simp
  case mpr => exact fun hl i hi => (h i).mpr <| (List.mem_range.mp hi).trans_le hl

theorem row_isSome_iff {b : List Byte} {i : Nat} (hs : 0 < size) :
    (row b i size).isSome ↔ i + size ≤ b.length := by
  have h {text} : (append text (b.drop i) size).isSome ↔ i + size ≤ b.length := by
    rw [append_isSome_iff, List.length_drop]
    omega
  constructor
  case mp =>
    intro hr
    have ⟨_, hr⟩ := Option.isSome_iff_exists.mp hr
    have ⟨_, hx, _⟩ := Option.bind_eq_some_iff.mp hr
    exact h.mp <| by rw [←toHex, hx]; rfl
  case mpr =>
    intro hl
    exact (isSome_bind_iff fun _ => (isSome_bind_iff fun _ => rfl).mpr <| h.mpr hl).mpr <| h.mpr hl

-- The division rounds towards zero.
theorem tdiv_cases (a : Int) :
    0 ≤ a ∧ a.tdiv 16 = a / 16 ∧ a.tmod 16 = a % 16 ∨ a < 0 ∧ a.tdiv 16 ≤ 0 ∧ a.tmod 16 ≤ 0 := by
  have hs := Int.tdiv_mul_add_tmod a 16
  rcases Int.lt_or_le a 0 with h | h
  case inl =>
    have hd := Int.neg_tdiv a 16
    rw [Int.tdiv_eq_ediv_of_nonneg (by omega)] at hd
    exact .inr ⟨h, by omega, by omega⟩
  case inr => exact .inl ⟨h, Int.tdiv_eq_ediv_of_nonneg h, Int.tmod_eq_emod_of_nonneg h⟩

-- Of a negative size nothing is shown.
theorem showBytes_isSome_iff {size : Int} : (showBytes bytes size).isSome ↔ size ≤ bytes.length := by
  have hr : ((List.range (size.tdiv 16).toNat).mapM fun i => row bytes (i * 16) 16).isSome ↔
      (size.tdiv 16).toNat * 16 ≤ bytes.length := by
    simp only [mapM_isSome_iff, List.mem_range, row_isSome_iff (Nat.succ_pos 15)]
    constructor
    case mpr => exact fun _ i _ => by omega
    case mp =>
      intro h
      rcases Nat.eq_zero_or_pos (size.tdiv 16).toNat with hz | hz
      case inl => omega
      case inr => have := h _ <| Nat.sub_one_lt_of_lt hz; omega
  have hd := tdiv_cases size
  simp only [showBytes, Option.bind_eq_bind]
  split
  case isFalse hm =>
    rw [isSome_bind_iff fun _ => rfl, hr]
    omega
  case isTrue hm =>
    have hp : 0 < (size.tmod 16).toNat := by omega
    have hw {offset} := row_isSome_iff hp (b := bytes) (i := offset)
    constructor
    case mp =>
      intro h
      have ⟨_, h⟩ := Option.isSome_iff_exists.mp h
      have ⟨_, _, h⟩ := Option.bind_eq_some_iff.mp h
      have ⟨_, h, _⟩ := Option.bind_eq_some_iff.mp h
      have := hw.mp <| Option.isSome_iff_exists.mpr ⟨_, h⟩
      omega
    case mpr =>
      intro h
      refine (isSome_bind_iff fun _ => (isSome_bind_iff fun _ => rfl).mpr <| hw.mpr ?_).mpr <| hr.mpr ?_
      all_goals omega

end

end HexDump
