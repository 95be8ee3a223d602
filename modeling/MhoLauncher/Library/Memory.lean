import Mathlib
import MhoLauncher.Library.Bytes

open Bytes

-- The content of a 32 bit address space. Addresses wrap around.
abbrev Memory := DWord → Byte

namespace Memory

variable {m m' : Memory} {a c x : DWord} {bs cs : List Byte} {vs ws : List DWord} {v : DWord} {i k l n : Nat}

def range (a : DWord) (n : Nat) : Set DWord :=
  { x | (x - a).toNat < n }

def write (m : Memory) (a : DWord) (bs : List Byte) : Memory :=
  fun x => bs[(x - a).toNat]?.getD (m x)

def read (m : Memory) (a : DWord) (n : Nat) : List Byte :=
  List.range n |>.map fun i => m (a + BitVec.ofNat 32 i)

def dword (m : Memory) (a : DWord) : DWord :=
  ofLE 32 (m.read a 4)

def writeDWords (m : Memory) (a : DWord) (vs : List DWord) : Memory :=
  m.write a (vs.flatMap <| toLE 4)

-- The bytes are in memory at the given address.
def Loaded (m : Memory) (a : DWord) (bs : List Byte) : Prop :=
  m.read a bs.length = bs

section Range

theorem mem_range : x ∈ range a n ↔ (x - a).toNat < n :=
  Iff.rfl

theorem exists_of_mem_range (h : x ∈ range a n) : ∃ i < n, x = a + BitVec.ofNat 32 i :=
  ⟨(x - a).toNat, h, by rw [BitVec.ofNat_toNat, BitVec.setWidth_eq, add_sub_cancel]⟩

theorem add_sub_toNat (a : DWord) (i : Nat) : (a + BitVec.ofNat 32 i - a).toNat = i % 2 ^ 32 := by
  simp [add_comm a]

theorem add_mem_range (h : i < n) : a + BitVec.ofNat 32 i ∈ range a n := by
  rw [mem_range, add_sub_toNat]
  exact (Nat.mod_le ..).trans_lt h

theorem range_add_subset (h : i + k ≤ n) : range (a + BitVec.ofNat 32 i) k ⊆ range a n := by
  intro x hx
  have ⟨j, hj, he⟩ := exists_of_mem_range hx
  rw [he, add_assoc, ←BitVec.ofNat_add]
  exact add_mem_range (by omega)

theorem range_subset (h : k ≤ n) : range a k ⊆ range a n :=
  fun _ hx => hx.trans_le h

theorem range_one : range a 1 = {a} := by
  ext x
  rw [mem_range, Set.mem_singleton_iff, Nat.lt_one_iff]
  bv_omega

theorem range_add_disjoint (h : i + n ≤ k) (hl : k + l ≤ 2 ^ 32) :
    Disjoint (range (a + BitVec.ofNat 32 i) n) (range (a + BitVec.ofNat 32 k) l) := by
  rw [Set.disjoint_left]
  intro x hx hx'
  have ⟨j, hj, he⟩ := exists_of_mem_range hx
  have ⟨j', hj', he'⟩ := exists_of_mem_range hx'
  rw [he, add_assoc, add_assoc, ←BitVec.ofNat_add, ←BitVec.ofNat_add] at he'
  have := congrArg BitVec.toNat <| add_left_cancel he'
  simp only [BitVec.toNat_ofNat] at this
  omega

theorem range_disjoint (h : a.toNat + n ≤ c.toNat) (hl : c.toNat + l ≤ 2 ^ 32) :
    Disjoint (range a n) (range c l) := by
  rw [Set.disjoint_left]
  intro x hx hx'
  rw [mem_range, BitVec.toNat_sub] at hx hx'
  have := x.isLt
  omega

theorem toNat_of_mem_range (h : x ∈ range a n) (hl : a.toNat + n ≤ 2 ^ 32) :
    a.toNat ≤ x.toNat ∧ x.toNat < a.toNat + n := by
  rw [mem_range, BitVec.toNat_sub] at h
  have := x.isLt
  omega

end Range

section Write

theorem write_of_not_mem (h : x ∉ range a bs.length) : m.write a bs x = m x := by
  rw [write, List.getElem?_eq_none (Nat.le_of_not_lt h), Option.getD_none]

theorem write_eqOn {p : Set DWord} (h : Disjoint p (range a bs.length)) : Set.EqOn (m.write a bs) m p :=
  fun _ hx => write_of_not_mem <| Set.disjoint_left.mp h hx

theorem write_add (h : i < bs.length) (hl : bs.length ≤ 2 ^ 32) :
    m.write a bs (a + BitVec.ofNat 32 i) = bs[i] := by
  rw [write, add_sub_toNat, Nat.mod_eq_of_lt (by omega), List.getElem?_eq_getElem h, Option.getD_some]

theorem write_apply : m.write a bs x = bs[(x - a).toNat]?.getD (m x) :=
  rfl

-- The position of an address relative to one that lies `n` bytes further.
theorem sub_add_toNat (hn : n < 2 ^ 32) :
    (x - (a + BitVec.ofNat 32 n)).toNat =
    if (x - a).toNat < n then (x - a).toNat + 2 ^ 32 - n else (x - a).toNat - n := by
  have := (x - a).isLt
  rw [←sub_sub, BitVec.toNat_sub, BitVec.toNat_ofNat, Nat.mod_eq_of_lt hn]
  split <;> omega

@[simp]
theorem write_nil : m.write a [] = m :=
  rfl

-- Two writes to adjacent ranges are one write, in either order.
theorem write_append (hl : bs.length + cs.length ≤ 2 ^ 32) :
    (m.write a bs).write (a + BitVec.ofNat 32 bs.length) cs = m.write a (bs ++ cs) := by
  cases cs
  case nil => rw [write_nil, List.append_nil]
  case cons c cs =>
    rw [List.length_cons] at hl
    funext x
    rw [write_apply, write_apply, write_apply, sub_add_toNat (by omega)]
    split
    case isTrue h =>
      have := (x - a).isLt
      rw [List.getElem?_eq_none (by simp; omega), List.getElem?_append_left h, Option.getD_none]
    case isFalse h =>
      rw [List.getElem?_append_right (by omega), List.getElem?_eq_none (l := bs) (by omega), Option.getD_none]

theorem append_write (hl : bs.length + cs.length ≤ 2 ^ 32) :
    (m.write (a + BitVec.ofNat 32 bs.length) cs).write a bs = m.write a (bs ++ cs) := by
  cases cs
  case nil => rw [write_nil, List.append_nil]
  case cons c cs =>
    rw [List.length_cons] at hl
    funext x
    rw [write_apply, write_apply, write_apply, sub_add_toNat (by omega)]
    by_cases h : (x - a).toNat < bs.length
    case pos => rw [List.getElem?_eq_getElem h, List.getElem?_append_left h, List.getElem?_eq_getElem h]; rfl
    case neg =>
      have hn := Nat.le_of_not_lt h
      rw [if_neg h, List.getElem?_eq_none hn, List.getElem?_append_right hn, Option.getD_none]

theorem write_comm (h : Disjoint (range a bs.length) (range c cs.length)) :
    (m.write a bs).write c cs = (m.write c cs).write a bs := by
  funext x
  by_cases hx : x ∈ range a bs.length
  case pos =>
    have hc := write_of_not_mem (m := m.write a bs) <| Set.disjoint_left.mp h hx
    rw [hc, write_apply, write_apply, List.getElem?_eq_getElem hx]
    rfl
  case neg =>
    rw [write_of_not_mem (m := m.write c cs) hx, write_apply, write_of_not_mem hx]
    rfl

end Write

section Read

@[simp]
theorem read_length : (m.read a n).length = n := by
  simp [read]

theorem read_congr (h : Set.EqOn m m' (range a n)) : m.read a n = m'.read a n :=
  List.map_congr_left fun _ hi => h <| add_mem_range <| List.mem_range.mp hi

theorem read_add : m.read a (n + k) = m.read a n ++ m.read (a + BitVec.ofNat 32 n) k := by
  simp [read, List.range_add, Function.comp_def, BitVec.ofNat_add, add_assoc]

theorem read_write_slice (h : i + n ≤ bs.length) (hl : bs.length ≤ 2 ^ 32) :
    (m.write a bs).read (a + BitVec.ofNat 32 i) n = (bs.drop i).take n := by
  refine List.ext_getElem (by simp; omega) fun j hj _ => ?_
  rw [read_length] at hj
  simp only [read, List.getElem_map, List.getElem_range, add_assoc, ←BitVec.ofNat_add,
    write_add (show i + j < bs.length by omega) hl, List.getElem_take, List.getElem_drop]

theorem read_write (hl : bs.length ≤ 2 ^ 32) : (m.write a bs).read a bs.length = bs := by
  have := read_write_slice (m := m) (a := a) (i := 0) (n := bs.length) (by omega) hl
  simpa using this

end Read

section DWord

theorem dword_congr (h : Set.EqOn m m' (range a 4)) : m.dword a = m'.dword a :=
  congrArg _ <| read_congr h

theorem dword_writeDWords (h : vs[i]? = some v) (hl : 4 * vs.length ≤ 2 ^ 32) :
    (m.writeDWords a vs).dword (a + BitVec.ofNat 32 (4 * i)) = v := by
  have ⟨hi, _⟩ := List.getElem?_eq_some_iff.mp h
  have hb := flatMap_toLE_length 4 vs
  rw [dword, writeDWords, read_write_slice (by omega) (by omega), flatMap_toLE_slice h]
  exact ofLE_toLE v (by simp)

theorem dword_writeDWords_head (hl : 4 * (vs.length + 1) ≤ 2 ^ 32) :
    (m.writeDWords a (v :: vs)).dword a = v := by
  have h : (v :: vs)[0]? = some v := rfl
  have := dword_writeDWords (m := m) (a := a) h hl
  simpa using this

theorem writeDWords_eqOn {p : Set DWord} (h : Disjoint p (range a (4 * vs.length))) :
    Set.EqOn (m.writeDWords a vs) m p :=
  write_eqOn <| by rwa [flatMap_toLE_length]

theorem writeDWords_append (hl : 4 * (vs.length + ws.length) ≤ 2 ^ 32) :
    (m.writeDWords a vs).writeDWords (a + BitVec.ofNat 32 (4 * vs.length)) ws =
      m.writeDWords a (vs ++ ws) := by
  have hb := flatMap_toLE_length 4 vs
  have hc := flatMap_toLE_length 4 ws
  rw [writeDWords, writeDWords, ←hb, write_append (by omega), ←List.flatMap_append, ←writeDWords]

theorem append_writeDWords (hl : 4 * (vs.length + ws.length) ≤ 2 ^ 32) :
    (m.writeDWords (a + BitVec.ofNat 32 (4 * vs.length)) ws).writeDWords a vs =
      m.writeDWords a (vs ++ ws) := by
  have hb := flatMap_toLE_length 4 vs
  have hc := flatMap_toLE_length 4 ws
  rw [writeDWords, writeDWords, ←hb, append_write (by omega), ←List.flatMap_append, ←writeDWords]

end DWord

section Loaded

theorem loaded_write (hl : bs.length ≤ 2 ^ 32) : (m.write a bs).Loaded a bs :=
  read_write hl

theorem Loaded.congr (h : m.Loaded a bs) (he : Set.EqOn m' m (range a bs.length)) : m'.Loaded a bs :=
  (read_congr he).trans h

theorem loaded_append :
    m.Loaded a (bs ++ cs) ↔ m.Loaded a bs ∧ m.Loaded (a + BitVec.ofNat 32 bs.length) cs := by
  rw [Loaded, List.length_append, read_add]
  exact ⟨(List.append_inj · read_length), fun ⟨h₁, h₂⟩ => congrArg₂ _ h₁ h₂⟩

theorem Loaded.head {b : Byte} (h : m.Loaded a (b :: bs)) : m a = b := by
  have h : m.Loaded a ([b] ++ bs) := h
  simpa [Loaded, read] using (loaded_append.mp h).left

end Loaded

section Part

-- The bytes at one address are a part of the bytes at another one.
def Part (a : DWord) (bs : List Byte) (c : DWord) (cs : List Byte) : Prop :=
  ∃ xs ys, xs ++ bs ++ ys = cs ∧ c + BitVec.ofNat 32 xs.length = a

theorem Part.left : Part a bs a (bs ++ cs) :=
  ⟨[], cs, rfl, add_zero a⟩

theorem Part.right (h : c + BitVec.ofNat 32 cs.length = a) : Part a bs c (cs ++ bs) :=
  ⟨cs, [], List.append_nil _, h⟩

theorem Part.trans {d : DWord} {ds : List Byte} (h₁ : Part a bs c cs) (h₂ : Part c cs d ds) :
    Part a bs d ds := by
  have ⟨xs₁, ys₁, hc, ha⟩ := h₁
  have ⟨xs₂, ys₂, hd, hc'⟩ := h₂
  refine ⟨xs₂ ++ xs₁, ys₁ ++ ys₂, ?_, ?_⟩
  · simp only [←hd, ←hc, List.append_assoc]
  · rw [List.length_append, BitVec.ofNat_add, ←add_assoc, hc', ha]

theorem Part.loaded (h : Part a bs c cs) (hl : m.Loaded c cs) : m.Loaded a bs := by
  have ⟨_, _, hc, ha⟩ := h
  rw [←hc, loaded_append, loaded_append, ha] at hl
  exact hl.left.right

theorem Part.range_subset (h : Part a bs c cs) : range a bs.length ⊆ range c cs.length := by
  have ⟨_, _, hc, ha⟩ := h
  rw [←hc, ←ha]
  exact range_add_subset (by simp)

end Part

-- Bytes that are to be written to an address.
abbrev Patch := DWord × List Byte

def Patch.range (p : Patch) : Set DWord :=
  Memory.range p.1 p.2.length

-- Writes the patches one after the other.
def patch (m : Memory) (ps : List Patch) : Memory :=
  ps.foldl (fun m p => m.write p.1 p.2) m

section Patch

variable {p : Patch} {ps qs : List Patch}

theorem patch_append : m.patch (ps ++ qs) = (m.patch ps).patch qs :=
  List.foldl_append

-- If every step of a loop writes patches, then the loop writes all of them.
theorem foldl_eq_patch {f : Memory → α → Memory} {g : α → List Patch} {l : List α}
    (h : ∀ m, ∀ x ∈ l, f m x = m.patch (g x)) : l.foldl f m = m.patch (l.flatMap g) := by
  induction l generalizing m
  case nil => rfl
  case cons x l hi =>
    rw [List.foldl_cons, h m x (List.mem_cons_self ..), hi fun m y hy => h m y (List.mem_cons_of_mem _ hy),
      List.flatMap_cons, patch_append]

theorem patch_eqOn {s : Set DWord} (h : ∀ p ∈ ps, Disjoint s p.range) : Set.EqOn (m.patch ps) m s := by
  induction ps generalizing m
  case nil => exact fun _ _ => rfl
  case cons p ps hi =>
    have hp := write_eqOn (m := m) <| h p <| List.mem_cons_self ..
    exact (hi fun q hq => h q <| List.mem_cons_of_mem _ hq).trans hp

-- A patch is not affected by the ones that follow.
theorem loaded_patch (h : p ∈ ps) (hd : ps.Pairwise fun p q => Disjoint p.range q.range)
    (hl : p.2.length ≤ 2 ^ 32) : (m.patch ps).Loaded p.1 p.2 := by
  have ⟨l₁, l₂, he⟩ := List.append_of_mem h
  rw [he, List.pairwise_append, List.pairwise_cons] at hd
  rw [he, patch_append]
  exact (loaded_write hl).congr <| patch_eqOn hd.right.left.left

-- The order of patches does not matter if they do not overlap.
theorem patch_perm (h : ps.Perm qs) (hd : ps.Pairwise fun p q => Disjoint p.range q.range) :
    m.patch ps = m.patch qs := by
  refine h.foldl_eq' (fun p hp q hq m => ?_) m
  have : Std.Symm fun p q : Patch => Disjoint p.range q.range := ⟨fun _ _ h => h.symm⟩
  by_cases he : p = q
  case pos => rw [he]
  case neg => exact write_comm <| hd.forall hp hq he

theorem patch_comm (hd : (ps ++ qs).Pairwise fun p q => Disjoint p.range q.range) :
    (m.patch ps).patch qs = (m.patch qs).patch ps := by
  rw [←patch_append, ←patch_append, patch_perm List.perm_append_comm hd]

end Patch

section Bytewise

-- The patches of the single bytes.
def Patch.bytewise (p : Patch) : List Patch :=
  p.2.zipIdx.map fun (b, i) => (p.1 + BitVec.ofNat 32 i, [b])

variable {p q : Patch} {ps qs : List Patch}

theorem patch_bytewise (h : p.2.length ≤ 2 ^ 32) : m.patch p.bytewise = m.write p.1 p.2 := by
  have ⟨a, bs⟩ := p
  simp only [Patch.bytewise] at h ⊢
  induction bs using List.reverseRecOn
  case nil => rfl
  case append_singleton bs b hi =>
    rw [List.length_append, List.length_singleton] at h
    rw [List.zipIdx_append, List.map_append, patch_append, hi (by omega), Nat.zero_add]
    exact write_append h

theorem mem_bytewise (h : q ∈ p.bytewise) : ∃ i < p.2.length, q.range = range (p.1 + BitVec.ofNat 32 i) 1 := by
  obtain ⟨⟨b, i⟩, hm, rfl⟩ := List.mem_map.mp h
  exact ⟨i, (List.getElem?_eq_some_iff.mp <| List.mk_mem_zipIdx_iff_getElem?.mp hm).1, rfl⟩

theorem bytewise_range_subset (h : q ∈ p.bytewise) : q.range ⊆ p.range := by
  have ⟨i, hi, he⟩ := mem_bytewise h
  exact he ▸ range_add_subset hi

theorem bytewise_pairwise (h : p.2.length ≤ 2 ^ 32) :
    p.bytewise.Pairwise fun q r => Disjoint q.range r.range := by
  refine List.pairwise_map.mpr <| List.pairwise_iff_getElem.mpr fun i j hi hj hij => ?_
  rw [List.length_zipIdx] at hi hj
  rw [List.getElem_zipIdx, List.getElem_zipIdx, Nat.zero_add, Nat.zero_add]
  exact range_add_disjoint (n := 1) (l := 1) hij (by omega)

-- The bytes of patches that do not overlap can be written in any order.
theorem patch_bytewise_perm (hp : qs.Perm <| ps.flatMap Patch.bytewise) (hl : ∀ p ∈ ps, p.2.length ≤ 2 ^ 32)
    (hd : ps.Pairwise fun p q => Disjoint p.range q.range) : m.patch qs = m.patch ps := by
  have hb : (ps.flatMap Patch.bytewise).Pairwise fun p q => Disjoint p.range q.range := by
    refine List.pairwise_flatMap.mpr ⟨fun p hp => bytewise_pairwise <| hl p hp, hd.imp ?_⟩
    exact fun h p hp q hq => h.mono (bytewise_range_subset hp) (bytewise_range_subset hq)
  rw [←patch_perm hp.symm hb]
  exact (foldl_eq_patch fun m p hp => (patch_bytewise <| hl p hp).symm).symm

end Bytewise

end Memory
