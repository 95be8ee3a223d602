import Mathlib

-- A file that is open for writing. The position may lie past the end.
structure File (α : Type*) where
  content : List α
  pos     : Nat

namespace File

variable {α : Type*}

-- Something that is to be written at an offset.
structure Chunk (α : Type*) where
  offset : Nat
  items  : List α

section Chunk

-- The item of a chunk at a position of the file.
def Chunk.item? (w : Chunk α) (i : Nat) : Option α :=
  if w.offset ≤ i then w.items[i - w.offset]? else none

def Chunk.Disjoint (w v : Chunk α) : Prop :=
  w.offset + w.items.length ≤ v.offset ∨ v.offset + v.items.length ≤ w.offset

-- What the last one of the chunks that have an item at a position has there.
def last? : List (Chunk α) → Nat → Option α
  | [],      _ => none
  | w :: ws, i => (last? ws i).or (w.item? i)

-- The content has the items of the chunk at its offset.
def Holds (content : List α) (w : Chunk α) : Prop :=
  (content.drop w.offset).take w.items.length = w.items

-- Where a chunk is covered by others, the last one of them has the same item.
def Spares (ws : List (Chunk α)) (w : Chunk α) : Prop :=
  ∀ i a, w.item? i = some a → ∀ b, last? ws i = some b → b = a

variable {w v : Chunk α} {ws : List (Chunk α)} {l : List α} {i : Nat} {a : α}

theorem Chunk.item?_eq_some_iff : w.item? i = some a ↔ ∃ k, i = w.offset + k ∧ w.items[k]? = some a := by
  rw [item?, Option.ite_none_right_eq_some]
  constructor
  case mp =>
    intro ⟨h, hi⟩
    exact ⟨i - w.offset, by omega, hi⟩
  case mpr =>
    rintro ⟨k, rfl, hk⟩
    exact ⟨by omega, by rwa [Nat.add_sub_cancel_left]⟩

theorem Chunk.Disjoint.item?_eq_none (h : Chunk.Disjoint w v) (hw : w.item? i = some a) :
    v.item? i = none := by
  obtain ⟨k, rfl, hk⟩ := item?_eq_some_iff.mp hw
  have hl : k < w.items.length := (List.getElem?_eq_some_iff.mp hk).1
  rw [item?, ite_eq_right_iff, List.getElem?_eq_none_iff]
  intro hv
  rcases h with h | h <;> omega

theorem holds_iff : Holds l w ↔ ∀ i a, w.item? i = some a → l[i]? = some a := by
  constructor
  case mp =>
    intro h i a hi
    obtain ⟨k, rfl, hk⟩ := Chunk.item?_eq_some_iff.mp hi
    have hl : k < w.items.length := (List.getElem?_eq_some_iff.mp hk).1
    rw [←h, List.getElem?_take_of_lt hl, List.getElem?_drop] at hk
    exact hk
  case mpr =>
    intro h
    refine List.ext_getElem? fun k => ?_
    by_cases hl : k < w.items.length
    case pos =>
      rw [List.getElem?_take_of_lt hl, List.getElem?_drop, List.getElem?_eq_getElem hl]
      exact h _ _ <| Chunk.item?_eq_some_iff.mpr ⟨k, rfl, List.getElem?_eq_getElem hl⟩
    case neg =>
      have hl := Nat.le_of_not_lt hl
      rw [List.getElem?_eq_none hl, List.getElem?_eq_none <| (List.length_take_le ..).trans hl]

theorem last?_eq_none (h : ∀ w ∈ ws, w.item? i = none) : last? ws i = none := by
  induction ws
  case nil          => rfl
  case cons w ws hi => rw [last?, hi fun w hw => h w <| .tail _ hw, h w <| .head _, Option.or_none]

theorem exists_of_last? (h : last? ws i = some a) : ∃ w ∈ ws, w.item? i = some a := by
  induction ws
  case nil => contradiction
  case cons w ws hi =>
    rw [last?] at h
    cases ho : last? ws i
    case none   => exact ⟨w, .head _, by rwa [ho] at h⟩
    case some b =>
      rw [ho, Option.some_or] at h
      have ⟨v, hv, ha⟩ := hi <| ho.trans h
      exact ⟨v, .tail _ hv, ha⟩

theorem last?_eq_none_iff : last? ws i = none ↔ ∀ w ∈ ws, w.item? i = none := by
  refine ⟨fun h => ?_, last?_eq_none⟩
  induction ws
  case nil => simp
  case cons w ws hi =>
    have ⟨hs, hw⟩ := Option.or_eq_none_iff.mp h
    exact List.forall_mem_cons.mpr ⟨hw, hi hs⟩

theorem Spares.of_disjoint (h : ∀ v ∈ ws, Chunk.Disjoint w v) : Spares ws w := by
  intro i a hw b hb
  rw [last?_eq_none fun v hv => (h v hv).item?_eq_none hw] at hb
  contradiction

variable {β : Type*} {bs : List β} {c : β → Chunk α} {q : β → Bool}

theorem last?_map_filter (h : ∀ b ∈ bs, q b = false → (c b).item? i = none) :
    last? ((bs.filter q).map c) i = last? (bs.map c) i := by
  induction bs
  case nil => rfl
  case cons b bs hi =>
    have hi := hi fun b hb => h b <| .tail _ hb
    cases hq : q b
    case true  => rw [List.filter_cons_of_pos hq, List.map_cons, List.map_cons, last?, last?, hi]
    case false =>
      rw [List.filter_cons_of_neg (by simp [hq]), List.map_cons, last?, h b (.head _) hq, Option.or_none, hi]

-- Chunks that are disjoint from a given one do not matter for it.
theorem spares_map_filter (h : ∀ b ∈ bs, q b = false → Chunk.Disjoint w (c b)) :
    Spares ((bs.filter q).map c) w ↔ Spares (bs.map c) w := by
  refine forall₂_congr fun i a => forall_congr' fun hw => ?_
  rw [last?_map_filter fun b hb hq => (h b hb hq).item?_eq_none hw]

end Chunk

section Write

variable [Zero α]

def empty : File α :=
  ⟨[], 0⟩

def seek (f : File α) (pos : Nat) : File α :=
  { f with pos }

-- Overwrites the content from the position on. A gap between the end and the position is filled with
-- zeros, unless there is nothing to write.
def write (f : File α) (u : List α) : File α :=
  if u = [] then
    f
  else
    let gap := List.replicate (f.pos - f.content.length) 0
    ⟨f.content.take f.pos ++ gap ++ u ++ f.content.drop (f.pos + u.length), f.pos + u.length⟩

def put (f : File α) (w : Chunk α) : File α :=
  (f.seek w.offset).write w.items

variable {f : File α} {w : Chunk α} {ws : List (Chunk α)} {u : List α} {i : Nat} {a : α}

-- What is written comes behind as many items as the position says. They start with the old content.
theorem write_eq (h : u ≠ []) :
    ∃ t, t.length = f.pos ∧ (∀ i a, i < f.pos → f.content[i]? = some a → t[i]? = some a) ∧
    (f.write u).content = t ++ u ++ f.content.drop (f.pos + u.length) := by
  refine ⟨f.content.take f.pos ++ List.replicate (f.pos - f.content.length) 0, ?_, ?_, ?_⟩
  case refine_1 => simp; omega
  case refine_2 =>
    intro i a hi hc
    have hl : i < f.content.length := (List.getElem?_eq_some_iff.mp hc).1
    rw [List.getElem?_append_left (by rw [List.length_take]; omega), List.getElem?_take_of_lt hi, hc]
  case refine_3 => rw [write, if_neg h]

theorem put_getElem?_of_item (h : w.item? i = some a) : (f.put w).content[i]? = some a := by
  obtain ⟨k, rfl, hk⟩ := Chunk.item?_eq_some_iff.mp h
  have hl : k < w.items.length := (List.getElem?_eq_some_iff.mp hk).1
  have hn : w.items ≠ [] := List.ne_nil_of_length_pos (by omega)
  obtain ⟨t, ht, -, hw⟩ := write_eq (f := f.seek w.offset) hn
  have ht : t.length = w.offset := ht
  rw [put, hw, List.append_assoc, List.getElem?_append_right (by omega), ht, Nat.add_sub_cancel_left,
    List.getElem?_append_left hl, hk]

theorem put_getElem?_of_not_item (h : w.item? i = none) (hc : f.content[i]? = some a) :
    (f.put w).content[i]? = some a := by
  by_cases hn : w.items = []
  case pos => rwa [put, write, if_pos hn]
  case neg =>
    obtain ⟨t, ht, hp, hw⟩ := write_eq (f := f.seek w.offset) hn
    have ht : t.length = w.offset := ht
    rw [put, hw]
    by_cases hi : i < w.offset
    case pos =>
      rw [List.append_assoc, List.getElem?_append_left (by omega)]
      exact hp i a hi hc
    case neg =>
      rw [Chunk.item?, if_pos (by omega), List.getElem?_eq_none_iff] at h
      have hp : (f.seek w.offset).pos + w.items.length + (i - (w.offset + w.items.length)) = i := by
        simp only [seek]
        omega
      rw [List.getElem?_append_right (by rw [List.length_append]; omega), List.length_append, ht,
        List.getElem?_drop, hp]
      exact hc

-- The last chunk that has an item at a position determines the content there.
theorem foldl_put_getElem? (h : f.content[i]? = some a) :
    (ws.foldl put f).content[i]? = some ((last? ws i).getD a) := by
  induction ws generalizing f a
  case nil => exact h
  case cons w ws hi =>
    rw [List.foldl_cons, last?]
    cases hw : w.item? i
    case none   => rw [Option.or_none]; exact hi <| put_getElem?_of_not_item hw h
    case some b =>
      rw [Option.or_some, Option.getD_some]
      exact hi <| put_getElem?_of_item hw

theorem holds_foldl_put_iff : Holds (ws.foldl put (f.put w)).content w ↔ Spares ws w := by
  rw [holds_iff]
  refine forall₂_congr fun i a => forall_congr' fun h => ?_
  rw [foldl_put_getElem? <| put_getElem?_of_item h, Option.some.injEq]
  cases last? ws i <;> simp

theorem put_content_length (h : w.offset + w.items.length ≤ f.content.length) :
    (f.put w).content.length = f.content.length := by
  by_cases hn : w.items = []
  case pos => rw [put, write, if_pos hn, seek]
  case neg =>
    obtain ⟨t, ht, -, hw⟩ := write_eq (f := f.seek w.offset) hn
    have ht : t.length = w.offset := ht
    rw [put, hw, List.length_append, List.length_append, List.length_drop, ht]
    simp only [seek]
    omega

theorem foldl_put_content_length (h : ∀ w ∈ ws, w.offset + w.items.length ≤ f.content.length) :
    (ws.foldl put f).content.length = f.content.length := by
  induction ws generalizing f
  case nil => rfl
  case cons w ws hi =>
    have hl := put_content_length <| h w <| .head _
    rw [List.foldl_cons, hi fun v hv => hl ▸ h v <| .tail _ hv, hl]

-- The result is a given content, if the chunks are parts of it that cover all differences.
theorem foldl_put_content {l : List α} (hl : f.content.length = l.length)
    (hw : ∀ w ∈ ws, Holds l w ∧ w.offset + w.items.length ≤ l.length)
    (hf : ∀ i, (∀ w ∈ ws, w.item? i = none) → f.content[i]? = l[i]?) : (ws.foldl put f).content = l := by
  refine List.ext_getElem? fun i => ?_
  by_cases hi : i < l.length
  case pos =>
    rw [foldl_put_getElem? (List.getElem?_eq_getElem <| hl ▸ hi)]
    cases ho : last? ws i
    case none   => exact (List.getElem?_eq_getElem <| hl ▸ hi).symm.trans <| hf i <| last?_eq_none_iff.mp ho
    case some a =>
      obtain ⟨w, hm, ha⟩ := exists_of_last? ho
      exact (holds_iff.mp (hw w hm).left i a ha).symm
  case neg =>
    have hn : (ws.foldl put f).content.length = l.length :=
      (foldl_put_content_length fun w hm => hl ▸ (hw w hm).right).trans hl
    rw [List.getElem?_eq_none (hn ▸ Nat.le_of_not_lt hi), List.getElem?_eq_none (Nat.le_of_not_lt hi)]

end Write

section Parts

-- A part of a content with `n` items, at its place.
def part (l : List α) (n k : Nat) : Chunk α :=
  ⟨n * k, (l.drop (n * k)).take n⟩

variable {l l' : List α} {n k i : Nat}

theorem part_holds : Holds l (part l n k) := by
  simp [part, Holds, List.take_eq_take_iff]

theorem part_le (h : n * (k + 1) ≤ l.length) :
    (part l n k).offset + (part l n k).items.length ≤ l.length := by
  simp only [part, List.length_take, List.length_drop]
  rw [Nat.mul_succ] at h
  omega

theorem part_item? (hn : 0 < n) : (part l n (i / n)).item? i = l[i]? := by
  have hi := Nat.div_add_mod i n
  have hm := Nat.mod_lt i hn
  rw [part, Chunk.item?, if_pos (by simp only; omega)]
  simp only
  rw [List.getElem?_take_of_lt (by omega), List.getElem?_drop]
  congr 1
  omega

variable [Zero α] {f : File α} {ks : List Nat}

-- All parts that are different are written.
theorem foldl_put_parts (hn : 0 < n) (hl : f.content.length = l.length) (hd : n ∣ l.length)
    (hk : ∀ k ∈ ks, k < l.length / n)
    (hs : ∀ k < l.length / n, k ∉ ks → (part f.content n k).items = (part l n k).items) :
    ((ks.map <| part l n).foldl put f).content = l := by
  have hle {k} (h : k < l.length / n) : n * (k + 1) ≤ l.length :=
    (Nat.mul_le_mul_left n h).trans <| Nat.mul_div_le ..
  refine foldl_put_content hl (fun w hw => ?_) fun i hi => ?_
  case refine_1 =>
    obtain ⟨k, hm, rfl⟩ := List.mem_map.mp hw
    exact ⟨part_holds, part_le <| hle <| hk k hm⟩
  case refine_2 =>
    by_cases hil : i < l.length
    case neg => rw [List.getElem?_eq_none (by omega), List.getElem?_eq_none (by omega)]
    case pos =>
      have hi' : i / n < l.length / n := Nat.div_lt_div_of_lt_of_dvd hd hil
      have hm : i / n ∉ ks := by
        intro hm
        have ho := hi _ <| List.mem_map_of_mem hm
        rw [part_item? hn, List.getElem?_eq_getElem hil] at ho
        contradiction
      have he : part f.content n (i / n) = part l n (i / n) :=
        congrArg (Chunk.mk (n * (i / n))) <| hs _ hi' hm
      rw [←part_item? hn, ←part_item? (l := l) hn, he]

end Parts

end File
