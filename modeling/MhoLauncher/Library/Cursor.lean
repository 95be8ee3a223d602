import Mathlib

-- A list of items with a cursor into it. The cursor never passes the end.
@[ext]
structure Cursor (α : Type*) where
  items  : List α
  pos    : Nat
  pos_le : pos ≤ items.length

namespace Cursor

variable {α : Type*}

instance : EmptyCollection (Cursor α) where
  emptyCollection := ⟨[], 0, by simp⟩

@[simp]
theorem empty_items : (∅ : Cursor α).items = [] :=
  rfl

@[simp]
theorem empty_pos : (∅ : Cursor α).pos = 0 :=
  rfl

-- Overwrites the items at the cursor, and extends the list where they reach past its end.
def write (c : Cursor α) (w : List α) : Cursor α where
  items  := c.items.take c.pos ++ w ++ c.items.drop (c.pos + w.length)
  pos    := c.pos + w.length
  pos_le := by have := c.pos_le; simp; omega

def seek (c : Cursor α) (p : Nat) : Cursor α where
  items  := c.items
  pos    := min p c.items.length
  pos_le := by omega

-- The cursor at the end of the given items.
def atEnd (items : List α) : Cursor α :=
  ⟨items, items.length, le_rfl⟩

def available (c : Cursor α) : Nat :=
  c.items.length - c.pos

def rest (c : Cursor α) : List α :=
  c.items.drop c.pos

-- The item at the cursor and the cursor behind it, unless the cursor is at the end.
def next (c : Cursor α) : Option (α × Cursor α) :=
  if h : c.pos < c.items.length then some (c.items[c.pos], ⟨c.items, c.pos + 1, h⟩) else none

-- The next `n` items and the cursor behind them, unless there are fewer.
def read (c : Cursor α) (n : Nat) : Option (List α × Cursor α) :=
  if h : c.pos + n ≤ c.items.length then some (c.rest.take n, ⟨c.items, c.pos + n, h⟩) else none

-- The `n` items from position `off` on, unless the range reaches past the end.
def slice (c : Cursor α) (off n : Nat) : Option (List α) :=
  if off + n ≤ c.items.length then some (c.items.drop off |>.take n) else none

-- The items up to the first one that satisfies `stop`, or up to the end. The cursor ends up behind
-- the item that satisfies `stop`.
def readUntil (c : Cursor α) (stop : α → Bool) : List α × Cursor α :=
  let s := c.rest.takeWhile (! stop ·)
  (s, c.seek (c.pos + s.length + 1))

section Write

@[simp]
theorem write_pos (c : Cursor α) (w : List α) : (c.write w).pos = c.pos + w.length :=
  rfl

theorem write_items (c : Cursor α) (w : List α) :
    (c.write w).items = c.items.take c.pos ++ w ++ c.items.drop (c.pos + w.length) :=
  rfl

theorem write_items_length (c : Cursor α) (w : List α) :
    (c.write w).items.length = max c.items.length (c.pos + w.length) := by
  have := c.pos_le
  simp [write_items]
  omega

@[simp]
theorem write_nil (c : Cursor α) : c.write [] = c := by
  ext1 <;> simp [write_items]

theorem write_append (c : Cursor α) (v w : List α) : (c.write v).write w = c.write (v ++ w) := by
  have := c.pos_le
  ext1
  case pos => simp [Nat.add_assoc]
  case items =>
    have hl : (c.items.take c.pos ++ v).length = c.pos + v.length := by simp; omega
    simp only [write_items, write_pos]
    rw [List.take_left' hl, ←hl, List.drop_length_add_append, List.drop_drop, hl]
    simp [Nat.add_assoc]

theorem atEnd_write (l w : List α) : (atEnd l).write w = atEnd (l ++ w) := by
  ext1 <;> simp [atEnd, write]

end Write

section Read

@[simp]
theorem seek_items (c : Cursor α) (p : Nat) : (c.seek p).items = c.items :=
  rfl

@[simp]
theorem seek_pos (c : Cursor α) (p : Nat) : (c.seek p).pos = min p c.items.length :=
  rfl

theorem next_eq_none_iff {c : Cursor α} : c.next = none ↔ c.pos = c.items.length := by
  have := c.pos_le
  simp [next]
  omega

theorem next_eq_some_iff {c c' : Cursor α} {a : α} :
    c.next = some (a, c') ↔ c.rest = a :: c'.rest ∧ c'.items = c.items ∧ c'.pos = c.pos + 1 := by
  simp only [next, rest, Option.dite_none_right_eq_some, Option.some.injEq, Prod.mk.injEq]
  constructor
  case mp =>
    rintro ⟨h, rfl, rfl⟩
    simp
  case mpr =>
    intro ⟨hr, hi, hp⟩
    have h : c.pos < c.items.length := by
      by_contra hc
      simp [List.drop_of_length_le (Nat.le_of_not_lt hc)] at hr
    rw [List.drop_eq_getElem_cons h] at hr
    exact ⟨h, (List.cons.inj hr).left, Cursor.ext hi.symm hp.symm⟩

theorem getElem?_of_next {c c' : Cursor α} {a : α} (h : c.next = some (a, c')) :
    c.items[c.pos]? = some a := by
  have ⟨hr, _⟩ := next_eq_some_iff.mp h
  have hg : (c.items.drop c.pos)[0]? = some a := by rw [←rest, hr]; rfl
  rwa [List.getElem?_drop] at hg

theorem available_of_next {c c' : Cursor α} {a : α} (h : c.next = some (a, c')) :
    c.available = c'.available + 1 := by
  have ⟨_, hi, hp⟩ := next_eq_some_iff.mp h
  have := hi ▸ c'.pos_le
  simp only [available, hi]
  omega

theorem readUntil_of_next_none {c : Cursor α} (h : c.next = none) (stop : α → Bool) :
    c.readUntil stop = ([], c) := by
  have hp := next_eq_none_iff.mp h
  simp [readUntil, rest, hp, seek, Cursor.ext_iff]

theorem readUntil_of_next_stop {c c' : Cursor α} {a : α} {stop : α → Bool}
    (h : c.next = some (a, c')) (hs : stop a) : c.readUntil stop = ([], c') := by
  have ⟨hr, hi, hp⟩ := next_eq_some_iff.mp h
  have := hi ▸ c'.pos_le
  simp [readUntil, hr, hs, Cursor.ext_iff, hi, hp]
  omega

theorem readUntil_of_next {c c' : Cursor α} {a : α} {stop : α → Bool}
    (h : c.next = some (a, c')) (hs : stop a = false) :
    c.readUntil stop = (a :: (c'.readUntil stop).1, (c'.readUntil stop).2) := by
  have ⟨hr, hi, hp⟩ := next_eq_some_iff.mp h
  simp [readUntil, hr, hs, Cursor.ext_iff, hi, hp]
  omega

end Read
end Cursor
