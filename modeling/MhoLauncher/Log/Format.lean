import MhoLauncher.Library.Bytes

open Bytes

namespace Log

def INT_MAX : Nat := 2 ^ 31 - 1

-- The value of an `int` that is converted from a `size_t`.
def int (n : Nat) : Int :=
  (n : Int).bmod (2 ^ 32)

inductive Outcome (α : Type)
  | returned (a : α)
  | thrown

def Outcome.map {α β : Type} (f : α → β) : Outcome α → Outcome β
  | returned a => returned (f a)
  | thrown     => thrown

-- The array that the loop writes to.
inductive Buffer
  | stackbuf   (bytes : List Byte)
  | dynamicbuf (bytes : List Byte)

namespace Buffer

def bytes : Buffer → List Byte
  | stackbuf bytes | dynamicbuf bytes => bytes

def mapBytes (f : List Byte → List Byte) : Buffer → Buffer
  | stackbuf bytes   => stackbuf (f bytes)
  | dynamicbuf bytes => dynamicbuf (f bytes)

-- Prints the text that a format and its arguments expand to. The result is negative if the length of the
-- text is not an `int`.
def vsnprintf (size : Nat) (text : List Byte) (buf : Buffer) : Buffer × Int :=
  let written := text.take (size - 1) ++ [0]
  (buf.mapBytes (written ++ ·.drop written.length), if text.length ≤ INT_MAX then text.length else -1)

-- Resizes `dynamicbuf`, which is empty at first, and goes on with it.
def resize (size : Nat) : Buffer → Buffer
  | stackbuf _       => dynamicbuf (List.replicate size 0)
  | dynamicbuf bytes => dynamicbuf (bytes.take size ++ List.replicate (size - bytes.length) 0)

end Buffer

-- The size for the next iteration.
def nextSize (size : Nat) (needed : Int) : Nat :=
  (if needed > 0 then needed.toNat + 1 else size * 2) % 2 ^ 32

-- At most `n` iterations of the loop. A `va_list` of the target is passed by value, so every iteration
-- expands the same arguments. A vector can not have more than `INT_MAX` elements.
def vformat.loop (text : List Byte) : Nat → Nat → Buffer → Option (Outcome (List Byte))
  | 0,     _,    _   => none
  | n + 1, size, buf =>
    let (buf, needed) := buf.vsnprintf size text
    if needed ≤ int size ∧ needed ≥ 0 then
      some <| .returned <| buf.bytes.take needed.toNat
    else
      let size := nextSize size needed
      if size > INT_MAX then some .thrown else loop text n size (buf.resize size)

-- The stack buffer contains arbitrary bytes at first.
def vformat (n : Nat) (garbage : Nat → Byte) (text : List Byte) : Option (Outcome (List Byte)) :=
  vformat.loop text n 1024 <| .stackbuf <| (List.range 1024).map garbage

-- The queue of events after a message was logged.
def log (n : Nat) (garbage : Nat → Byte) (text : List Byte) (events : List (List Byte)) :
    Option (Outcome (List (List Byte))) :=
  vformat n garbage text |>.map (·.map fun buf => events ++ [buf])

-- What the launcher has written to the standard output and to its log file, if that is open.
structure Streams where
  cout        : List Byte
  launcherLog : Option (List Byte)

def llog (n : Nat) (garbage : Nat → Byte) (text : List Byte) (s : Streams) : Option (Outcome Streams) :=
  vformat n garbage text |>.map (·.map fun msg =>
    { cout := s.cout ++ msg, launcherLog := s.launcherLog.map (· ++ msg) })

section Format

variable {text : List Byte} {buf : Buffer} {n size : Nat} {garbage : Nat → Byte}

theorem int_eq (h : size ≤ INT_MAX) : int size = size := by
  rw [INT_MAX] at h
  exact Int.bmod_eq_of_le (by omega) (by omega)

theorem vsnprintf_bytes : (buf.vsnprintf size text).1.bytes =
    text.take (size - 1) ++ [0] ++ buf.bytes.drop (text.take (size - 1) ++ [0]).length := by
  cases buf <;> rfl

theorem vsnprintf_needed (h : text.length ≤ INT_MAX) : (buf.vsnprintf size text).2 = text.length :=
  if_pos h

theorem vsnprintf_negative (h : ¬text.length ≤ INT_MAX) : (buf.vsnprintf size text).2 = -1 :=
  if_neg h

-- The iterations of the loop, depending on the value of `needed`.
theorem loop_returns {needed : Nat} (hn : (buf.vsnprintf size text).2 = needed) (h : needed ≤ size)
    (hs : size ≤ INT_MAX) : vformat.loop text (n + 1) size buf =
      some (.returned <| (buf.vsnprintf size text).1.bytes.take needed) := by
  have hc : (needed : Int) ≤ int size ∧ (needed : Int) ≥ 0 :=
    ⟨int_eq hs ▸ Int.ofNat_le.mpr h, Int.natCast_nonneg _⟩
  simp only [vformat.loop, hn, if_pos hc, Int.toNat_natCast]

theorem loop_retries {needed : Int} (hn : (buf.vsnprintf size text).2 = needed)
    (h : needed < 0 ∨ size < needed)
    (hs : size ≤ INT_MAX) : vformat.loop text (n + 1) size buf =
      if nextSize size needed > INT_MAX then some .thrown
      else vformat.loop text n (nextSize size needed) <|
        (buf.vsnprintf size text).1.resize (nextSize size needed) := by
  have hc : ¬(needed ≤ int size ∧ needed ≥ 0) := by
    rw [int_eq hs]
    omega
  simp only [vformat.loop, hn, if_neg hc]

-- The text is returned once it fits into the buffer, but if it needs all of the buffer, then its last character
-- is replaced.
theorem loop_fits (h : text.length ≤ size) (h₀ : 0 < size) (hs : size ≤ INT_MAX) :
    vformat.loop text (n + 1) size buf =
    some (.returned <| (text.take (size - 1) ++ [0]).take text.length) := by
  rw [loop_returns (vsnprintf_needed <| h.trans hs) h hs, vsnprintf_bytes, List.take_append_of_le_length]
  rw [List.length_append, List.length_take, List.length_singleton]
  omega

theorem loop_short (h : text.length < size) (hs : size ≤ INT_MAX) :
    vformat.loop text (n + 1) size buf = some (.returned text) := by
  rw [loop_fits h.le (Nat.zero_lt_of_lt h) hs, List.take_of_length_le (Nat.le_sub_one_of_lt h),
    List.take_left]

theorem loop_grows (h : size < text.length) (ht : text.length < INT_MAX) :
    vformat.loop text (n + 2) size buf = some (.returned text) := by
  rw [INT_MAX] at ht
  have hz : nextSize size text.length = text.length + 1 := by
    rw [nextSize, if_pos (by omega), Int.toNat_natCast, Nat.mod_eq_of_lt (by omega)]
  have hs : ¬text.length + 1 > INT_MAX := by
    rw [INT_MAX]
    omega
  rw [loop_retries (vsnprintf_needed <| by rw [INT_MAX]; omega) (.inr <| Int.ofNat_lt.mpr h)
    (by rw [INT_MAX]; omega)]
  rw [hz, if_neg hs, loop_short (Nat.lt_succ_self _) (Nat.le_of_not_lt hs)]

theorem loop_overflows (h : text.length = INT_MAX) (hs : size < INT_MAX) :
    vformat.loop text (n + 1) size buf = some .thrown := by
  rw [loop_retries (vsnprintf_needed h.le) (.inr <| Int.ofNat_lt.mpr <| h ▸ hs) hs.le, h]
  rfl

theorem loop_negative (h : ¬text.length ≤ INT_MAX) (hs : size ≤ INT_MAX) (a : List Byte) :
    vformat.loop text n size buf ≠ some (.returned a) := by
  induction n generalizing size buf
  case zero => exact (Option.some_ne_none _).symm
  case succ n hi =>
    rw [loop_retries (vsnprintf_negative h) (.inl <| by decide) hs]
    split
    case isTrue    => exact fun h => nomatch Option.some.inj h
    case isFalse h => exact hi <| Nat.le_of_not_lt h

-- A text that needs all of the buffer is returned if its last character is replaced by itself.
theorem loop_full (h : text.length = size) (h₀ : 0 < size) (hs : size ≤ INT_MAX) :
    vformat.loop text (n + 1) size buf = some (.returned text) ↔ text.getLast? = some 0 := by
  have hl : (text.take (size - 1) ++ [0]).length = text.length := by
    rw [List.length_append, List.length_take, List.length_singleton]
    omega
  rw [loop_fits h.le h₀ hs, ←hl, List.take_length, List.getLast?_eq_some_iff]
  constructor
  case mp =>
    intro he
    simp only [Option.some.injEq, Outcome.returned.injEq] at he
    exact ⟨_, he.symm⟩
  case mpr =>
    intro ⟨ys, he⟩
    have hy : ys.length = size - 1 := by
      rw [he, List.length_append, List.length_singleton] at h
      omega
    rw [he, ←hy, List.take_left]

end Format

-- A message is returned as it is, and thereby passed on, if and only if it does not lose its last
-- character to the end of the stack buffer, and the size that it needs is an `int`.
theorem vformat_returns_iff (garbage : Nat → Byte) (text : List Byte) :
    (∃ n, vformat n garbage text = some (.returned text) ∧
      (∀ events, log n garbage text events = some (.returned <| events ++ [text])) ∧
      ∀ s, llog n garbage text s =
        some (.returned { cout := s.cout ++ text, launcherLog := s.launcherLog.map (· ++ text) })) ↔
    (text.length = 1024 → text.getLast? = some 0) ∧ text.length < INT_MAX := by
  constructor
  case mp =>
    intro ⟨n, h, _⟩
    cases n
    case zero => exact absurd h.symm <| Option.some_ne_none _
    case succ n =>
      refine ⟨fun he => (loop_full he (by decide) (by decide)).mp h, ?_⟩
      by_contra hn
      cases (Nat.le_of_not_lt hn).eq_or_lt
      case inl he => exact nomatch (loop_overflows he.symm (by decide)).symm.trans h
      case inr hl => exact loop_negative (Nat.not_le_of_lt hl) (by decide) _ h
  case mpr =>
    intro ⟨hn, hl⟩
    have h : vformat 2 garbage text = some (.returned text) := by
      obtain hs | hs | hs := Nat.lt_trichotomy text.length 1024
      · exact loop_short hs (by decide)
      · exact (loop_full hs (by decide) (by decide)).mpr (hn hs)
      · exact loop_grows hs hl
    refine ⟨2, h, fun _ => ?_, fun _ => ?_⟩
    · rw [log, h]; rfl
    · rw [llog, h]; rfl

-- The last character of a message of 1024 characters is lost.
theorem vformat_loses_last_character :
    ¬∃ n, vformat n (fun _ => 0) (List.replicate 1024 0x41) =
      some (.returned <| List.replicate 1024 0x41) := by
  intro ⟨n, h⟩
  cases n
  case zero => exact absurd h.symm <| Option.some_ne_none _
  case succ n =>
    have hl := loop_full List.length_replicate (by decide) (by decide) |>.mp h
    rw [List.getLast?_replicate, if_neg (by decide)] at hl
    exact absurd (Option.some.inj hl) (by decide)

end Log
