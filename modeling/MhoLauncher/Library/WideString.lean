import MhoLauncher.Library.Memory

open Bytes Memory

-- A string of UTF-16 units, which ends at its first NUL if it is in memory.
abbrev WString := List Word

namespace WString

-- The units of a C string with their terminator.
def bytes (s : WString) : List Byte :=
  (s ++ [0]).flatMap <| toLE 2

def word (m : Memory) (a : DWord) : Word :=
  ofLE 16 (m.read a 2)

-- What a function reads that gets the address of a string.
inductive At (m : Memory) : DWord → WString → Prop
  | nil {a} : word m a = 0 → At m a []
  | cons {a s} : word m a ≠ 0 → At m (a + 2) s → At m a (word m a :: s)

variable {m : Memory} {a : DWord} {s t : WString} {n : Nat}

theorem At.unique (hs : At m a s) (ht : At m a t) : s = t := by
  induction hs generalizing t
  case nil h =>
    cases ht
    case nil       => rfl
    case cons hn _ => exact absurd h hn
  case cons hn _ hi =>
    cases ht
    case nil h      => exact absurd h hn
    case cons _ _ h => rw [hi h]

theorem bytes_length : s.bytes.length = 2 * (s.length + 1) := by
  rw [bytes, flatMap_toLE_length, List.length_append, List.length_singleton]

theorem bytes_cons (c : Word) : bytes (c :: s) = toLE 2 c ++ bytes s :=
  rfl

theorem word_of_loaded {c : Word} {bs : List Byte} (h : m.Loaded a (toLE 2 c ++ bs)) : word m a = c := by
  have hr : m.read a 2 = toLE 2 c := (loaded_append.mp h).1
  rw [word, hr]
  exact ofLE_toLE c <| by decide

theorem at_of_loaded (hs : 0 ∉ s) (h : m.Loaded a s.bytes) : At m a s := by
  induction s generalizing a
  case nil =>
    have hl : m.Loaded a (toLE 2 (0 : Word) ++ []) := h
    exact .nil <| word_of_loaded hl
  case cons c s hi =>
    rw [bytes_cons] at h
    have hw : word m a = c := word_of_loaded h
    have hc : c ≠ 0 := fun he => hs <| he ▸ .head _
    have hn : At m (a + 2) s := hi (fun hm => hs <| .tail _ hm) (loaded_append.mp h).2
    have ha : At m a (word m a :: s) := .cons (hw ▸ hc) hn
    exact hw ▸ ha

-- Memory that is filled with zeros is an empty string.
theorem at_of_zeros (h : m.Loaded a (List.replicate (n + 2) 0)) : At m a [] :=
  have hz : m.Loaded a (toLE 2 (0 : Word) ++ List.replicate n 0) := h
  .nil <| word_of_loaded hz

end WString
