import Mathlib

-- Strings of characters with the functions of `std::string` and of its streams. A position that does not
-- exist is `none`.
namespace Text

def find (s : List Char) (c : Char) : Option Nat :=
  s.findIdx? (· = c)

def findFirstNotOf (s set : List Char) : Option Nat :=
  s.findIdx? (· ∉ set)

def findLastNotOf (s set : List Char) : Option Nat :=
  s.reverse.findIdx? (· ∉ set) |>.map (s.length - 1 - ·)

def substr (s : List Char) (pos count : Nat) : List Char :=
  (s.drop pos).take count

-- The lines that `std::getline` delivers one after the other. There is no empty line after the last newline.
def getlines : List Char → List (List Char)
  | []      => []
  | c :: cs =>
    if c = '\n' then [] :: getlines cs else
      match getlines cs with
      | []            => [[c]]
      | line :: lines => (c :: line) :: lines

def isSpace (c : Char) : Bool :=
  c = ' ' ∨ ('\t' ≤ c ∧ c ≤ '\r')

def int32 (n : Int) : Option Int :=
  if -2 ^ 31 ≤ n ∧ n < 2 ^ 31 then some n else none

-- The value of the digits that a string starts with. There is none if it starts with something else.
def digits (s : List Char) : Option Nat :=
  match s.takeWhile Char.isDigit with
  | [] => none
  | ds => some <| Nat.ofDigitChars 10 ds 0

-- This is `none` for an exception.
def stoi (s : List Char) : Option Int :=
  match s.dropWhile isSpace with
  | '-' :: s => digits s >>= (int32 <| -·)
  | '+' :: s => digits s >>= (int32 ·)
  | s        => digits s >>= (int32 ·)

-- Replaces every LF by CR LF.
def toCRLF (s : List Char) : List Char :=
  s.flatMap fun c => if c = '\n' then ['\r', '\n'] else [c]

variable {s t set : List Char} {c : Char} {n : Nat}

theorem stoi_pos : stoi ('+' :: s) = (digits s >>= (int32 ·)) := by
  rw [stoi, List.dropWhile_cons_of_neg <| by decide]
  rfl

theorem stoi_neg : stoi ('-' :: s) = (digits s >>= (int32 <| -·)) := by
  rw [stoi, List.dropWhile_cons_of_neg <| by decide]
  rfl

theorem find_eq_none_iff : find s c = none ↔ c ∉ s := by
  rw [find, List.findIdx?_eq_none_iff]
  constructor
  · exact fun h hc => by simpa using h c hc
  · exact fun h d hd => by simpa using fun e : d = c => h (e ▸ hd)

-- A character splits a string at its first position.
theorem eq_append_of_mem (h : c ∈ s) : s = s.takeWhile (· ≠ c) ++ c :: (s.dropWhile (· ≠ c)).tail := by
  have hn : s.dropWhile (· ≠ c) ≠ [] := by
    rw [Ne, List.dropWhile_eq_nil_iff]
    exact fun hd => by simpa using hd c h
  have hh : (s.dropWhile (· ≠ c)).head hn = c := by simpa using List.head_dropWhile_not (· ≠ c) hn
  nth_rewrite 1 [←s.takeWhile_append_dropWhile (p := (· ≠ c)), ←List.cons_head_tail hn, hh]
  rfl

theorem substr_of_find (h : find s c = some n) : substr s 0 n = s.takeWhile (· ≠ c) := by
  have hn := List.findIdx?_eq_some_iff_findIdx_eq.mp h
  rw [substr, List.drop_zero, List.takeWhile_eq_take_findIdx_not, ←hn.2]
  simp

theorem drop_of_find (h : find s c = some n) : s.drop (n + 1) = (s.dropWhile (· ≠ c)).tail := by
  have hn := List.findIdx?_eq_some_iff_findIdx_eq.mp h
  rw [List.dropWhile_eq_drop_findIdx_not, List.tail_drop, ←hn.2]
  simp

theorem findFirstNotOf_eq_none_iff : findFirstNotOf s set = none ↔ s.dropWhile (· ∈ set) = [] := by
  simp [findFirstNotOf, List.findIdx?_eq_none_iff]

-- The characters from this position on are those that remain without the ones at the start that are in the set.
theorem drop_findFirstNotOf (h : findFirstNotOf s set = some n) : s.drop n = s.dropWhile (· ∈ set) := by
  induction s generalizing n
  case nil => cases h
  case cons c s hi =>
    by_cases hc : c ∈ set
    case neg =>
      have hn : n = 0 := by simpa [findFirstNotOf, List.findIdx?_cons, hc] using h.symm
      simp [hn, hc]
    case pos =>
      simp only [findFirstNotOf, List.findIdx?_cons, hc, not_true_eq_false, decide_false, Bool.false_eq_true,
        if_false, Option.map_eq_some_iff] at h
      obtain ⟨m, hm, rfl⟩ := h
      simpa [hc] using hi hm

theorem length_takeWhile_of_findFirstNotOf (h : findFirstNotOf s set = some n) :
    (s.takeWhile (· ∈ set)).length = n := by
  have hn : n < s.length := (List.findIdx?_eq_some_iff_getElem.mp h).1
  have hd := congrArg List.length <| drop_findFirstNotOf h
  have hl := congrArg List.length <| s.takeWhile_append_dropWhile (p := (· ∈ set))
  rw [List.length_drop] at hd
  rw [List.length_append] at hl
  omega

theorem findLastNotOf_eq_none_iff : findLastNotOf s set = none ↔ ∀ c ∈ s, c ∈ set := by
  simp [findLastNotOf, List.findIdx?_eq_none_iff]

-- The characters up to this position are those that remain without the ones at the end that are in the set.
theorem take_findLastNotOf (h : findLastNotOf s set = some n) :
    s.take (n + 1) = s.rdropWhile (· ∈ set) := by
  rw [findLastNotOf, Option.map_eq_some_iff] at h
  have ⟨m, hm, hn⟩ := h
  have hl : m < s.length := by
    have := (List.findIdx?_eq_some_iff_getElem.mp hm).1
    simpa using this
  rw [List.rdropWhile, ←drop_findFirstNotOf hm, List.drop_reverse, List.reverse_reverse]
  congr 1
  omega

theorem getlines_append (h : '\n' ∉ s) : getlines (s ++ '\n' :: t) = s :: getlines t := by
  induction s
  case nil => simp [getlines]
  case cons c s hi =>
    have ⟨hc, hs⟩ : ¬c = '\n' ∧ '\n' ∉ s := by simpa [eq_comm] using h
    rw [List.cons_append, getlines, if_neg hc, hi hs]

theorem getlines_of_not_mem (h : '\n' ∉ s) (hs : s ≠ []) : getlines s = [s] := by
  induction s
  case nil => contradiction
  case cons c s hi =>
    have ⟨hc, hn⟩ : ¬c = '\n' ∧ '\n' ∉ s := by simpa [eq_comm] using h
    cases s
    case nil      => simp [getlines, hc]
    case cons d s => rw [getlines, if_neg hc, hi hn <| List.cons_ne_nil _ _]

theorem mem_of_mem_getlines {line : List Char} (h : line ∈ getlines s) (hc : c ∈ line) : c ∈ s := by
  induction s generalizing line
  case nil => cases h
  case cons d s hi =>
    rw [getlines] at h
    split at h
    case isTrue =>
      cases h
      case head   => cases hc
      case tail h => exact .tail _ <| hi h hc
    case isFalse =>
      split at h
      case h_1 => simp_all
      case h_2 l ls he =>
        cases h
        case tail h => exact .tail _ <| hi (he ▸ .tail _ h) hc
        case head =>
          cases hc
          case head   => exact .head _
          case tail h => exact .tail _ <| hi (he ▸ .head _) h

-- A line of a text with CR LF may end with a CR that the line of the original text does not have.
theorem getlines_toCRLF (s : List Char) :
    List.Forall₂ (fun l l' => l' = l ∨ l' = l ++ ['\r']) (getlines s) (getlines <| toCRLF s) := by
  induction s
  case nil => exact .nil
  case cons c s hi =>
    by_cases hc : c = '\n'
    case pos =>
      have ht : getlines (toCRLF (c :: s)) = ['\r'] :: getlines (toCRLF s) := by
        simp [toCRLF, hc, getlines]
      rw [ht, getlines, if_pos hc]
      exact .cons (.inr rfl) hi
    case neg =>
      have ht : toCRLF (c :: s) = c :: toCRLF s := by simp [toCRLF, hc]
      rw [ht, getlines, if_neg hc, getlines, if_neg hc]
      generalize getlines s = ls, getlines (toCRLF s) = ls' at hi
      cases hi
      case nil         => exact .cons (.inl rfl) .nil
      case cons hl hls => exact .cons (hl.imp (congrArg _) (congrArg _)) hls

end Text
