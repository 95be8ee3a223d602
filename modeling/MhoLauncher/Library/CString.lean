import Mathlib

-- Strings that end at their first NUL.
structure CString (w : Nat) where
  chars  : List (BitVec w)
  no_nul : 0 ∉ chars

namespace CString

variable {w : Nat}

-- The characters with the terminator.
def array (s : CString w) : List (BitVec w) :=
  s.chars ++ [0]

def strnlen : List (BitVec w) → Nat → Nat
  | [],      _     => 0
  | _,       0     => 0
  | c :: cs, n + 1 => if c = 0 then 0 else strnlen cs n + 1

-- What `%.*s` prints of an array. A negative precision is no precision.
def printed (precision : Int) (a : List (BitVec 8)) : List (BitVec 8) :=
  (if precision < 0 then a else a.take precision.toNat).takeWhile (· ≠ 0)

theorem strnlen_append {cs rest : List (BitVec w)} (h : 0 ∉ cs) (n : Nat) :
    strnlen (cs ++ 0 :: rest) n = min n cs.length := by
  induction cs generalizing n
  case nil => cases n <;> simp [strnlen]
  case cons c cs hi =>
    cases n
    case zero => simp [strnlen]
    case succ n =>
      have hc : c ≠ 0 := fun hz => h <| hz ▸ .head _
      rw [List.cons_append, strnlen, if_neg hc, hi (fun hm => h <| .tail _ hm), List.length_cons,
        Nat.succ_min_succ]

theorem printed_append {cs rest : List (BitVec 8)} {n : Nat} (h : 0 ∉ cs) (hn : n ≤ cs.length) :
    printed n (cs ++ rest) = cs.take n := by
  have hz : ¬(n : Int) < 0 := by omega
  rw [printed, if_neg hz, Int.toNat_natCast, List.take_append_of_le_length hn, List.takeWhile_eq_self_iff]
  intro c hc
  have hne : c ≠ 0 := fun he => h <| he ▸ List.mem_of_mem_take hc
  exact decide_eq_true hne

end CString
