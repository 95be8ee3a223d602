import Mathlib
import MhoLauncher.Library.CString
import MhoLauncher.Library.Unicode
import MhoLauncher.Log.Format

open Bytes Unicode CString

namespace Ods

def ascii (s : String) : List Byte :=
  s.toList.map fun c => BitVec.ofNat 8 c.toNat

def newline : Byte :=
  0x0A

-- The text that the detours pass to `log`.
def record (n : Nat) (s : List Byte) (hasNl : Bool) : List Byte :=
  ascii "[ODS] " ++ printed (Log.int n) s ++ if hasNl then [] else [newline]

-- The text of a wide string.
def utf8 (s : CString 16) : List Byte :=
  toUTF8 <| ofUTF16 s.chars

-- Fails if the buffer is too small. The content of the buffer is of no use then.
def wideCharToMultiByte (s : CString 16) (buf : List Byte) : List Byte × Int :=
  let text := utf8 s ++ [0]
  if text.length ≤ buf.length then (text ++ buf.drop text.length, text.length) else (buf, 0)

-- The result are the texts that were passed to `log` so far.
def odsADetour (s : Option (CString 8)) (records : List (List Byte)) : List (List Byte) :=
  match s with
  | none   => records
  | some s =>
    let n := strnlen s.array 8192
    let hasNl := n > 0 && (s.array)[n - 1]? = some newline
    records ++ [record n s.array hasNl]

-- The buffer contains arbitrary bytes at first.
def odsWDetour (garbage : Nat → Byte) (s : Option (CString 16)) (records : List (List Byte)) :
    List (List Byte) :=
  match s with
  | none   => records
  | some s =>
    let (buf, n) := wideCharToMultiByte s <| (List.range 4096).map garbage
    if n ≤ 0 then
      records
    else
      let len := n.toNat - 1
      let hasNl := len > 0 && buf[len - 1]? = some newline
      records ++ [record len buf hasNl]

-- What a bound may leave of a message: all of it if it fits, or else at least the characters that fit.
structure Shortened (bound : Nat) (boundaries : Set Nat) (message text : List Byte) : Prop where
  isPrefix : text <+: message
  whole    : message.length ≤ bound → text = message
  longest  : ∀ k ∈ boundaries, k ≤ bound → k ≤ message.length → k ≤ text.length

def Logged (bound : Nat) (boundaries : Set Nat) (message : List Byte)
    (records records' : List (List Byte)) : Prop :=
  ∃ text, Shortened bound boundaries message text ∧
    records' = records ++ [ascii "[ODS] " ++ text ++ if text.getLast? = some newline then [] else [newline]]

variable {cs rest message : List Byte} {n bound : Nat} {bs : Set Nat} {records records' : List (List Byte)}

theorem Shortened.take (n : Nat) (bs : Set Nat) (message : List Byte) :
    Shortened n bs message (message.take n) where
  isPrefix := List.take_prefix ..
  whole    := List.take_of_length_le
  longest  := fun k _ hk hl => by
    rw [List.length_take]
    exact le_min hk hl

-- The character before the end of what is printed is its last character.
theorem hasNl_eq (hn : n ≤ cs.length) :
    (n > 0 && (cs ++ rest)[n - 1]? = some newline) = decide ((cs.take n).getLast? = some newline) := by
  by_cases h : n = 0
  case pos => simp [h]
  case neg =>
    have hl : n - 1 < cs.length := by omega
    have hg : (cs.take n).getLast? = (cs ++ rest)[n - 1]? := by
      rw [List.getLast?_eq_getElem?, List.length_take, min_eq_left hn, List.getElem?_take, if_pos (by omega),
        List.getElem?_append_left hl]
    rw [hg, decide_eq_true (Nat.pos_of_ne_zero h), Bool.true_and]

-- The record of the first characters of a string.
theorem record_eq (rest : List Byte) (h : 0 ∉ cs) (hn : n ≤ cs.length) (hm : n ≤ Log.INT_MAX) :
    record n (cs ++ rest) (n > 0 && (cs ++ rest)[n - 1]? = some newline) =
      ascii "[ODS] " ++ cs.take n ++ if (cs.take n).getLast? = some newline then [] else [newline] := by
  rw [record, Log.int_eq hm, printed_append h hn, hasNl_eq hn]
  simp only [decide_eq_true_eq]

theorem odsADetour_logs (s : CString 8) (bs : Set Nat) (records : List (List Byte)) :
    Logged 8192 bs s.chars records (odsADetour (some s) records) := by
  have hn : strnlen s.array 8192 = min 8192 s.chars.length := strnlen_append s.no_nul _
  have hm : min 8192 s.chars.length ≤ Log.INT_MAX := by
    rw [Log.INT_MAX]
    omega
  have ht : s.chars.take (min 8192 s.chars.length) = s.chars.take 8192 := by
    rw [←List.take_eq_take_min]
  refine ⟨s.chars.take 8192, .take .., ?_⟩
  have hr := record_eq [0] s.no_nul (min_le_right 8192 _) hm
  rw [ht] at hr
  rw [odsADetour, hn, ←hr]
  rfl

theorem wideCharToMultiByte_fits {s : CString 16} {buf : List Byte} (h : (utf8 s).length < buf.length) :
    wideCharToMultiByte s buf =
      (utf8 s ++ 0 :: buf.drop (utf8 s ++ [0]).length, ↑((utf8 s).length + 1)) := by
  have hl : (utf8 s ++ [0]).length = (utf8 s).length + 1 := List.length_append
  rw [wideCharToMultiByte, if_pos (hl ▸ h), List.append_assoc, List.singleton_append, hl]

theorem wideCharToMultiByte_fails {s : CString 16} {buf : List Byte} (h : buf.length ≤ (utf8 s).length) :
    wideCharToMultiByte s buf = (buf, 0) := by
  have hl : (utf8 s ++ [0]).length = (utf8 s).length + 1 := List.length_append
  rw [wideCharToMultiByte, if_neg]
  omega

theorem length_buf (garbage : Nat → Byte) : ((List.range 4096).map garbage).length = 4096 := by
  rw [List.length_map, List.length_range]

theorem odsWDetour_logs {garbage : Nat → Byte} {s : CString 16} (h : (utf8 s).length ≤ 4095) :
    Logged 4095 bs (utf8 s) records (odsWDetour garbage (some s) records) := by
  have hz : 0 ∉ utf8 s := zero_notMem_toUTF8 <| nul_notMem_ofUTF16 s.no_nul
  have hm : (utf8 s).length ≤ Log.INT_MAX := by
    rw [Log.INT_MAX]
    omega
  have hp : ¬((utf8 s).length + 1 : Int) ≤ 0 := by omega
  have hr := record_eq (0 :: ((List.range 4096).map garbage).drop (utf8 s ++ [0]).length) hz le_rfl hm
  rw [List.take_length] at hr
  refine ⟨utf8 s, ⟨List.prefix_refl _, fun _ => rfl, fun _ _ _ hl => hl⟩, ?_⟩
  rw [odsWDetour, wideCharToMultiByte_fits (by rw [length_buf]; omega), ←hr]
  exact if_neg hp

-- A string that does not fit into the buffer is lost.
theorem odsWDetour_swallows {garbage : Nat → Byte} {s : CString 16} (h : 4095 < (utf8 s).length) :
    odsWDetour garbage (some s) records = records := by
  rw [odsWDetour, wideCharToMultiByte_fails (by rw [length_buf]; omega)]
  rfl

theorem Logged.ne (h : Logged bound bs message records records') : records' ≠ records := by
  obtain ⟨text, _, he⟩ := h
  rw [he]
  exact fun h => List.cons_ne_nil _ _ <| List.append_right_eq_self.mp h

theorem ods_logs_iff (garbage : Nat → Byte) (records : List (List Byte)) (a : CString 8) (w : CString 16) :
    Logged 8192 Set.univ a.chars records (odsADetour (some a) records) ∧
      (Logged 4095 (boundaries <| ofUTF16 w.chars) (utf8 w) records (odsWDetour garbage (some w) records) ↔
        (utf8 w).length ≤ 4095) := by
  refine ⟨odsADetour_logs .., fun hl => ?_, odsWDetour_logs⟩
  by_contra hn
  exact hl.ne <| odsWDetour_swallows <| Nat.lt_of_not_le hn

-- A wide string of as many characters as the buffer has bytes is lost, whatever its characters are.
theorem odsWDetour_swallows_long {garbage : Nat → Byte} {s : CString 16} (h : 4096 ≤ s.chars.length) :
    odsWDetour garbage (some s) records = records :=
  odsWDetour_swallows <| h.trans <| length_le_toUTF8 _

theorem zero_notMem_replicate : 0 ∉ List.replicate 4096 (0x61 : Word) :=
  fun h => absurd (List.eq_of_mem_replicate h) <| by decide

def longString : CString 16 where
  chars  := List.replicate 4096 0x61
  no_nul := zero_notMem_replicate

theorem ods_swallows_longString :
    ¬Logged 4095 (boundaries <| ofUTF16 longString.chars) (utf8 longString) []
      (odsWDetour (fun _ => 0) (some longString) []) :=
  fun h => h.ne <| odsWDetour_swallows_long List.length_replicate.ge

end Ods
