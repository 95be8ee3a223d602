import Mathlib
import MhoLauncher.Library.Text
import MhoLauncher.SharedMemory.HexDump

open Text

namespace HexDump

-- What `%s` prints of the characters of a string.
def printed (s : List Char) : List Char :=
  s.takeWhile (· ≠ '\x00')

-- The lowest `n` hexadecimal digits of a number, with zeros in front.
def hexText : Nat → Nat → List Char
  | 0,     _ => []
  | n + 1, x => hexText n (x / 16) ++ [hex.getD (x % 16) ' ']

-- The text of `0x%08X | %s| %s`. The offset is an `int` that is not negative.
def Row.line (r : Row) : List Char :=
  "0x".toList ++ hexText 8 r.offset ++ " | ".toList ++ printed r.hex ++ "| ".toList ++ printed r.ascii

-- The lines in front of the rows, where `ptr` is the text that `%p` prints.
def headerLines (ptr : List Char) (size : Int) : List (List Char) :=
  [[], "---------".toList, "Ptr:".toList ++ ptr ++ " Size:".toList ++ (toString size).toList]

def footerLines : List (List Char) :=
  ["---------".toList, []]

def linesText (lines : List (List Char)) : List Char :=
  lines.flatMap (· ++ ['\n'])

-- All that `show` prints.
def showText (ptr : List Char) (bytes : List Byte) (size : Int) : Option (List Char) := do
  let rows ← showBytes bytes size
  return linesText <| headerLines ptr size ++ rows.map Row.line ++ footerLines

section Reader

def readDigit (c : Char) : Option Nat :=
  hex.idxOf? c

-- A hexadecimal number, most significant digit first.
def readHex (s : List Char) : Option Nat :=
  s.foldlM (fun x c => (readDigit c).map (16 * x + ·)) 0

-- Groups of two digits and a blank.
def readGroups : List Char → Option (List Byte)
  | []              => some []
  | h :: l :: ' ' :: cs => do
    let b ← readHex [h, l]
    return BitVec.ofNat 8 b :: (← readGroups cs)
  | _ => none

-- The offset, the bytes up to the first delimiter behind the offset, and the text behind the delimiter.
def readRow (line : List Char) : Option (Nat × List Byte × List Char) := do
  let offset ← readHex <| line.drop 2 |>.take 8
  let rest := line.drop 13
  let bytes ← readGroups <| rest.takeWhile (· ≠ '|')
  return (offset, bytes, rest.dropWhile (· ≠ '|') |>.drop 2)

end Reader

section Column

variable {text : Byte → List Char} {bytes : List Byte} {off size : Nat} {ch : Byte} {c : Char}

def hexGroup (ch : Byte) : List Char :=
  [hex.getD ((ch &&& 0xF0) >>> 4).toNat ' ', hex.getD (ch &&& 0xF).toNat ' ', ' ']

def asciiChar (ch : Byte) : Char :=
  if 32 ≤ ch.toInt ∧ ch.toInt ≤ 127 then Char.ofNat ch.toNat else '.'

theorem mapM_eq_map {f : α → Option β} {g : α → β} {l : List α} (h : ∀ a ∈ l, f a = some (g a)) :
    l.mapM f = some (l.map g) := by
  induction l
  case nil => rfl
  case cons a l hi =>
    rw [List.mapM_cons, h a <| .head _, hi fun b hb => h b <| .tail _ hb]
    rfl

theorem append_eq (h : size ≤ bytes.length) :
    append text bytes size = some ((bytes.take size).flatMap text) := by
  have hm : (List.range size).map (fun i => text <| bytes.getD i 0) = (bytes.take size).map text := by
    refine List.ext_getElem (by simpa using h) fun i hi hi' => ?_
    have hl : i < bytes.length := by
      rw [List.length_map, List.length_take] at hi'
      omega
    simp [hl]
  have ha : ∀ i ∈ List.range size,
      (do let ch ← bytes[i]?; return text ch) = some (text <| bytes.getD i 0) := by
    intro i hi
    have hl : i < bytes.length := (List.mem_range.mp hi).trans_le h
    simp [hl]
  rw [append, mapM_eq_map ha, hm, List.flatMap_def]
  rfl

-- A row shows the bytes from its offset on.
theorem row_eq (h : off + size ≤ bytes.length) :
    row bytes off size = some {
      offset := off
      hex    := ((bytes.drop off).take size).flatMap hexGroup
      ascii  := ((bytes.drop off).take size).map asciiChar
    } := by
  have hl : size ≤ (bytes.drop off).length := by
    rw [List.length_drop]
    omega
  have ha : (fun ch : Byte => if 32 ≤ ch.toInt ∧ ch.toInt ≤ 127 then [Char.ofNat ch.toNat] else ['.']) =
      fun ch => [asciiChar ch] := by
    funext ch
    rw [asciiChar]
    split <;> rfl
  rw [row, toHex, toAscii, ha, append_eq hl, append_eq hl, ←List.map_eq_flatMap]
  rfl

theorem getD_hex_mem {k : Nat} (h : k < 16) : hex.getD k ' ' ∈ hex := by
  rw [List.getD_eq_getElem _ _ (show k < hex.length from h)]
  exact List.getElem_mem _

theorem readDigit_hex {k : Nat} (h : k < 16) : readDigit (hex.getD k ' ') = some k := by
  have hd : ∀ k < 16, readDigit (hex.getD k ' ') = some k := by decide
  exact hd k h

theorem high_lt (ch : Byte) : ((ch &&& 0xF0) >>> 4).toNat < 16 := by
  have := (ch &&& 0xF0).isLt
  rw [BitVec.toNat_ushiftRight, Nat.shiftRight_eq_div_pow]
  omega

theorem low_lt (ch : Byte) : (ch &&& 0xF).toNat < 16 := by
  have hm : (0xF : Byte).toNat < 2 ^ 4 := by decide
  rw [BitVec.toNat_and]
  exact Nat.and_lt_two_pow _ hm

-- The two digits of a byte.
theorem nibbles (ch : Byte) : 16 * ((ch &&& 0xF0) >>> 4).toNat + (ch &&& 0xF).toNat = ch.toNat := by
  revert ch
  decide

theorem readGroups_hexGroup (ch : Byte) (cs : List Char) :
    readGroups (hexGroup ch ++ cs) = (readGroups cs).map (ch :: ·) := by
  have hr : readHex [hex.getD ((ch &&& 0xF0) >>> 4).toNat ' ', hex.getD (ch &&& 0xF).toNat ' '] =
      some ch.toNat := by
    rw [readHex, List.foldlM_cons, readDigit_hex (high_lt ch)]
    simp only [Option.map_some, Option.bind_eq_bind, Option.bind_some, List.foldlM_cons,
      readDigit_hex (low_lt ch), List.foldlM_nil, Nat.mul_zero, Nat.zero_add, nibbles]
    rfl
  have hb : BitVec.ofNat 8 ch.toNat = ch := by rw [BitVec.ofNat_toNat, BitVec.setWidth_eq]
  rw [hexGroup, List.cons_append, List.cons_append, List.cons_append, List.nil_append, readGroups, hr,
    Option.bind_eq_bind, Option.bind_some, hb]
  cases readGroups cs <;> rfl

theorem readGroups_flatMap (bs : List Byte) : readGroups (bs.flatMap hexGroup) = some bs := by
  induction bs
  case nil => rfl
  case cons ch bs hi =>
    rw [List.flatMap_cons, readGroups_hexGroup, hi]
    rfl

-- The characters of a column are digits and blanks.
theorem mem_hexGroup {bs : List Byte} (h : c ∈ bs.flatMap hexGroup) : c ∈ hex ∨ c = ' ' := by
  obtain ⟨ch, _, hc⟩ := List.mem_flatMap.mp h
  simp only [hexGroup, List.mem_cons, List.not_mem_nil, or_false] at hc
  obtain rfl | rfl | rfl := hc
  · exact .inl <| getD_hex_mem <| high_lt ch
  · exact .inl <| getD_hex_mem <| low_lt ch
  · exact .inr rfl

theorem asciiChar_ne (ch : Byte) : asciiChar ch ≠ '\n' ∧ asciiChar ch ≠ '\x00' := by
  revert ch
  decide

end Column

section Rows

variable {bytes : List Byte} {i k n x : Nat} {c : Char}

def chunk (bytes : List Byte) (i : Nat) : List Byte :=
  bytes.drop (16 * i) |>.take 16

def shownRow (bytes : List Byte) (i : Nat) : Row :=
  ⟨16 * i, (chunk bytes i).flatMap hexGroup, (chunk bytes i).map asciiChar⟩

theorem row_full (h : 16 * i + 16 ≤ bytes.length) : row bytes (i * 16) 16 = some (shownRow bytes i) := by
  rw [Nat.mul_comm i 16]
  exact row_eq h

theorem row_rest (h : bytes.length = 16 * i + n) (hn : n ≤ 16) :
    row bytes (i * 16) n = some (shownRow bytes i) := by
  have ht : (bytes.drop (16 * i)).take n = chunk bytes i := by
    have hl : (bytes.drop (16 * i)).length ≤ n := by
      rw [List.length_drop]
      omega
    rw [chunk, List.take_of_length_le hl, List.take_of_length_le (hl.trans hn)]
  rw [Nat.mul_comm i 16, row_eq h.ge, ht]
  rfl

-- The loop shows the full rows, and the branch behind it shows the rest.
theorem showBytes_eq (bytes : List Byte) :
    showBytes bytes bytes.length = some ((List.range ((bytes.length + 15) / 16)).map <| shownRow bytes) := by
  have hd : (bytes.length : Int).tdiv 16 = (bytes.length / 16 : Nat) := rfl
  have hm : (bytes.length : Int).tmod 16 = (bytes.length % 16 : Nat) := rfl
  have hf : (List.range (bytes.length / 16)).mapM (fun i => row bytes (i * 16) 16) =
      some ((List.range (bytes.length / 16)).map <| shownRow bytes) := by
    refine mapM_eq_map fun i hi => row_full ?_
    have := List.mem_range.mp hi
    omega
  simp only [showBytes, hd, hm, Int.toNat_natCast, hf, Option.bind_eq_bind, Option.bind_some]
  split
  case isFalse h =>
    have hn : (bytes.length + 15) / 16 = bytes.length / 16 := by omega
    rw [hn]
    rfl
  case isTrue h =>
    have hn : (bytes.length + 15) / 16 = bytes.length / 16 + 1 := by omega
    have ho : ((bytes.length / 16 : Nat) * 16 : Int).toNat = bytes.length / 16 * 16 := by omega
    rw [ho, row_rest (by omega) (by omega), hn, List.range_succ, List.map_append]
    rfl

theorem flatMap_chunk (bytes : List Byte) (k : Nat) :
    (List.range k).flatMap (chunk bytes) = bytes.take (16 * k) := by
  induction k
  case zero => simp
  case succ k hi =>
    rw [List.range_succ, List.flatMap_append, hi, List.flatMap_singleton, chunk, ←List.take_add, Nat.mul_succ]

theorem chunk_length_le : (chunk bytes i).length ≤ 16 :=
  List.length_take_le _ _

theorem hexText_length : (hexText n x).length = n := by
  induction n generalizing x
  case zero      => rfl
  case succ n hi => rw [hexText, List.length_append, hi, List.length_singleton]

theorem mem_hexText (h : c ∈ hexText n x) : c ∈ hex := by
  induction n generalizing x
  case zero => cases h
  case succ n hi =>
    rcases List.mem_append.mp h with h | h
    case inl => exact hi h
    case inr => exact List.mem_singleton.mp h ▸ getD_hex_mem (x.mod_lt <| by decide)

theorem readHex_hexText (n x : Nat) : readHex (hexText n x) = some (x % 16 ^ n) := by
  induction n generalizing x
  case zero => simp [hexText, readHex, Nat.mod_one]
  case succ n hi =>
    have hd : readDigit (hex.getD (x % 16) ' ') = some (x % 16) := readDigit_hex <| x.mod_lt <| by decide
    have hm : 16 * (x / 16 % 16 ^ n) + x % 16 = x % 16 ^ (n + 1) := by
      rw [Nat.pow_succ, Nat.mul_comm (16 ^ n) 16, Nat.mod_mul, Nat.add_comm]
    have hi := hi (x / 16)
    rw [readHex] at hi
    rw [hexText, readHex, List.foldlM_append, hi, Option.bind_eq_bind, Option.bind_some, List.foldlM_cons, hd,
      Option.map_some, hm]
    rfl

theorem printed_eq {s : List Char} (h : '\x00' ∉ s) : printed s = s :=
  List.takeWhile_eq_self_iff.mpr fun c hc => by simpa using fun he : c = '\x00' => h <| he ▸ hc

theorem line_eq (bytes : List Byte) (i : Nat) : (shownRow bytes i).line =
    ['0', 'x'] ++ hexText 8 (16 * i) ++ [' ', '|', ' '] ++
      ((chunk bytes i).flatMap hexGroup ++ '|' :: ' ' :: (chunk bytes i).map asciiChar) := by
  have hh : '\x00' ∉ (chunk bytes i).flatMap hexGroup := fun h => by
    rcases mem_hexGroup h with h | h <;> exact absurd h <| by decide
  have ha : '\x00' ∉ (chunk bytes i).map asciiChar := fun h => by
    obtain ⟨ch, _, he⟩ := List.mem_map.mp h
    exact (asciiChar_ne ch).right he
  simp only [Row.line, shownRow, printed_eq hh, printed_eq ha]
  simp

theorem readRow_line (h : 16 * i < 2 ^ 32) :
    readRow (shownRow bytes i).line = some (16 * i, chunk bytes i, (chunk bytes i).map asciiChar) := by
  have hd : ∀ c ∈ (chunk bytes i).flatMap hexGroup, (decide (c ≠ '|')) = true := fun c hc => by
    rcases mem_hexGroup hc with hc | hc
    · exact decide_eq_true fun he => absurd (he ▸ hc) <| by decide
    · exact decide_eq_true fun he => absurd (he ▸ hc) <| by decide
  have ho : ((shownRow bytes i).line.drop 2).take 8 = hexText 8 (16 * i) := by
    have hl : ['0', 'x'].length = 2 := rfl
    rw [line_eq, List.append_assoc, List.append_assoc, List.drop_left' hl, List.take_left' hexText_length]
  have hr : (shownRow bytes i).line.drop 13 =
      (chunk bytes i).flatMap hexGroup ++ '|' :: ' ' :: (chunk bytes i).map asciiChar := by
    rw [line_eq, List.drop_left']
    simp [hexText_length]
  simp only [readRow, ho, hr, readHex_hexText, Nat.mod_eq_of_lt (show 16 * i < 16 ^ 8 from h),
    List.takeWhile_append_of_pos hd, List.dropWhile_append_of_pos hd]
  rw [List.takeWhile_cons_of_neg (by simp), List.dropWhile_cons_of_neg (by simp), List.append_nil,
    readGroups_flatMap]
  rfl

theorem newline_not_mem_line : '\n' ∉ (shownRow bytes i).line := by
  have hx : '\n' ∉ hexText 8 (16 * i) := fun h => absurd (mem_hexText h) <| by decide
  have hg : '\n' ∉ (chunk bytes i).flatMap hexGroup := fun h => by
    rcases mem_hexGroup h with h | h <;> exact absurd h <| by decide
  have ha : '\n' ∉ (chunk bytes i).map asciiChar := fun h => by
    obtain ⟨ch, _, he⟩ := List.mem_map.mp h
    exact (asciiChar_ne ch).left he
  rw [line_eq]
  simp only [List.mem_append, List.mem_cons, List.not_mem_nil, hx, hg, ha, or_false]
  decide

theorem getlines_linesText {lines : List (List Char)} (h : ∀ l ∈ lines, '\n' ∉ l) :
    getlines (linesText lines) = lines := by
  induction lines
  case nil => rfl
  case cons l lines hi =>
    have hl : linesText (l :: lines) = l ++ '\n' :: linesText lines := by simp [linesText]
    rw [hl, getlines_append (h l <| .head _), hi fun l' hl' => h l' <| .tail _ hl']

theorem newline_not_mem_toString (n : Nat) : '\n' ∉ (toString (n : Int)).toList := by
  have hr : (toString (n : Int)).toList = Nat.toDigits 10 n := Nat.toList_repr
  rw [hr]
  exact fun h => absurd (Nat.isDigit_of_mem_toDigits (by decide) (by decide) h) <| by decide

theorem newline_not_mem_header {ptr : List Char} (hp : '\n' ∉ ptr) (n : Nat) :
    ∀ l ∈ headerLines ptr n, '\n' ∉ l := by
  have hs := newline_not_mem_toString n
  simp only [headerLines, List.mem_cons, List.not_mem_nil, or_false, forall_eq_or_imp, forall_eq,
    List.mem_append, hp, hs]
  decide

-- The text consists of the header, of one row for every 16 bytes, and of the footer.
theorem showText_eq (ptr : List Char) (bytes : List Byte) : showText ptr bytes bytes.length =
    some (linesText <| headerLines ptr bytes.length ++
      (List.range ((bytes.length + 15) / 16)).map (fun i => (shownRow bytes i).line) ++ footerLines) := by
  rw [showText, showBytes_eq, Option.bind_eq_bind, Option.bind_some, List.map_map]
  rfl

theorem getlines_showText {ptr : List Char} (hp : '\n' ∉ ptr) (bytes : List Byte) :
    (showText ptr bytes bytes.length).map getlines = some (headerLines ptr bytes.length ++
      (List.range ((bytes.length + 15) / 16)).map (fun i => (shownRow bytes i).line) ++ footerLines) := by
  have hf : ∀ l ∈ footerLines, '\n' ∉ l := by decide
  rw [showText_eq, Option.map_some, getlines_linesText]
  intro l hl
  rcases List.mem_append.mp hl with hl | hl
  case inr => exact hf l hl
  case inl =>
    rcases List.mem_append.mp hl with hl | hl
    case inl => exact newline_not_mem_header hp _ l hl
    case inr =>
      obtain ⟨i, _, rfl⟩ := List.mem_map.mp hl
      exact newline_not_mem_line

end Rows

-- The pointer is printed as characters other than line breaks.
theorem show_lossless (printPtr : DWord → List Char) (hp : ∀ p, '\n' ∉ printPtr p) (p : DWord)
    (bytes : List Byte) (hl : bytes.length < 2 ^ 31) :
    ∃ text rows, showText (printPtr p) bytes bytes.length = some text ∧
      getlines text = headerLines (printPtr p) bytes.length ++ rows ++ footerLines ∧
      rows.length = (bytes.length + 15) / 16 ∧
      (∀ i line, rows[i]? = some line → ∃ chunk ascii, readRow line = some (16 * i, chunk, ascii) ∧
        chunk.length ≤ 16 ∧ ascii.length = chunk.length ∧ '\n' ∉ ascii) ∧
      (rows.mapM readRow).map (·.flatMap (·.2.1)) = some bytes := by
  have ht := getlines_showText (hp p) bytes
  obtain ⟨text, hs, ht⟩ := Option.map_eq_some_iff.mp ht
  have hr (i) (hi : i < (bytes.length + 15) / 16) : readRow (shownRow bytes i).line =
      some (16 * i, chunk bytes i, (chunk bytes i).map asciiChar) := readRow_line <| by omega
  refine ⟨text, _, hs, ht, by simp, fun i line hi => ?_, ?_⟩
  case refine_1 =>
    rw [List.getElem?_map, Option.map_eq_some_iff] at hi
    obtain ⟨j, hj, rfl⟩ := hi
    obtain ⟨hn, he⟩ := List.getElem?_eq_some_iff.mp hj
    rw [List.getElem_range] at he
    subst he
    rw [List.length_range] at hn
    refine ⟨_, _, hr i hn, chunk_length_le, List.length_map _, fun h => ?_⟩
    obtain ⟨ch, _, he⟩ := List.mem_map.mp h
    exact (asciiChar_ne ch).left he
  case refine_2 =>
    have hm := mapM_eq_map (f := fun i => readRow (shownRow bytes i).line) fun i hi =>
      hr i <| List.mem_range.mp hi
    rw [List.mapM_map]
    refine (congrArg (Option.map _) hm).trans ?_
    rw [Option.map_some, List.flatMap_map, flatMap_chunk, List.take_of_length_le (by omega)]

-- The delimiter, a line break, and a byte that is negative as a `char`.
theorem show_lossless_three_bytes :
    ∃ text rows, showText (hexText 8 0x700000) [0x7C, 0x0A, 0xFF] 3 = some text ∧
      getlines text = headerLines (hexText 8 0x700000) 3 ++ rows ++ footerLines ∧
      (rows.mapM readRow).map (·.flatMap (·.2.1)) = some [0x7C, 0x0A, 0xFF] := by
  have hp (p : DWord) : '\n' ∉ hexText 8 p.toNat := fun h => absurd (mem_hexText h) <| by decide
  obtain ⟨text, rows, ht, hg, _, _, hr⟩ :=
    show_lossless (fun p => hexText 8 p.toNat) hp 0x700000 [0x7C, 0x0A, 0xFF] (by decide)
  exact ⟨text, rows, ht, hg, hr⟩

end HexDump
