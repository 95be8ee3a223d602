import MhoLauncher.Library.Text

open Text

namespace Ini

-- The values of the keys.
abbrev Config := List Char → Option (List Char)

-- The characters that are removed at the start of a key or a value.
def blank : List Char := [' ', '\t']

-- The characters that are removed at the end.
def trailing : List Char := [' ', '\t', '\r']

def comment : List Char := ['#', ';', '[']

-- The `size_t` that is `b - a + 1`. No position is as large as npos, so this wraps around only if `b` is npos.
def trim.length (a : Nat) : Option Nat → Nat
  | none   => (2 ^ 32 - a) % 2 ^ 32
  | some b => b + 1 - a

def trim (s : List Char) : List Char :=
  let b := findLastNotOf s trailing
  match findFirstNotOf s blank with
  | none   => []
  | some a => substr s a <| trim.length a b

-- One iteration of the loop.
def readLine (out : Config) (line : List Char) : Config :=
  match findFirstNotOf line blank with
  | none       => out
  | some start =>
    if (line)[start]?.any (· ∈ comment) then out else
      match find line '=' with
      | none    => out
      | some eq =>
        let key := trim <| substr line 0 eq
        let val := trim <| substr line (eq + 1) line.length
        if key = [] then out else Function.update out key val

-- The content is what the stream delivers if the file can be opened.
def agIniRead : Option (List Char) → Config
  | none         => fun _ => none
  | some content => (getlines content).foldl readLine fun _ => none

def agIniGetInt (m : Config) (key : List Char) (default : Int) : Int :=
  match m key with
  | none    => default
  | some [] => default
  | some v  => (stoi v).getD default

def agMhoIniDefaults : List Char :=
  [ "# ag_mho.ini - MHO launcher / injector config\n",
    "\n",
    "# Inject ag_mho.dll into MHOClient.exe (0 = disabled, 1 = enabled)\n",
    "inject_dll = 0\n",
    "\n",
    "# Log client_log messages captured by the mhoclient hook (0 = disabled, 1 = enabled)\n",
    "log_client_logs = 0\n",
    "\n",
    "# Log encrypted network traffic (TPDU encrypt/decrypt input + output buffers) in protocalhandler ",
    "(0 = disabled, 1 = enabled)\n",
    "log_encrypted_network = 0\n",
    "\n",
    "# Install TerSafe proxy observation hooks in CryGame ",
    "(tersafe vt1/vt3/slot30 wrappers + pre_dispatch). Noisy. ",
    "(0 = disabled, 1 = enabled)\n",
    "hook_tersafe = 0\n",
    "\n",
    "# Inject haunt.dll into MHOClient.exe (0 = disabled, 1 = enabled)\n",
    "inject_haunt = 0\n" ].flatMap String.toList

-- The parts of a line before and after the first equals sign, unless the line is blank or a comment.
def parts (line : List Char) : Option (List Char × List Char) :=
  match line.dropWhile (· ∈ blank) with
  | []     => none
  | c :: _ =>
    if c ∈ comment ∨ '=' ∉ line then none else
      some (line.takeWhile (· ≠ '='), (line.dropWhile (· ≠ '=')).tail)

-- The key that a line assigns to and the part of the line that contains the value.
def assignment (line : List Char) : Option (List Char × List Char) := do
  let (k, v) ← parts line
  if trim k = [] then none else some (trim k, v)

-- The assignments of a file in the order in which they are made.
def assignments (content : List Char) : List (List Char × List Char) :=
  (getlines content).filterMap assignment

-- The part of the text that the value of a key comes from.
def valuePart (content key : List Char) : Option (List Char) :=
  (assignments content).reverse.lookup key

variable {s line content key k v : List Char} {c : Char} {out : Config}

theorem takeWhile_blank_trailing (h : c ∈ s.takeWhile (· ∈ blank)) : c ∈ trailing := by
  have hb : blank ⊆ trailing := by decide
  exact hb <| by simpa using List.mem_takeWhile_imp h

-- The characters that are removed at the start do not matter at the end, unless all characters are
-- removed there.
theorem rdropWhile_dropWhile (h : ¬∀ c ∈ s, c ∈ trailing) :
    s.rdropWhile (· ∈ trailing) =
      s.takeWhile (· ∈ blank) ++ (s.dropWhile (· ∈ blank)).rdropWhile (· ∈ trailing) := by
  have hd : ((s.dropWhile (· ∈ blank)).reverse.dropWhile (· ∈ trailing)).isEmpty = false := by
    by_contra he
    have ht : ∀ c ∈ s.dropWhile (· ∈ blank), c ∈ trailing := by simpa using he
    refine h fun c hc => ?_
    rw [←s.takeWhile_append_dropWhile (p := (· ∈ blank)), List.mem_append] at hc
    exact hc.elim takeWhile_blank_trailing <| ht c
  nth_rewrite 1 [←s.takeWhile_append_dropWhile (p := (· ∈ blank))]
  rw [List.rdropWhile, List.reverse_append, List.dropWhile_append, hd]
  simp [List.rdropWhile]

-- If all characters of a string are removed at the end, the length wraps around, so that it keeps them
-- unless none of them are removed at the start.
theorem trim_eq : trim s =
    if ∀ c ∈ s, c ∈ trailing then
      (s.dropWhile (· ∈ blank)).take <| (2 ^ 32 - (s.takeWhile (· ∈ blank)).length) % 2 ^ 32
    else
      (s.dropWhile (· ∈ blank)).rdropWhile (· ∈ trailing) := by
  cases ha : findFirstNotOf s blank
  case none => simp [trim, ha, findFirstNotOf_eq_none_iff.mp ha]
  case some a =>
    have hd := drop_findFirstNotOf ha
    have hl := length_takeWhile_of_findFirstNotOf ha
    cases hb : findLastNotOf s trailing
    case none   =>
      rw [if_pos <| findLastNotOf_eq_none_iff.mp hb, hl]
      simp only [trim, ha, hb, substr, trim.length, hd]
    case some b =>
      have hn : ¬∀ c ∈ s, c ∈ trailing := by simp [←findLastNotOf_eq_none_iff, hb]
      rw [if_neg hn]
      simp only [trim, ha, hb, substr, trim.length]
      rw [←List.drop_take, take_findLastNotOf hb, rdropWhile_dropWhile hn, ←hl, List.drop_left]

theorem parts_append (hk : '=' ∉ k) (hc : ∀ c ∈ (k.dropWhile (· ∈ blank)).head?, c ∉ comment) :
    parts (k ++ '=' :: v) = some (k, v) := by
  have hp : ∀ c ∈ k, decide (c ≠ '=') = true := fun c h => by simpa using fun e : c = '=' => hk (e ▸ h)
  have ht : (k ++ '=' :: v).takeWhile (· ≠ '=') = k := by
    rw [List.takeWhile_append_of_pos hp]
    simp
  have hd : (k ++ '=' :: v).dropWhile (· ≠ '=') = '=' :: v := by
    rw [List.dropWhile_append_of_pos hp]
    simp
  rw [parts, ht, hd, List.dropWhile_append]
  cases hb : k.dropWhile (· ∈ blank)
  case nil       => simp [blank, comment]
  case cons c cs => simp [hc c <| by rw [hb]; rfl]

theorem readLine_eq : readLine out line =
    match assignment line with
    | none        => out
    | some (k, v) => Function.update out k <| trim v := by
  cases hs : findFirstNotOf line blank
  case none => simp [readLine, assignment, parts, hs, findFirstNotOf_eq_none_iff.mp hs]
  case some start =>
    have hd := drop_findFirstNotOf hs
    have hc : (line)[start]? = (line.dropWhile (· ∈ blank)).head? := by rw [←hd, List.head?_drop]
    cases hw : line.dropWhile (· ∈ blank)
    case nil => simp [findFirstNotOf_eq_none_iff.mpr hw] at hs
    case cons c cs =>
      rw [hw, List.head?_cons] at hc
      by_cases hm : c ∈ comment
      case pos => simp [readLine, assignment, parts, hs, hc, hw, hm]
      case neg =>
        cases he : find line '='
        case none => simp [readLine, assignment, parts, hs, hc, hw, he, find_eq_none_iff.mp he]
        case some eq =>
          have hi : '=' ∈ line := by
            by_contra h
            simp [find_eq_none_iff.mpr h] at he
          have hv : substr line (eq + 1) line.length = (line.dropWhile (· ≠ '=')).tail := by
            rw [←drop_of_find he, substr, List.take_of_length_le]
            rw [List.length_drop]
            omega
          simp only [readLine, assignment, parts, hs, hc, hw, hm, he, hi, hv, substr_of_find he,
            Option.any_some, decide_false, Bool.false_eq_true, if_false, not_true_eq_false, or_self,
            Option.bind_eq_bind, Option.bind_some]
          split <;> rfl

theorem foldl_readLine (lines : List (List Char)) :
    lines.foldl readLine out key = (((lines.filterMap assignment).reverse.lookup key).map trim).or
      (out key) := by
  induction lines generalizing out
  case nil => rfl
  case cons line lines hi =>
    rw [List.foldl_cons, hi, readLine_eq]
    cases ha : assignment line
    case none => simp [ha]
    case some kv =>
      obtain ⟨k, v⟩ := kv
      rw [List.filterMap_cons_some ha, List.reverse_cons, List.lookup_append]
      cases (lines.filterMap assignment).reverse.lookup key
      case some => rfl
      case none =>
        by_cases hk : key = k
        case pos => simp [hk]
        case neg => simp [hk, List.lookup_cons, beq_eq_false_iff_ne.mpr hk]

theorem agIniRead_apply :
    agIniRead (some content) key = (valuePart content key).map trim := by
  rw [agIniRead, foldl_readLine, Option.or_none, valuePart, assignments]

end Ini
