import MhoLauncher.Ini.Basic

open Text

namespace Ini

-- Trimming a string with these properties does not remove anything.
structure Trimmed (s : List Char) : Prop where
  head : ∀ c ∈ s.head?, c ∉ blank
  last : ∀ c ∈ s.getLast?, c ∉ trailing

structure IsKey (key : List Char) : Prop where
  ne_nil : key ≠ []
  plain  : ∀ c ∈ key, c ∉ ['=', '\r', '\n']
  head   : ∀ c ∈ key.head?, c ∉ blank ∧ c ∉ comment
  last   : ∀ c ∈ key.getLast?, c ∉ blank

structure IsValue (value : List Char) : Prop where
  plain : ∀ c ∈ value, c ∉ ['\r', '\n']
  head  : ∀ c ∈ value.head?, c ∉ blank
  last  : ∀ c ∈ value.getLast?, c ∉ blank

structure Assignment where
  key     : List Char
  value   : List Char
  isKey   : IsKey key
  isValue : IsValue value

-- An arbitrary number of spaces and tabs.
abbrev Blanks := { w : List Char // ∀ c ∈ w, c ∈ blank }

-- The lines that do not assign anything.
inductive Noise : List Char → Prop
  | blank     (w : Blanks) : Noise w
  | comment   (w : Blanks) (c : Char) (h : c ∈ comment) (rest : List Char) : Noise (w ++ c :: rest)
  | plain     (line : List Char) (h : '=' ∉ line) : Noise line
  | anonymous (w : Blanks) (rest : List Char) : Noise (w ++ '=' :: rest)

inductive Line
  | assign (a : Assignment) (indent before after trail : Blanks)
  | noise  (line : List Char) (isNoise : Noise line) (plain : '\n' ∉ line)

namespace Line

def render : Line → List Char
  | assign a indent before after trail => indent ++ a.key ++ before ++ '=' :: (after ++ a.value ++ trail)
  | noise line _ _                     => line

def assignment : Line → Option (List Char × List Char)
  | assign a .. => some (a.key, a.value)
  | noise ..    => none

end Line

-- The last line may end with a newline or not.
def renderFile (final : Bool) : List Line → List Char
  | []              => []
  | [line]          => line.render ++ if final then ['\n'] else []
  | line :: l :: ls => line.render ++ '\n' :: renderFile final (l :: ls)

-- The map in which each key has the last value that a line assigns to it.
def lastValue (lines : List Line) : Config :=
  fun key => (lines.filterMap Line.assignment).reverse.lookup key

-- The map that is read from a file that was rendered.
def readBack (final : Bool) (lines : List Line) : Config :=
  agIniRead <| some <| renderFile final lines

structure IsDigits (text : List Char) : Prop where
  ne_nil  : text ≠ []
  isDigit : ∀ c ∈ text, c.isDigit

-- The texts of an integer, which may have a sign and leading zeros.
inductive Decimal : List Char → Int → Prop
  | plain {ds} (h : IsDigits ds) : Decimal ds (Nat.ofDigitChars 10 ds 0)
  | pos   {ds} (h : IsDigits ds) : Decimal ('+' :: ds) (Nat.ofDigitChars 10 ds 0)
  | neg   {ds} (h : IsDigits ds) : Decimal ('-' :: ds) (-Nat.ofDigitChars 10 ds 0)

variable {s line key value text : List Char} {w w' : Blanks} {n default : Int} {m : Config}

theorem Trimmed.ne_all (ht : Trimmed s) (h : s ≠ []) : ¬∀ c ∈ s, c ∈ trailing :=
  fun ha => ht.last _ (List.getLast?_eq_some_getLast h) <| ha _ <| List.getLast_mem h

theorem Blanks.mem_trailing (w : Blanks) {c : Char} (h : c ∈ w.val) : c ∈ trailing := by
  have hb : blank ⊆ trailing := by decide
  exact hb <| w.property c h

theorem dropWhile_blanks (w : Blanks) : (w.val ++ s).dropWhile (· ∈ blank) = s.dropWhile (· ∈ blank) :=
  List.dropWhile_append_of_pos fun c hc => by simpa using w.property c hc

theorem Trimmed.dropWhile (ht : Trimmed s) (h : s ≠ []) (t : List Char) :
    (s ++ t).dropWhile (· ∈ blank) = s ++ t := by
  cases s
  case nil       => contradiction
  case cons c cs => simpa using ht.head c rfl

theorem Trimmed.rdropWhile (ht : Trimmed s) (w : Blanks) :
    (s ++ w.val).rdropWhile (· ∈ trailing) = s := by
  rw [List.rdropWhile, List.reverse_append, List.dropWhile_append_of_pos, ←List.rdropWhile]
  · rw [List.rdropWhile_eq_self_iff]
    exact fun h => by simpa using ht.last _ <| List.getLast?_eq_some_getLast h
  · exact fun c hc => by simpa using w.mem_trailing <| List.mem_reverse.mp hc

theorem Trimmed.trim (ht : Trimmed s) (w w' : Blanks) : trim (w ++ s ++ w') = s := by
  by_cases hs : s = []
  case pos =>
    have hd : (w.val ++ s ++ w'.val).dropWhile (· ∈ blank) = [] := by
      rw [hs, List.append_nil, dropWhile_blanks, ←w'.val.append_nil, dropWhile_blanks, List.dropWhile_nil]
    rw [trim_eq, hd, hs]
    simp
  case neg =>
    rw [trim_eq, if_neg fun h => ht.ne_all hs fun c hc => h c <| by simp [hc], List.append_assoc,
      dropWhile_blanks, ht.dropWhile hs, ht.rdropWhile]

theorem IsKey.trimmed (h : IsKey key) : Trimmed key where
  head c hc := (h.head c hc).left
  last c hc := by
    have hp := h.plain c <| List.mem_of_getLast? hc
    have hl := h.last c hc
    simp_all [blank, trailing]

theorem IsValue.trimmed (h : IsValue value) : Trimmed value where
  head := h.head
  last c hc := by
    have hp := h.plain c <| List.mem_of_getLast? hc
    have hl := h.last c hc
    simp_all [blank, trailing]

theorem comment_not_blank {c : Char} (h : c ∈ comment) : c ∉ blank := by
  have hd : comment.Disjoint blank := by simp [comment, blank]
  exact hd h

theorem trim_blanks (w : Blanks) : trim w = [] := by
  simpa using Trimmed.trim (s := []) ⟨by simp, by simp⟩ w ⟨[], by simp⟩

theorem eq_not_mem_blanks (w : Blanks) : '=' ∉ w.val :=
  fun h => by simpa [blank] using w.property _ h

theorem assignment_noise (h : Noise line) : assignment line = none := by
  cases h
  case blank w =>
    have hd := dropWhile_blanks (s := []) w
    rw [List.append_nil] at hd
    simp [assignment, parts, hd]
  case comment w c hc rest =>
    have hd : (w.val ++ c :: rest).dropWhile (· ∈ blank) = c :: rest := by
      rw [dropWhile_blanks, List.dropWhile_cons_of_neg <| by simpa using comment_not_blank hc]
    simp [assignment, parts, hd, hc]
  case plain hn =>
    rw [assignment, parts]
    split <;> simp [hn]
  case anonymous w rest =>
    have hd := dropWhile_blanks (s := []) w
    rw [List.append_nil] at hd
    rw [assignment, parts_append (eq_not_mem_blanks w) <| by simp [hd]]
    simp [trim_blanks]

theorem assignment_assign (a : Assignment) (w₁ w₂ w₃ w₄ : Blanks) :
    assignment (Line.assign a w₁ w₂ w₃ w₄).render = some (a.key, w₃ ++ a.value ++ w₄) := by
  have he : '=' ∉ w₁ ++ a.key ++ w₂ := by
    have hk : '=' ∉ a.key := fun h => by simpa using a.isKey.plain _ h
    simp [hk, eq_not_mem_blanks]
  have hc : ∀ c ∈ ((w₁ ++ a.key ++ w₂).dropWhile (· ∈ blank)).head?, c ∉ comment := by
    rw [List.append_assoc, dropWhile_blanks, a.isKey.trimmed.dropWhile a.isKey.ne_nil,
      List.head?_append_of_ne_nil _ a.isKey.ne_nil]
    exact fun c hc => (a.isKey.head c hc).right
  rw [Line.render, assignment, parts_append he hc]
  simp only [Option.bind_eq_bind, Option.bind_some, a.isKey.trimmed.trim, a.isKey.ne_nil, if_false]

theorem Line.assignment_render (l : Line) :
    (Ini.assignment l.render).map (Prod.map id trim) = l.assignment := by
  cases l
  case noise line isNoise _ => simp [render, assignment_noise isNoise, assignment]
  case assign a w₁ w₂ w₃ w₄ =>
    rw [assignment_assign, Option.map_some, Prod.map_apply, a.isValue.trimmed.trim, id, assignment]

theorem Line.not_mem_render (l : Line) : '\n' ∉ l.render := by
  cases l
  case noise _ _ plain => exact plain
  case assign a w₁ w₂ w₃ w₄ =>
    have hw : ∀ w : Blanks, '\n' ∉ w.val := fun w h => by simpa [blank] using w.property _ h
    have hk : '\n' ∉ a.key := fun h => by simpa using a.isKey.plain _ h
    have hv : '\n' ∉ a.value := fun h => by simpa using a.isValue.plain _ h
    simp [render, hw, hk, hv]

theorem assignments_append (h : '\n' ∉ s) :
    assignments (s ++ '\n' :: text) = (assignment s).toList ++ assignments text := by
  rw [assignments, getlines_append h, List.filterMap_cons]
  cases assignment s <;> rfl

theorem assignments_of_not_mem (h : '\n' ∉ s) : assignments s = (assignment s).toList := by
  by_cases hs : s = []
  case pos => simp [hs, assignments, getlines, assignment, parts]
  case neg =>
    rw [assignments, getlines_of_not_mem h hs, List.filterMap_cons]
    cases assignment s <;> rfl

theorem assignments_renderFile (final : Bool) (lines : List Line) :
    (assignments (renderFile final lines)).map (Prod.map id trim) = lines.filterMap Line.assignment := by
  induction lines
  case nil => rfl
  case cons l ls hi =>
    have hl : ((Ini.assignment l.render).toList).map (Prod.map id trim) = l.assignment.toList := by
      rw [←l.assignment_render]
      cases Ini.assignment l.render <;> rfl
    have hc : (l :: ls).filterMap Line.assignment = l.assignment.toList ++ ls.filterMap Line.assignment := by
      rw [List.filterMap_cons]
      cases l.assignment <;> rfl
    cases ls
    case cons k ks =>
      rw [renderFile, assignments_append l.not_mem_render, List.map_append, hl, hi, hc]
    case nil =>
      rw [hc, List.filterMap_nil, List.append_nil, ←hl]
      cases final
      case false =>
        rw [renderFile, if_neg Bool.false_ne_true, List.append_nil, assignments_of_not_mem l.not_mem_render]
      case true  =>
        rw [renderFile, if_pos rfl, assignments_append l.not_mem_render]
        simp [assignments, getlines]

theorem lookup_map_snd {l : List (List Char × List Char)} {f : List Char → List Char} :
    (l.lookup key).map f = (l.map <| Prod.map id f).lookup key := by
  induction l
  case nil => rfl
  case cons p l hi =>
    rw [List.map_cons, List.lookup_cons, List.lookup_cons, Prod.map_fst, id]
    split
    · rfl
    · exact hi

theorem agIniRead_renderFile (final : Bool) (lines : List Line) :
    agIniRead (some <| renderFile final lines) = lastValue lines := by
  funext key
  rw [agIniRead_apply, valuePart, lookup_map_snd, List.map_reverse, assignments_renderFile, lastValue]

theorem not_isSpace_of_isDigit {c : Char} (h : c.isDigit) : isSpace c = false := by
  have h₀ : '0' ≤ c := by simp_all [Char.isDigit, Char.le_def]
  have hr : ¬c ≤ '\r' := fun hc => absurd (h₀.trans hc) <| by decide
  have hb : c ≠ ' ' := fun hc => absurd (hc ▸ h) <| by decide
  simp [isSpace, hb, hr]

theorem IsDigits.digits (h : IsDigits text) : digits text = some (Nat.ofDigitChars 10 text 0) := by
  have ht : text.takeWhile Char.isDigit = text := by simpa using h.isDigit
  rw [Text.digits, ht]
  split
  · exact absurd rfl h.ne_nil
  · rfl

theorem Decimal.stoi (h : Decimal text n) : stoi text = int32 n := by
  cases h
  case pos h => rw [stoi_pos, h.digits, Option.bind_eq_bind, Option.bind_some]
  case neg h => rw [stoi_neg, h.digits, Option.bind_eq_bind, Option.bind_some]
  case plain h =>
    obtain ⟨c, cs, rfl⟩ := List.exists_cons_of_ne_nil h.ne_nil
    have hc := h.isDigit c <| .head _
    rw [Text.stoi, List.dropWhile_cons_of_neg <| by simp [not_isSpace_of_isDigit hc]]
    split
    case h_1 he => cases he; simp at hc
    case h_2 he => cases he; simp at hc
    case h_3    => rw [h.digits, Option.bind_eq_bind, Option.bind_some]

theorem isDigits_repr (n : Nat) : IsDigits n.repr.toList where
  ne_nil := by simp
  isDigit c h := by
    rw [Nat.toList_repr] at h
    exact Nat.isDigit_of_mem_toDigits (by decide) (by decide) h

-- The text that an integer is printed as is a decimal text of it.
theorem decimal_toString (n : Int) : Decimal (toString n).toList n := by
  cases n
  case ofNat n =>
    have h := Decimal.plain <| isDigits_repr n
    rw [Nat.toList_repr, Nat.ofDigitChars_ten_toDigits, ←Nat.toList_repr] at h
    exact h
  case negSucc n =>
    have h := Decimal.neg <| isDigits_repr (n + 1)
    have he : toString (Int.negSucc n) = "-" ++ (n + 1).repr := rfl
    rw [Nat.toList_repr, Nat.ofDigitChars_ten_toDigits, ←Nat.toList_repr] at h
    rw [he, String.toList_append]
    exact h

theorem agIniGetInt_of_none (h : m key = none) : agIniGetInt m key default = default := by
  rw [agIniGetInt, h]

theorem agIniGetInt_of_nil (h : m key = some []) : agIniGetInt m key default = default := by
  rw [agIniGetInt, h]

theorem agIniGetInt_of_decimal (h : m key = some text) (hd : Decimal text n) :
    agIniGetInt m key default = (int32 n).getD default := by
  rw [agIniGetInt, h]
  split
  case h_1 he => cases he
  case h_2 he =>
    cases he
    cases hd
    case plain hd => exact absurd rfl hd.ne_nil
  case h_3 he =>
    cases he
    rw [hd.stoi]

theorem readBack_eq (final : Bool) (lines : List Line) :
    readBack final lines = lastValue lines ∧
    ∀ key default,
      (∀ text n, lastValue lines key = some text → Decimal text n →
        (-2 ^ 31 ≤ n ∧ n < 2 ^ 31 → agIniGetInt (readBack final lines) key default = n) ∧
        (n < -2 ^ 31 ∨ 2 ^ 31 ≤ n → agIniGetInt (readBack final lines) key default = default)) ∧
      (lastValue lines key = some [] → agIniGetInt (readBack final lines) key default = default) ∧
      (lastValue lines key = none → agIniGetInt (readBack final lines) key default = default) := by
  have hm : readBack final lines = lastValue lines := agIniRead_renderFile final lines
  refine ⟨hm, fun key default => ⟨fun text n hv hd => ?_, fun hv => ?_, fun hv => ?_⟩⟩
  · rw [agIniGetInt_of_decimal (hm ▸ hv) hd]
    constructor
    · exact fun h => by rw [int32, if_pos h, Option.getD_some]
    · exact fun h => by rw [int32, if_neg <| by omega, Option.getD_none]
  · exact agIniGetInt_of_nil <| hm ▸ hv
  · exact agIniGetInt_of_none <| hm ▸ hv

-- A value that was printed, a comment that looks like an assignment, and the same key again.
def exampleLines : List Line := [
    .assign ⟨['k'], ['+', '0', '7'], by constructor <;> simp [blank, comment], by constructor <;> simp [blank]⟩
      ⟨[], by simp⟩ ⟨[], by simp⟩ ⟨[], by simp⟩ ⟨[], by simp⟩,
    .noise [' ', ';', 'k', '=', '3', '\r']
      (.comment ⟨[' '], by simp [blank]⟩ ';' (by simp [comment]) _) (by simp),
    .assign ⟨['k'], ['-', '5'], by constructor <;> simp [blank, comment], by constructor <;> simp [blank]⟩
      ⟨[' '], by simp [blank]⟩ ⟨[], by simp⟩ ⟨['\t'], by simp [blank]⟩ ⟨[' '], by simp [blank]⟩]

theorem readBack_reassigned : agIniGetInt (readBack true exampleLines) ['k'] 1 = -5 := by
  have hv : lastValue exampleLines ['k'] = some (toString (-5 : Int)).toList := by decide
  have ⟨h, _⟩ := (readBack_eq true exampleLines).right ['k'] 1
  exact (h _ _ hv <| decimal_toString (-5)).left <| by decide

-- The file that is created if there is none disables everything.
example : ["inject_dll", "log_client_logs", "log_encrypted_network", "hook_tersafe", "inject_haunt"].map
    (agIniGetInt (agIniRead <| some agMhoIniDefaults) ·.toList 1) = [0, 0, 0, 0, 0] := by
  decide +kernel

end Ini
