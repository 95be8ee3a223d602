import MhoLauncher.Ini.RoundTrip

open Text

namespace Ini

-- All characters of the string are removed at the end, and some of them, but not all, are removed at the start.
structure Wraps (s : List Char) : Prop where
  all : ∀ c ∈ s, c ∈ trailing
  cr  : '\r' ∈ s
  pos : 0 < (s.takeWhile (· ∈ blank)).length
  lt  : (s.takeWhile (· ∈ blank)).length < 2 ^ 32

variable {s line content key k v : List Char} {c : Char}

theorem Wraps.trim (h : Wraps s) :
    trim s = (s.dropWhile (· ∈ blank)).take (2 ^ 32 - (s.takeWhile (· ∈ blank)).length) := by
  have hb := h.pos
  have hl := h.lt
  rw [trim_eq, if_pos h.all, Nat.mod_eq_of_lt <| by omega]

-- Only strings with a CR are not blank.
theorem dropWhile_blank_eq_nil_iff (h : ∀ c ∈ s, c ∈ trailing) : s.dropWhile (· ∈ blank) = [] ↔ '\r' ∉ s := by
  have hb : ∀ c ∈ s, c ∈ blank ↔ c ≠ '\r' := by
    intro c hc
    have ht := h c hc
    simp only [trailing, List.mem_cons, List.not_mem_nil, or_false] at ht
    obtain rfl | rfl | rfl := ht <;> simp [blank]
  rw [List.dropWhile_eq_nil_iff]
  constructor
  · exact fun h hr => (hb _ hr).mp (by simpa using h _ hr) rfl
  · exact fun hr c hc => by simpa using (hb c hc).mpr fun e => hr (e ▸ hc)

theorem Wraps.trim_ne_nil (h : Wraps s) : Ini.trim s ≠ [] := by
  have hd := mt (dropWhile_blank_eq_nil_iff h.all).mp <| not_not_intro h.cr
  have hl := h.lt
  rw [h.trim, Ne, List.take_eq_nil_iff]
  exact fun h => h.elim (by omega) hd

theorem Wraps.not_trimmed (h : Wraps s) : ¬Trimmed (Ini.trim s) := by
  intro ht
  refine ht.ne_all h.trim_ne_nil fun c hc => h.all c ?_
  rw [h.trim] at hc
  exact (List.dropWhile_sublist _).mem <| List.mem_of_mem_take hc

theorem trim_of_trailing (h : ∀ c ∈ s, c ∈ trailing) (hw : ¬Wraps s) : trim s = [] := by
  by_cases hr : '\r' ∈ s
  case neg => rw [trim_eq, (dropWhile_blank_eq_nil_iff h).mpr hr]; simp
  case pos =>
    have hl : ¬(0 < (s.takeWhile (· ∈ blank)).length ∧ (s.takeWhile (· ∈ blank)).length < 2 ^ 32) :=
      fun hl => hw ⟨h, hr, hl.left, hl.right⟩
    have h₀ : (2 ^ 32 - (s.takeWhile (· ∈ blank)).length) % 2 ^ 32 = 0 := by omega
    rw [trim_eq, if_pos h, h₀, List.take_zero]

theorem trimmed_trim_iff : Trimmed (trim s) ↔ ¬Wraps s := by
  refine ⟨fun ht h => h.not_trimmed ht, fun hw => ?_⟩
  by_cases h : ∀ c ∈ s, c ∈ trailing
  case pos => rw [trim_of_trailing h hw]; exact ⟨by simp, by simp⟩
  case neg =>
    rw [trim_eq, if_neg h]
    constructor
    case head =>
      intro c hc
      obtain ⟨r, hr⟩ := List.rdropWhile_prefix (p := (· ∈ trailing)) (l := s.dropWhile (· ∈ blank))
      have hh : (s.dropWhile (· ∈ blank)).head? = some c := by
        rw [←hr, List.head?_append, Option.mem_def.mp hc, Option.some_or]
      have hn := List.head?_dropWhile_not (· ∈ blank) s
      rw [hh] at hn
      simpa using hn
    case last =>
      intro c hc
      have hn := List.ne_nil_of_mem <| List.mem_of_getLast? hc
      rw [List.getLast?_eq_some_getLast hn] at hc
      cases hc
      simpa using List.rdropWhile_last_not _ _ hn

theorem parts_eq_some_iff :
    parts line = some (k, v) ↔
    line = k ++ '=' :: v ∧ '=' ∉ k ∧ ∀ c ∈ (k.dropWhile (· ∈ blank)).head?, c ∉ comment := by
  constructor
  case mpr =>
    rintro ⟨hl, hk, hc⟩
    exact hl ▸ parts_append hk hc
  case mp =>
    intro h
    rw [parts] at h
    split at h
    case h_1 => cases h
    case h_2 c cs hd =>
      split at h
      case isTrue  => cases h
      case isFalse hc =>
        obtain ⟨hm, he⟩ : c ∉ comment ∧ '=' ∈ line := by simpa using hc
        cases h
        refine ⟨eq_append_of_mem he, fun h => by simpa using List.mem_takeWhile_imp h, fun d hh => ?_⟩
        obtain ⟨ds, hds⟩ := List.head?_eq_some_iff.mp hh
        have hl := congrArg (List.dropWhile (· ∈ blank)) <| eq_append_of_mem he
        rw [List.dropWhile_append, hds, hd] at hl
        cases hl
        exact hm

theorem parts_concat_cr : parts (line ++ ['\r']) = (parts line).map (Prod.map id (· ++ ['\r'])) := by
  cases hp : parts line
  case some p =>
    obtain ⟨k, v⟩ := p
    have ⟨hl, hk, hc⟩ := parts_eq_some_iff.mp hp
    rw [hl, List.append_assoc, List.cons_append, parts_append hk hc]
    rfl
  case none =>
    rw [parts] at hp
    split at hp
    case h_1 hd =>
      have hb : '=' ∉ line := fun h => by
        have := List.dropWhile_eq_nil_iff.mp hd _ h
        simp [blank] at this
      rw [parts, List.dropWhile_append, hd]
      simp [blank, hb]
    case h_2 c cs hd =>
      split at hp
      case isFalse => cases hp
      case isTrue h =>
        simp [parts, List.dropWhile_append, hd, h]

-- A value part that is the same or that has an additional CR.
def CrRel (v v' : List Char) : Prop :=
  v' = v ∨ v' = v ++ ['\r']

theorem assignment_concat_cr :
    assignment (line ++ ['\r']) = (assignment line).map (Prod.map id (· ++ ['\r'])) := by
  rw [assignment, assignment, parts_concat_cr]
  cases parts line
  case none   => rfl
  case some p =>
    by_cases hk : trim p.1 = [] <;> simp [hk]

theorem assignments_toCRLF (content : List Char) :
    List.Forall₂ (fun p p' => p'.1 = p.1 ∧ CrRel p.2 p'.2) (assignments content)
      (assignments <| toCRLF content) := by
  have h := getlines_toCRLF content
  simp only [assignments]
  generalize getlines content = ls, getlines (toCRLF content) = ls' at h
  induction h
  case nil => exact .nil
  case cons l l' ls ls' hl _ hi =>
    cases ha : assignment l
    case none =>
      have ha' : assignment l' = none := by
        obtain rfl | rfl := hl
        · exact ha
        · rw [assignment_concat_cr, ha, Option.map_none]
      rwa [List.filterMap_cons_none ha, List.filterMap_cons_none ha']
    case some p =>
      obtain rfl | rfl := hl
      · rw [List.filterMap_cons_some ha, List.filterMap_cons_some ha]
        exact .cons ⟨rfl, .inl rfl⟩ hi
      · have ha' : assignment (l ++ ['\r']) = some (Prod.map id (· ++ ['\r']) p) := by
          rw [assignment_concat_cr, ha, Option.map_some]
        rw [List.filterMap_cons_some ha, List.filterMap_cons_some ha']
        exact .cons ⟨rfl, .inr rfl⟩ hi

theorem lookup_rel {l l' : List (List Char × List Char)}
    (h : List.Forall₂ (fun p p' => p'.1 = p.1 ∧ CrRel p.2 p'.2) l l') :
    Option.Rel CrRel (l.lookup key) (l'.lookup key) := by
  induction h
  case nil => exact .none
  case cons p p' l l' hp _ hi =>
    rw [List.lookup_cons, List.lookup_cons, hp.left]
    split
    · exact .some hp.right
    · exact hi

theorem valuePart_toCRLF (content key : List Char) :
    Option.Rel CrRel (valuePart content key) (valuePart (toCRLF content) key) :=
  lookup_rel <| List.rel_reverse <| assignments_toCRLF content

theorem assignment_eq_some_iff :
    assignment line = some (key, v) ↔ ∃ k, parts line = some (k, v) ∧ trim k = key ∧ key ≠ [] := by
  rw [assignment]
  cases parts line
  case none   => simp
  case some p =>
    by_cases hk : trim p.1 = []
    case pos => simp [hk]; grind
    case neg => simp [hk]; grind

theorem exists_of_valuePart (h : valuePart content key = some v) :
    ∃ line ∈ getlines content, ∃ k, parts line = some (k, v) ∧ trim k = key ∧ key ≠ [] := by
  have ⟨l₁, l₂, hl, _⟩ := List.lookup_eq_some_iff.mp h
  have hm : (key, v) ∈ (assignments content).reverse := hl ▸ List.mem_append_right _ (.head _)
  have ⟨line, hline, ha⟩ := List.mem_filterMap.mp <| List.mem_reverse.mp hm
  exact ⟨line, hline, assignment_eq_some_iff.mp ha⟩

theorem exists_valuePart (hl : line ∈ getlines content) (hp : parts line = some (k, v)) (hk : trim k ≠ []) :
    ∃ v, valuePart content (trim k) = some v := by
  have ha : assignment line = some (trim k, v) := assignment_eq_some_iff.mpr ⟨k, hp, rfl, hk⟩
  by_contra hn
  have h := List.lookup_eq_none_iff.mp <| Option.eq_none_iff_forall_ne_some.mpr <| not_exists.mp hn
  simpa using h _ <| List.mem_reverse.mpr <| List.mem_filterMap.mpr ⟨line, hl, ha⟩

theorem cr_not_mem_valuePart (h : valuePart content key = some v) (hr : '\r' ∉ content) : '\r' ∉ v := by
  have ⟨line, hl, k, hp, _⟩ := exists_of_valuePart h
  have ⟨he, _⟩ := parts_eq_some_iff.mp hp
  exact fun hv => hr <| mem_of_mem_getlines hl <| he ▸ List.mem_append_right _ (.tail _ hv)

theorem trim_concat_cr (h : '\r' ∉ v) : trim (v ++ ['\r']) = trim v ↔ ¬Wraps (v ++ ['\r']) := by
  by_cases ha : ∀ c ∈ v, c ∈ trailing
  case pos =>
    have hc : ∀ c ∈ v ++ ['\r'], c ∈ trailing := by
      intro c hc
      obtain hc | hc := List.mem_append.mp hc
      · exact ha c hc
      · simp [List.mem_singleton.mp hc, trailing]
    rw [trim_of_trailing ha fun hw => h hw.cr]
    exact ⟨fun ht hw => hw.trim_ne_nil ht, trim_of_trailing hc⟩
  case neg =>
    have hc : ¬∀ c ∈ v ++ ['\r'], c ∈ trailing := fun hc => ha fun c hv => hc c <| List.mem_append_left _ hv
    have hd : v.dropWhile (· ∈ blank) ≠ [] := by
      have hb : blank ⊆ trailing := by decide
      rw [Ne, List.dropWhile_eq_nil_iff]
      exact fun hd => ha fun c hv => hb <| by simpa using hd c hv
    have he : (v.dropWhile (· ∈ blank)).isEmpty = false := by simpa using hd
    refine ⟨fun _ hw => hc hw.all, fun _ => ?_⟩
    rw [trim_eq, if_neg hc, trim_eq, if_neg ha, List.dropWhile_append, he]
    exact List.rdropWhile_concat_pos _ _ _ <| by simp [trailing]

theorem agIniRead_toCRLF (h : '\r' ∉ content) :
    agIniRead (some <| toCRLF content) = agIniRead (some content) ↔
    ∀ key v, valuePart (toCRLF content) key = some v → ¬Wraps v := by
  have hv : ∀ key v, valuePart content key = some v → '\r' ∉ v := fun _ _ hv => cr_not_mem_valuePart hv h
  rw [funext_iff]
  refine forall_congr' fun key => ?_
  rw [agIniRead_apply, agIniRead_apply]
  specialize hv key
  have hr := valuePart_toCRLF content key
  generalize valuePart content key = p, valuePart (toCRLF content) key = p' at hv hr
  cases hr
  case none => simp
  case some v v' hr =>
    specialize hv v rfl
    simp only [Option.map_some, Option.some_inj, forall_eq']
    obtain rfl | rfl := hr
    · exact iff_of_true rfl fun hw => hv hw.cr
    · exact trim_concat_cr hv

theorem agIniRead_trimmed_iff :
    (∀ key value, agIniRead (some content) key = some value → Trimmed key ∧ Trimmed value) ↔
    (∀ line ∈ getlines content, ∀ k v, parts line = some (k, v) → ¬Wraps k) ∧
    ∀ key v, valuePart content key = some v → ¬Wraps v := by
  constructor
  case mp =>
    intro h
    constructor
    · intro line hl k v hp hw
      have ⟨v', hv⟩ := exists_valuePart hl hp hw.trim_ne_nil
      exact hw.not_trimmed (h _ (trim v') <| by rw [agIniRead_apply, hv, Option.map_some]).left
    · intro key v hv
      exact trimmed_trim_iff.mp (h key (trim v) <| by rw [agIniRead_apply, hv, Option.map_some]).right
  case mpr =>
    intro ⟨hk, hv⟩ key value hr
    rw [agIniRead_apply, Option.map_eq_some_iff] at hr
    obtain ⟨v, hvp, rfl⟩ := hr
    obtain ⟨line, hl, k, hp, rfl, _⟩ := exists_of_valuePart hvp
    exact ⟨trimmed_trim_iff.mpr <| hk line hl k v hp, trimmed_trim_iff.mpr <| hv _ v hvp⟩

theorem lineEndings_iff (content : List Char) :
    ('\r' ∉ content →
      (agIniRead (some <| toCRLF content) = agIniRead (some content) ↔
        ∀ key v, valuePart (toCRLF content) key = some v → ¬Wraps v)) ∧
    ((∀ key value, agIniRead (some content) key = some value → Trimmed key ∧ Trimmed value) ↔
      (∀ line ∈ getlines content, ∀ k v, parts line = some (k, v) → ¬Wraps k) ∧
      ∀ key v, valuePart content key = some v → ¬Wraps v) :=
  ⟨agIniRead_toCRLF, agIniRead_trimmed_iff⟩

-- The value of a key that is set to blanks becomes a CR.
theorem lineEndings_counterexample :
    ¬((∀ content, '\r' ∉ content → agIniRead (some <| toCRLF content) = agIniRead (some content)) ∧
      ∀ content key value, agIniRead (some content) key = some value → Trimmed key ∧ Trimmed value) := by
  intro h
  have he := congrFun (h.left ['k', ' ', '=', ' ', '\n'] <| by simp) ['k']
  exact absurd he <| by decide

end Ini
