import Mathlib
import MhoLauncher.Library.Bytes

open Bytes

namespace CryGame

-- The name that is printed for a module, where it is loaded, and the size that is assumed of it.
structure ModuleEntry where
  display : String
  base    : DWord
  span    : DWord

-- The text of `%X`.
def hexText (n : DWord) : List Char :=
  (Nat.toDigits 16 n.toNat).map Char.toUpper

-- The text of `%s+0x%X`.
def label (display : String) (offset : DWord) : List Char :=
  display.toList ++ ['+', '0', 'x'] ++ hexText offset

def snprintf (bufSz : Nat) (text : List Char) : List Char :=
  text.take (bufSz - 1)

-- The sum wraps around.
def ModuleEntry.Matches (m : ModuleEntry) (addr : DWord) : Prop :=
  m.base ≠ 0 ∧ addr ≥ m.base ∧ addr < m.base + m.span

instance (m : ModuleEntry) (addr : DWord) : Decidable (m.Matches addr) :=
  inferInstanceAs <| Decidable (_ ∧ _)

-- The common part of `format_module_offset` and `format_addr`.
def formatIn (modules : List ModuleEntry) (addr : DWord) (bufSz : Nat) : List Char :=
  match modules.find? (·.Matches addr) with
  | some m => snprintf bufSz <| label m.display (addr - m.base)
  | none   => snprintf bufSz <| label "?" addr

-- The bases are 0 for modules that are not loaded.
structure Bases where
  crygameBase     : DWord
  mhoclientBaseBt : DWord
  tenproxyBaseBt  : DWord
  protocalBaseBt  : DWord
  msvcr120BaseBt  : DWord
  ntdllBaseBt     : DWord
  kernel32BaseBt  : DWord

def SPAN_BIG : DWord := 0x02000000

def SPAN_SMALL : DWord := 0x00400000

def Bases.modules (b : Bases) : List ModuleEntry := [
    ⟨"cry",   b.crygameBase,     SPAN_BIG⟩,
    ⟨"mho",   b.mhoclientBaseBt, SPAN_BIG⟩,
    ⟨"tp",    b.tenproxyBaseBt,  SPAN_SMALL⟩,
    ⟨"ph",    b.protocalBaseBt,  SPAN_SMALL⟩,
    ⟨"msvcr", b.msvcr120BaseBt,  SPAN_SMALL⟩,
    ⟨"ntdll", b.ntdllBaseBt,     SPAN_SMALL⟩,
    ⟨"k32",   b.kernel32BaseBt,  SPAN_SMALL⟩
  ]

def formatModuleOffset (b : Bases) : DWord → Nat → List Char :=
  formatIn b.modules

-- A module keeps its base once it has one.
def refreshBacktraceModules (getModuleHandle : String → DWord) (b : Bases) : Bases :=
  let refreshed (base : DWord) (name : String) := if base = 0 then getModuleHandle name else base
  { b with
    mhoclientBaseBt := refreshed b.mhoclientBaseBt "MHOClient.exe"
    tenproxyBaseBt  := refreshed b.tenproxyBaseBt "tenproxy.dll"
    protocalBaseBt  := refreshed b.protocalBaseBt "protocalhandler.dll"
    msvcr120BaseBt  := refreshed b.msvcr120BaseBt "MSVCR120.dll"
    ntdllBaseBt     := refreshed b.ntdllBaseBt "ntdll.dll"
    kernel32BaseBt  := refreshed b.kernel32BaseBt "kernel32.dll" }

section Spec

-- The interval of a module that is loaded contains the address.
def ModuleEntry.Contains (m : ModuleEntry) (addr : DWord) : Prop :=
  m.base ≠ 0 ∧ m.base.toNat ≤ addr.toNat ∧ addr.toNat < m.base.toNat + m.span.toNat

instance (m : ModuleEntry) (addr : DWord) : Decidable (m.Contains addr) :=
  inferInstanceAs <| Decidable (_ ∧ _)

-- The text names a module that contains the address and none of those that do has a greater base.
structure Closest (modules : List ModuleEntry) (addr : DWord) (text : List Char)
    (m : ModuleEntry) : Prop where
  mem      : m ∈ modules
  contains : m.Contains addr
  greatest : ∀ n ∈ modules, n.Contains addr → n.base ≤ m.base
  text     : text = label m.display (addr - m.base)

structure Attributed (modules : List ModuleEntry) (addr : DWord) (text : List Char) : Prop where
  known   : (∃ m ∈ modules, m.Contains addr) → ∃ m, Closest modules addr text m
  unknown : (∀ m ∈ modules, ¬m.Contains addr) → text = label "?" addr

-- The modules that contain the address and that end in the address space.
def inside (modules : List ModuleEntry) (addr : DWord) : List ModuleEntry :=
  modules.filter fun m => m.Contains addr ∧ m.base.toNat + m.span.toNat < 2 ^ 32

-- No module that contains the address has a greater base than the first one in the table that ends in the
-- address space.
def FirstIsClosest (modules : List ModuleEntry) (addr : DWord) : Prop :=
  ∀ m ∈ modules, m.Contains addr → ∃ f ∈ (inside modules addr).head?, m.base ≤ f.base

instance (modules : List ModuleEntry) (addr : DWord) : Decidable (FirstIsClosest modules addr) :=
  inferInstanceAs <| Decidable
    (∀ m ∈ modules, m.Contains addr → ∃ f ∈ (inside modules addr).head?, m.base ≤ f.base)

-- The names of a table tell its modules apart, and the text shows where a name ends.
structure Named (modules : List ModuleEntry) : Prop where
  nodup     : (modules.map (·.display)).Nodup
  no_plus   : ∀ m ∈ modules, '+' ∉ m.display.toList
  ne        : ∀ m ∈ modules, m.display ≠ "?"
  length_le : ∀ m ∈ modules, m.display.toList.length ≤ 20

end Spec

section Attribution

variable {modules : List ModuleEntry} {m : ModuleEntry} {addr offset : DWord} {s t : String} {bufSz : Nat}

theorem matches_iff : m.Matches addr ↔ m.Contains addr ∧ m.base.toNat + m.span.toNat < 2 ^ 32 := by
  have := m.base.isLt
  have := m.span.isLt
  rw [ModuleEntry.Matches, ModuleEntry.Contains, ge_iff_le, BitVec.le_def, BitVec.lt_def, BitVec.toNat_add]
  constructor
  case mp =>
    intro ⟨hz, hb, hl⟩
    refine ⟨⟨hz, hb, ?_⟩, ?_⟩ <;> omega
  case mpr =>
    intro ⟨⟨hz, hb, hl⟩, hs⟩
    exact ⟨hz, hb, by omega⟩

-- The scan stops at the first module that contains the address and that ends in the address space.
theorem find?_matches : modules.find? (·.Matches addr) = (inside modules addr).head? := by
  rw [inside, List.head?_filter]
  simp only [matches_iff]

theorem length_hexText : (hexText offset).length ≤ 8 := by
  rw [hexText, List.length_map, Nat.length_toDigits_le_iff (by decide) (by decide)]
  exact offset.isLt

theorem snprintf_label (hs : s.toList.length ≤ 20) (hb : 32 ≤ bufSz) :
    snprintf bufSz (label s offset) = label s offset := by
  refine List.take_of_length_le ?_
  have hn : (hexText offset).length ≤ 8 := length_hexText
  simp only [label, List.length_append, List.length_cons, List.length_nil]
  omega

theorem label_injective {offset' : DWord} (hs : '+' ∉ s.toList) (ht : '+' ∉ t.toList)
    (h : label s offset = label t offset') : s = t := by
  have hl {s : String} {offset : DWord} (hs : '+' ∉ s.toList) :
      (label s offset).takeWhile (· ≠ '+') = s.toList := by
    have hn : ∀ c ∈ s.toList, c ≠ '+' := fun c hc he => hs <| he ▸ hc
    rw [label, List.append_assoc, List.takeWhile_append_of_pos (by simpa using hn)]
    simp
  rw [←String.toList_inj, ←hl hs, h, hl ht]

theorem mem_of_head? (h : (inside modules addr).head? = some m) : m ∈ modules ∧ m.Contains addr := by
  obtain ⟨hm, hc⟩ := List.mem_filter.mp <| List.mem_of_mem_head? h
  exact ⟨hm, (decide_eq_true_iff.mp hc).left⟩

-- A buffer of 32 bytes is large enough for every text.
theorem formatIn_some (hn : Named modules) (hb : 32 ≤ bufSz) (h : (inside modules addr).head? = some m) :
    formatIn modules addr bufSz = label m.display (addr - m.base) := by
  rw [formatIn, find?_matches, h]
  exact snprintf_label (hn.length_le m (mem_of_head? h).left) hb

theorem formatIn_none (hb : 32 ≤ bufSz) (h : (inside modules addr).head? = none) :
    formatIn modules addr bufSz = label "?" addr := by
  rw [formatIn, find?_matches, h]
  exact snprintf_label (by decide) hb

theorem Named.eq_of_display {n : ModuleEntry} (hn : Named modules) (hm : m ∈ modules) (hm' : n ∈ modules)
    (h : m.display = n.display) : m = n :=
  List.inj_on_of_nodup_map hn.nodup hm hm' h

theorem formatIn_attributed_iff (hn : Named modules) (hb : 32 ≤ bufSz) :
    Attributed modules addr (formatIn modules addr bufSz) ↔ FirstIsClosest modules addr := by
  constructor
  case mp =>
    intro ha m hm hc
    have ⟨g, hg⟩ := ha.known ⟨m, hm, hc⟩
    have ht := hg.text
    cases hf : (inside modules addr).head?
    case none =>
      rw [formatIn_none hb hf] at ht
      exact absurd (label_injective (by decide) (hn.no_plus g hg.mem) ht).symm <| hn.ne g hg.mem
    case some f =>
      have hm' := (mem_of_head? hf).left
      rw [formatIn_some hn hb hf] at ht
      have he := label_injective (hn.no_plus f hm') (hn.no_plus g hg.mem) ht
      cases hn.eq_of_display hm' hg.mem he
      exact ⟨g, rfl, hg.greatest m hm hc⟩
  case mpr =>
    intro hf
    constructor
    case known =>
      rintro ⟨m, hm, hc⟩
      obtain ⟨f, h, _⟩ := hf m hm hc
      refine ⟨f, (mem_of_head? h).left, (mem_of_head? h).right, fun m' hm' hc' => ?_, formatIn_some hn hb h⟩
      obtain ⟨f', h', hl⟩ := hf m' hm' hc'
      cases h.symm.trans h'
      exact hl
    case unknown =>
      intro hu
      refine formatIn_none hb <| List.head?_eq_none_iff.mpr <| List.filter_eq_nil_iff.mpr fun m hm => ?_
      simp [hu m hm]

end Attribution

def names : List String :=
  ["cry", "mho", "tp", "ph", "msvcr", "ntdll", "k32"]

theorem Bases.named (b : Bases) : Named b.modules := by
  have hd : b.modules.map (·.display) = names := rfl
  have hm {P : String → Prop} (h : ∀ s ∈ names, P s) (m) (hm : m ∈ b.modules) : P m.display :=
    h _ <| hd ▸ List.mem_map_of_mem hm
  constructor
  case nodup     => exact hd ▸ by decide
  case no_plus   => exact hm (P := ('+' ∉ ·.toList)) <| by decide +kernel
  case ne        => exact hm (P := (· ≠ "?")) <| by decide
  case length_le => exact hm (P := (·.toList.length ≤ 20)) <| by decide +kernel

-- The comment of the source asks for a buffer of at least 32 bytes.
theorem formatModuleOffset_attributed_iff (b : Bases) (addr : DWord) (bufSz : Nat) (h : 32 ≤ bufSz) :
    Attributed b.modules addr (formatModuleOffset b addr bufSz) ↔ FirstIsClosest b.modules addr :=
  formatIn_attributed_iff b.named h

theorem formatModuleOffset_attributed_iff_48 :
    Attributed (Bases.modules ⟨0x10000000, 0x00400000, 0, 0, 0, 0x77000000, 0⟩) 0x10001234
      (formatModuleOffset ⟨0x10000000, 0x00400000, 0, 0, 0, 0x77000000, 0⟩ 0x10001234 48) :=
  (formatModuleOffset_attributed_iff _ _ 48 <| by decide).mpr <| by decide

-- The span that is assumed of the first module in the table reaches over the second one.
theorem formatModuleOffset_not_closest :
    ¬Attributed (Bases.modules ⟨0x10000000, 0x11000000, 0, 0, 0, 0, 0⟩) 0x11000010
      (formatModuleOffset ⟨0x10000000, 0x11000000, 0, 0, 0, 0, 0⟩ 0x11000010 48) :=
  (formatIn_attributed_iff (Bases.named _) <| by decide).not.mpr <| by decide

end CryGame
