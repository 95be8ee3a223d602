import MhoLauncher.Tersafe.Install

open Bytes HookTable Memory X86

namespace Tersafe

def InImage (sys : System) (cur : DWord) : Prop :=
  ¬(cur < sys.tsLo ∨ cur ≥ sys.tsHi)

-- The entries of a table up to that of a slot point into the image of the library.
def Hookable (sys : System) (obj : DWord) (m : Memory) (b : Fin NUM_SUBS) (k : Fin SUB_SLOTS) : Prop :=
  ∀ j ≤ k, InImage sys (m.dword <| slotEntry obj m <| .sub b j)

-- The value of an entry after the tables were patched.
structure SubEntry (sys : System) (obj : DWord) (m : Memory) (b : Fin NUM_SUBS) (k : Fin SUB_SLOTS)
    (v : DWord) : Prop where
  hooked : Hookable sys obj m b k →
    v = (sys.virtualAlloc <| .sub b k).getD (m.dword <| slotEntry obj m <| .sub b k)
  kept   : ¬Hookable sys obj m b k → v = m.dword (slotEntry obj m <| .sub b k)

namespace TablesPatched

variable {g : Globals} {sys : System} {obj : DWord} {m m' : Memory} {used : Set Slot} {i : Slot}
variable {b c : Fin NUM_SUBS} {k : Fin SUB_SLOTS} {l l₁ l₂ : List (Fin SUB_SLOTS)}

variable (hs : Separate g sys obj m)
variable (hd : ∀ i j, Reached sys obj m i → Reached sys obj m j → i ≠ j → slotEntry obj m i ≠ slotEntry obj m j)

include hs

theorem save_dword (hi : Reached sys obj m i) {v : DWord} :
    (m'.writeDWords (g.realSubAt b k) [v]).dword (slotEntry obj m i) = m'.dword (slotEntry obj m i) :=
  dword_congr <| writeDWords_eqOn <| hs.tablesReals.mono (entry_subset hi) <| real_subset g sys (.sub b k)

include hd

-- One iteration of the loop.
def visitSlot (g : Globals) (sys : System) (obj : DWord) (m : Memory) (b : Fin NUM_SUBS) (k : Fin SUB_SLOTS)
    (m' : Memory) : Memory :=
  hookEntry (sys.virtualAlloc <| .sub b k) (emitSlot g <| .sub b k) (slotEntry obj m <| .sub b k) <|
    m'.writeDWords (g.realSubAt b k) [m'.dword <| slotEntry obj m <| .sub b k]

abbrev visitSlots (g : Globals) (sys : System) (obj : DWord) (m : Memory) (b : Fin NUM_SUBS) :
    List (Fin SUB_SLOTS) → Memory → Memory :=
  hookSubSlots g sys b (subVt obj m b)

omit hs hd in
theorem visitSlots_stop (h : ¬InImage sys (m'.dword <| slotEntry obj m <| .sub b k)) :
    visitSlots g sys obj m b (k :: l) m' = m' :=
  if_pos <| not_not.mp h

omit hs hd in
theorem visitSlots_cons (h : InImage sys (m'.dword <| slotEntry obj m <| .sub b k)) :
    visitSlots g sys obj m b (k :: l) m' = visitSlots g sys obj m b l (visitSlot g sys obj m b k m') :=
  if_neg h

omit hd in
theorem visitSlot_dword (hb : Reached sys obj m <| .sub b k) :
    (visitSlot g sys obj m b k m').dword (slotEntry obj m <| .sub b k) =
      (sys.virtualAlloc <| .sub b k).getD (m'.dword <| slotEntry obj m <| .sub b k) := by
  rw [visitSlot]
  cases ha : sys.virtualAlloc (.sub b k)
  case none       => exact save_dword hs hb
  case some tramp => rw [←ha, hook_value hs hb ha, ha, Option.getD_some]

theorem visitSlot_dword_of_ne (hi : Reached sys obj m i) (hb : Reached sys obj m <| .sub b k)
    (hn : i ≠ .sub b k) :
    (visitSlot g sys obj m b k m').dword (slotEntry obj m i) = m'.dword (slotEntry obj m i) := by
  have he := (hs.entries i _ hi hb).resolve_left <| hd i _ hi hb hn
  exact (hook_dword hs hb (hs.tablesPages.mono_left <| entry_subset hi) he).trans <| save_dword hs hi

theorem visitSlots_dword_of_ne (hi : Reached sys obj m i) (hb : ∀ k, Reached sys obj m (.sub b k))
    (hn : ∀ k ∈ l, i ≠ .sub b k) :
    (visitSlots g sys obj m b l m').dword (slotEntry obj m i) = m'.dword (slotEntry obj m i) := by
  induction l generalizing m'
  case nil => rfl
  case cons k l hl =>
    by_cases hc : InImage sys (m'.dword <| slotEntry obj m <| .sub b k)
    case neg => rw [visitSlots_stop hc]
    case pos =>
      rw [visitSlots_cons hc, hl fun j hj => hn j <| List.mem_cons_of_mem _ hj]
      exact visitSlot_dword_of_ne hs hd hi (hb k) <| hn k <| List.mem_cons_self ..

theorem visitSlot_dword_prefix {i j : Fin SUB_SLOTS} (m' : Memory) (hb : ∀ k, Reached sys obj m (.sub b k))
    (hj : j ∉ l₁ ++ k :: l₂) (hi : i ∈ l₁ ++ [k]) :
    (visitSlot g sys obj m b j m').dword (slotEntry obj m <| .sub b i) =
      m'.dword (slotEntry obj m <| .sub b i) := by
  refine visitSlot_dword_of_ne hs hd (hb i) (hb j) fun he => hj ?_
  cases he
  have hl : (l₁ ++ [k]).Sublist (l₁ ++ k :: l₂) :=
    (List.append_sublist_append_left l₁).mpr <| List.singleton_sublist.mpr <| List.mem_cons_self ..
  exact hl.subset hi

-- The loop gets to a slot if it does not stop before.
theorem visitSlots_dword (hb : ∀ k, Reached sys obj m (.sub b k)) (hl : (l₁ ++ k :: l₂).Nodup)
    (hc : ∀ j ∈ l₁ ++ [k], InImage sys (m'.dword <| slotEntry obj m <| .sub b j)) :
    (visitSlots g sys obj m b (l₁ ++ k :: l₂) m').dword (slotEntry obj m <| .sub b k) =
      (sys.virtualAlloc <| .sub b k).getD (m'.dword <| slotEntry obj m <| .sub b k) := by
  induction l₁ generalizing m'
  case nil =>
    have hn := (List.nodup_cons.mp hl).left
    rw [List.nil_append, visitSlots_cons <| hc k <| List.mem_singleton_self k,
      visitSlots_dword_of_ne hs hd (hb k) hb fun j hj he => hn <| by cases he; exact hj,
      visitSlot_dword hs (hb k)]
  case cons j l₁ hi =>
    have ⟨hn, hl⟩ := List.nodup_cons.mp hl
    have he {i : Fin SUB_SLOTS} (hm : i ∈ l₁ ++ [k]) := visitSlot_dword_prefix hs hd m' hb hn hm
    rw [List.cons_append, visitSlots_cons <| hc j <| List.mem_cons_self ..,
      hi hl fun i hm => he hm ▸ hc i <| List.mem_cons_of_mem _ hm, he <| by simp]

theorem visitSlots_dword_stopped (hb : ∀ k, Reached sys obj m (.sub b k)) (hl : (l₁ ++ k :: l₂).Nodup)
    (hc : ¬∀ j ∈ l₁ ++ [k], InImage sys (m'.dword <| slotEntry obj m <| .sub b j)) :
    (visitSlots g sys obj m b (l₁ ++ k :: l₂) m').dword (slotEntry obj m <| .sub b k) =
      m'.dword (slotEntry obj m <| .sub b k) := by
  induction l₁ generalizing m'
  case nil =>
    rw [List.nil_append, List.forall_mem_singleton] at hc
    rw [List.nil_append, visitSlots_stop hc]
  case cons j l₁ hi =>
    have ⟨hn, hl⟩ := List.nodup_cons.mp hl
    by_cases hj : InImage sys (m'.dword <| slotEntry obj m <| .sub b j)
    case neg => rw [List.cons_append, visitSlots_stop hj]
    case pos =>
      have he {i : Fin SUB_SLOTS} (hm : i ∈ l₁ ++ [k]) := visitSlot_dword_prefix hs hd m' hb hn hm
      rw [List.cons_append, visitSlots_cons hj, hi hl fun h => hc ?_, he <| by simp]
      intro i hm
      cases hm
      case head      => exact hj
      case tail _ hm => exact he hm ▸ h i hm

omit hd in
-- The pointers that lead to a table are the same in memory `m'`.
theorem hookSub_eq (h : TablesPatched g sys obj m used m') (b : Fin NUM_SUBS) :
    (∀ k, Reached sys obj m (.sub b k)) ∧
      hookSub g sys obj m' b = visitSlots g sys obj m b (List.finRange SUB_SLOTS) m' ∨
    (∀ k, ¬Reached sys obj m (.sub b k)) ∧ hookSub g sys obj m' b = m' := by
  have ⟨ho, hv⟩ := object_dword hs h b
  rw [hookSub, ho]
  by_cases hf : sys.Follows (subObj obj m b)
  case neg => exact .inr ⟨fun _ hr => hf hr.left, if_pos <| not_not.mp hf⟩
  case pos =>
    rw [if_neg hf]
    dsimp only
    rw [hv hf]
    by_cases hf' : sys.Follows (subVt obj m b)
    case neg => exact .inr ⟨fun _ hr => hf' hr.right.left, if_pos <| not_not.mp hf'⟩
    case pos =>
      rw [if_neg hf']
      by_cases hp : sys.virtualProtect (subVt obj m b)
      case neg => exact .inr ⟨fun _ hr => hp hr.right.right, if_neg hp⟩
      case pos => exact .inl ⟨fun _ => ⟨hf, hf', hp⟩, if_pos hp⟩

theorem hookSub_dword_of_ne (h : TablesPatched g sys obj m used m') (hi : Reached sys obj m i)
    (hn : ∀ k, i ≠ .sub b k) :
    (hookSub g sys obj m' b).dword (slotEntry obj m i) = m'.dword (slotEntry obj m i) := by
  cases hookSub_eq hs h b
  case inl hb => rw [hb.right]; exact visitSlots_dword_of_ne hs hd hi hb.left fun k _ => hn k
  case inr hb => rw [hb.right]

omit hs hd in
theorem finRange_split {n : Nat} (k : Fin n) :
    ∃ l₁ l₂, List.finRange n = l₁ ++ k :: l₂ ∧ ∀ j, j ∈ l₁ ++ [k] ↔ j ≤ k := by
  obtain ⟨l₁, l₂, he⟩ := List.append_of_mem <| List.mem_finRange k
  refine ⟨l₁, l₂, he, fun j => ?_⟩
  have hp := List.pairwise_lt_finRange n
  rw [he, List.pairwise_append, List.pairwise_cons] at hp
  have ⟨_, ⟨hk, _⟩, hl⟩ := hp
  rw [List.mem_append, List.mem_singleton]
  constructor
  case mp => exact fun h => h.elim (fun h => le_of_lt <| hl j h k <| List.mem_cons_self ..) le_of_eq
  case mpr =>
    intro h
    have hj := List.mem_finRange j
    rw [he, List.mem_append, List.mem_cons] at hj
    exact hj.imp id fun hj => hj.resolve_right fun hj => absurd (hk j hj) (not_lt.mpr h)

theorem hookSub_entry (h : TablesPatched g sys obj m used m') (hr : Reached sys obj m <| .sub b k)
    (hv : ∀ j, m'.dword (slotEntry obj m <| .sub b j) = m.dword (slotEntry obj m <| .sub b j)) :
    SubEntry sys obj m b k ((hookSub g sys obj m' b).dword <| slotEntry obj m <| .sub b k) := by
  have ⟨hb, he⟩ := (hookSub_eq hs h b).resolve_right fun hb => hb.left k hr
  obtain ⟨l₁, l₂, hf, hl⟩ := finRange_split k
  have hn := List.nodup_finRange SUB_SLOTS
  have hc : Hookable sys obj m b k ↔
      ∀ j ∈ l₁ ++ [k], InImage sys (m'.dword <| slotEntry obj m <| .sub b j) := by
    simp only [Hookable, hl, hv]
  rw [he, hf]
  rw [hf] at hn
  exact ⟨fun h => hv k ▸ visitSlots_dword hs hd hb hn (hc.mp h),
    fun h => hv k ▸ visitSlots_dword_stopped hs hd hb hn (hc.not.mp h)⟩

theorem SubHooked.entry {l : List (Fin NUM_SUBS)} (h : SubHooked g sys obj m used m')
    (hu : ∀ c ∈ l, ∀ slot, .sub c slot ∉ used) (hl : l.Nodup) (hr : Reached sys obj m <| .sub b k)
    (hv : b ∈ l → ∀ j, m'.dword (slotEntry obj m <| .sub b j) = m.dword (slotEntry obj m <| .sub b j))
    (hw : b ∉ l → SubEntry sys obj m b k (m'.dword <| slotEntry obj m <| .sub b k)) :
    SubEntry sys obj m b k ((l.foldl (hookSub g sys obj) m').dword <| slotEntry obj m <| .sub b k) := by
  induction l generalizing m' used
  case nil => exact hw List.not_mem_nil
  case cons c l hi =>
    have ⟨hn, hl⟩ := List.nodup_cons.mp hl
    have hu' : ∀ a ∈ l, ∀ slot, .sub a slot ∉ used ∪ { i | ∃ slot, i = .sub c slot } := by
      intro a ha slot hm
      cases hm
      case inl hm => exact hu a (List.mem_cons_of_mem _ ha) slot hm
      case inr he =>
        obtain ⟨_, he⟩ := he
        cases he
        exact hn ha
    refine hi (h.sub hs <| hu c <| List.mem_cons_self ..) hu' hl ?_ ?_
    case refine_1 =>
      intro hb j
      have hc : ∀ k, Slot.sub b j ≠ .sub c k := fun _ he => hn <| by cases he; exact hb
      have hj : Reached sys obj m (.sub b j) := hr
      rw [hookSub_dword_of_ne hs hd h.patched hj hc]
      exact hv (List.mem_cons_of_mem _ hb) j
    case refine_2 =>
      intro hb
      by_cases hc : c = b
      case pos =>
        subst hc
        exact hookSub_entry hs hd h.patched hr <| hv <| List.mem_cons_self ..
      case neg =>
        rw [hookSub_dword_of_ne hs hd h.patched hr fun _ he => hc <| by cases he; rfl]
        exact hw fun hm => (List.mem_cons.mp hm).elim (fun he => hc he.symm) hb

end TablesPatched

-- If the tables share no entries, then exactly those entries of the tables of the sub objects are hooked that
-- no entry outside of the image precedes, and that there is memory for.
theorem patchTables_sub_entry (g : Globals) (sys : System) (obj : DWord) (m : Memory)
    (ho : sys.createObj = some obj) (hz : obj ≠ 0) (hp : sys.virtualProtect (m.dword obj))
    (hs : Separate g sys obj m)
    (hd : ∀ i j, Reached sys obj m i → Reached sys obj m j → i ≠ j → slotEntry obj m i ≠ slotEntry obj m j)
    (b : Fin NUM_SUBS) (k : Fin SUB_SLOTS) (hr : Reached sys obj m <| .sub b k) :
    SubEntry sys obj m b k ((patchTables g sys m).dword <| slotEntry obj m <| .sub b k) := by
  obtain ⟨m', hm, he⟩ := patchTables_eq hs ho hz hp
  rw [he]
  refine hm.entry hs hd (fun _ _ _ => not_mem_range_vt) (List.nodup_finRange _) hr (fun _ j => ?_) fun hb => ?_
  case refine_1 =>
    -- The entries of the first table are different ones.
    refine (hm.patched.entries (.sub b j) hr).resolve_right fun ⟨i, hi, hij, _⟩ => ?_
    obtain ⟨k, rfl⟩ := hi
    exact hd (.vt k) (.sub b j) trivial hr (fun h => by cases h) hij
  case refine_2 => exact absurd (List.mem_finRange b) hb

def lastSub : Fin NUM_SUBS :=
  ⟨1, by decide⟩

def lastSlot : Fin SUB_SLOTS :=
  ⟨15, by decide⟩

-- All entries point into the image.
theorem patchTables_sub_entry_last : (patchTables exampleGlobals exampleSystem exampleObject).dword
    (entry 0x40001080 15) = exampleTramp (.sub lastSub lastSlot) := by
  have he (j : Fin SUB_SLOTS) : InImage exampleSystem
      (exampleObject.dword <| slotEntry 0x800000 exampleObject <| .sub lastSub j) := by
    have : ∀ j : Fin SUB_SLOTS,
        exampleObject.dword (entry 0x40001000 (Slot.sub lastSub j).index) = 0x40404040 := by
      decide +kernel
    rw [exampleObject_entry, this j]
    rintro (h | h)
    · exact absurd h (by decide)
    · exact absurd h (by decide)
  have hr : Reached exampleSystem 0x800000 exampleObject (.sub lastSub lastSlot) := by
    have h₁ : subObj 0x800000 exampleObject lastSub = 0x801004 := by decide +kernel
    have h₂ : subVt 0x800000 exampleObject lastSub = 0x40001080 := by decide +kernel
    rw [Reached, h₁, h₂]
    exact ⟨by simp [System.Follows, exampleSystem], by simp [System.Follows, exampleSystem], rfl⟩
  have hd (i j : Slot) (hn : i ≠ j) :
      slotEntry 0x800000 exampleObject i ≠ slotEntry 0x800000 exampleObject j := by
    rw [exampleObject_entry, exampleObject_entry]
    intro h
    have := i.index_lt
    have := j.index_lt
    have h := congrArg BitVec.toNat <| add_left_cancel h
    rw [BitVec.toNat_ofNat, BitVec.toNat_ofNat] at h
    exact hn <| Slot.index_injective (by omega)
  have h := patchTables_sub_entry exampleGlobals exampleSystem 0x800000 exampleObject rfl (by decide) rfl
    exampleSystem_separate (fun i j _ _ => hd i j) lastSub lastSlot hr
  rw [exampleObject_entry] at h
  exact h.hooked fun j _ => he j

end Tersafe
