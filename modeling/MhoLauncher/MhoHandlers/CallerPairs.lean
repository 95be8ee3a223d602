import Mathlib
import MhoLauncher.Library.Bytes
import MhoLauncher.Library.SeenSet

open SeenSet

namespace MhoHandlers

-- The table `g_seen` and the number of entries that are in use.
structure Seen where
  count : Nat
  seen  : Vector QWord 256

def Seen.initial : Seen where
  count := 0
  seen  := .replicate 256 0

def pairKey (func ret : DWord) : QWord :=
  (func.setWidth 64 <<< 32) ||| ret.setWidth 64

-- Looks for the key among `n` entries from the `i`-th one on. Reading behind the end of the table fails.
def noteCallerPairNew.scan (seen : Vector QWord 256) (key : QWord) : Nat → Nat → Option Bool
  | _, 0     => some false
  | i, n + 1 => do
    if (← seen[i]?) = key then return true
    scan seen key (i + 1) n

def noteCallerPairNew : Machine (DWord × DWord) Bool Seen := fun (func, ret) s => do
  let key := pairKey func ret
  let n := s.count
  if ← noteCallerPairNew.scan s.seen key 0 n then return (false, s)
  if h : n ≥ 256 then
    return (false, s)
  else
    return (true, ⟨n + 1, s.seen.set n key <| Nat.lt_of_not_le h⟩)

-- The entries that are in use.
def Seen.entries (s : Seen) : List QWord :=
  s.seen.toList.take s.count

def decodePair (key : QWord) : DWord × DWord :=
  ((key >>> 32).setWidth 32, key.setWidth 32)

section Key

variable {func ret : DWord} {p q : DWord × DWord}

theorem decodePair_pairKey : decodePair (pairKey func ret) = (func, ret) := by
  refine Prod.ext ?_ ?_
  case refine_1 =>
    refine BitVec.eq_of_getLsbD_eq fun i hi => ?_
    have h₁ : 32 + i < 64 := by omega
    have h₂ : i < 64 := by omega
    simp [decodePair, pairKey, hi, h₁, h₂]
  case refine_2 =>
    refine BitVec.eq_of_getLsbD_eq fun i hi => ?_
    simp [decodePair, pairKey, hi]

theorem pairKey_injective (h : pairKey p.1 p.2 = pairKey q.1 q.2) : p = q := by
  have hd := congrArg decodePair h
  rwa [decodePair_pairKey, decodePair_pairKey] at hd

end Key

section Table

variable {s s' : Seen} {t : SeenSet (DWord × DWord) 256} {key : QWord} {i n : Nat}

-- The table holds the keys of the pairs.
structure Holds (s : Seen) (t : SeenSet (DWord × DWord) 256) : Prop where
  count   : s.count = t.keys.length
  entries : s.entries = t.keys.map fun p => pairKey p.1 p.2

theorem holds_initial : Holds .initial ∅ :=
  ⟨rfl, rfl⟩

theorem scan_eq (seen : Vector QWord 256) (h : i + n ≤ 256) :
    noteCallerPairNew.scan seen key i n = some (decide <| key ∈ (seen.toList.drop i).take n) := by
  induction n generalizing i
  case zero => simp [noteCallerPairNew.scan]
  case succ n hi =>
    have hl : i < 256 := by omega
    have hd : (seen.toList.drop i).take (n + 1) = seen[i] :: (seen.toList.drop (i + 1)).take n := by
      rw [List.drop_eq_getElem_cons (by simpa using hl), List.take_succ_cons]
      rfl
    rw [noteCallerPairNew.scan, hd, hi (by omega), Vector.getElem?_eq_getElem hl]
    by_cases hk : seen[i] = key
    case pos => simp [hk]
    case neg => simp [hk, Ne.symm hk]

theorem Holds.mem_iff (h : Holds s t) (p : DWord × DWord) :
    pairKey p.1 p.2 ∈ s.entries ↔ p ∈ t.keys := by
  rw [h.entries, List.mem_map]
  exact ⟨fun ⟨q, hq, he⟩ => pairKey_injective he ▸ hq, fun hp => ⟨p, hp, rfl⟩⟩

theorem entries_set (hn : s.count < 256) :
    Seen.entries ⟨s.count + 1, s.seen.set s.count key hn⟩ = s.entries ++ [key] := by
  have hl : s.count < s.seen.toList.length := by simpa using hn
  rw [Seen.entries, Vector.toList_set, List.take_add_one, List.getElem?_set_self hl,
    List.take_set_of_le le_rfl]
  rfl

theorem scan_entries (h : s.count ≤ 256) :
    noteCallerPairNew.scan s.seen key 0 s.count = some (decide <| key ∈ s.entries) := by
  rw [scan_eq _ (Nat.zero_add _ ▸ h), List.drop_zero]
  rfl

section Call

variable {pair : DWord × DWord}

theorem noteCallerPairNew_mem (hn : s.count ≤ 256) (h : pairKey pair.1 pair.2 ∈ s.entries) :
    noteCallerPairNew pair s = some (false, s) := by
  simp [noteCallerPairNew, scan_entries hn, h]

theorem noteCallerPairNew_full (hn : s.count ≤ 256) (hf : s.count ≥ 256)
    (h : pairKey pair.1 pair.2 ∉ s.entries) : noteCallerPairNew pair s = some (false, s) := by
  simp [noteCallerPairNew, scan_entries hn, h, hf]

theorem noteCallerPairNew_add (hn : s.count < 256) (h : pairKey pair.1 pair.2 ∉ s.entries) :
    noteCallerPairNew pair s =
      some (true, ⟨s.count + 1, s.seen.set s.count (pairKey pair.1 pair.2) hn⟩) := by
  simp [noteCallerPairNew, scan_entries hn.le, h, Nat.not_le.mpr hn]

end Call

theorem Holds.step (h : Holds s t) (p : DWord × DWord) :
    ∃ s', noteCallerPairNew p s = some ((note p t).1, s') ∧ Holds s' (note p t).2 := by
  have hc := h.count
  have hn : s.count ≤ 256 := hc.trans_le t.length_le
  by_cases hm : p ∈ t.keys
  case pos =>
    have hs := noteCallerPairNew_mem hn <| (h.mem_iff p).mpr hm
    exact ⟨s, by simp [hs, hm, note], by simpa [hm, note] using h⟩
  case neg =>
    have hk : pairKey p.1 p.2 ∉ s.entries := mt (h.mem_iff p).mp hm
    by_cases hl : s.count ≥ 256
    case pos =>
      have hs := noteCallerPairNew_full hn hl hk
      have hn : ¬t.keys.length < 256 := by omega
      exact ⟨s, by simp [hs, hm, hn, note], by simpa [hm, hn, note] using h⟩
    case neg =>
      have hs := noteCallerPairNew_add (Nat.not_le.mp hl) hk
      have hn : t.keys.length < 256 := by omega
      have ho : (note p t).1 = true := by simp [hm, hn, note]
      refine ⟨_, ho ▸ hs, ?_⟩
      simp only [note, hm, hn, not_false_eq_true, and_self, dite_true]
      exact ⟨by simp [add, hc], by rw [entries_set, h.entries, add, List.map_append, List.map_singleton]⟩

theorem noteCallerPairNew_refines : Machine.Refines noteCallerPairNew note (fun _ _ => True) Holds :=
  fun h _ => h.step _

-- A call returns `true` if its pair is new and fewer than 256 pairs came before. The table never grows past
-- its capacity, and it holds exactly the pairs of the calls that have returned `true`.
theorem noteCallerPairNew_run (calls : List (DWord × DWord)) :
    ∃ outs s, noteCallerPairNew.run calls .initial = some (outs, s) ∧ outs.length = calls.length ∧
      (∀ i pair, calls[i]? = some pair →
        (outs[i]? = some true ↔ pair ∉ calls.take i ∧ (calls.take i).toFinset.card < 256)) ∧
      s.count ≤ 256 ∧ s.entries.length = s.count ∧ s.entries.Nodup ∧
      s.entries.map decodePair = reported calls outs := by
  have ha := Machine.Along.of_forall (m := noteCallerPairNew) (s := .initial) (P := fun _ => True)
    fun op (_ : op ∈ calls) => trivial
  obtain ⟨s, hs, hh⟩ := noteCallerPairNew_refines.run holds_initial ha
  obtain ⟨hb, hk⟩ := records_empty.run calls
  rw [hb] at hs
  refine ⟨_, s, hs, answers_length, fun i pair hp => ?_, ?_, ?_, ?_, ?_⟩
  case refine_1 => rw [answers_getElem? hp, Option.some_inj, decide_eq_true_iff]; rfl
  case refine_2 => exact hh.count.trans_le <| length_le _
  case refine_3 => rw [hh.entries, List.length_map, hh.count]
  case refine_4 => exact hh.entries ▸ (nodup _).map fun p q => pairKey_injective
  case refine_5 =>
    have hd : (decodePair ∘ fun p => pairKey p.1 p.2) = id := funext fun _ => decodePair_pairKey
    rw [hh.entries, List.map_map, hd, List.map_id, hk]
    rfl

end Table

end MhoHandlers
