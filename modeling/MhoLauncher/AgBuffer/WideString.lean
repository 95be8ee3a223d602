import MhoLauncher.AgBuffer.Reads
import MhoLauncher.AgBuffer.Runs

open Bytes

namespace AgBuffer

variable {σ : Platform} {b b' : AgBuffer} {w : List Byte} {s : List Word} {c : Word}
    {e : Endianness} {n : Nat}

-- The same bytes are appended as by writing the code units one by one, and as many words that are read back
-- after that are the code units.
def Honours (σ : Platform) (b : AgBuffer) (s : List Word) : Prop :=
  ∃ b₁ b₂ b₃, writeWstring σ s b = some ((), b₁) ∧ forM s (writeU16 σ) b = some ((), b₁) ∧
    seek b.position b₁ = some ((), b₂) ∧
    (exec σ).run (List.replicate s.length .readU16) b₂ = some (s.map .u16, b₃)

section Bytes

-- The bytes of the code units in the byte order of the buffer.
theorem forM_writeU16_eq (he : b.endianness = e) :
    forM s (writeU16 σ) b = forM ((s.map (swapEndianness16 σ · e)).flatMap <| toLE 2) (writeU8 σ) b := by
  induction s generalizing b
  case nil => rfl
  case cons c s hi =>
    rw [List.forM_cons, List.map_cons, List.flatMap_cons, List.forM_append, M.bind_apply,
      M.bind_apply, writeU16_eq, he]
    cases h : forM (toLE 2 <| swapEndianness16 σ c e) (writeU8 σ) b
    case none => rfl
    case some r => exact hi <| Preserves.forM (fun v _ => writeBlock_endianness [v]) _ _ _ he h

-- The byte order makes no difference to a word whose bytes are the same.
theorem swapEndianness16_eq_self_iff :
    swapEndianness16 σ c e = c ↔ e = σ.endianness ∨ (c.setWidth 8 : Byte) = (c >>> 8).setWidth 8 := by
  by_cases h : e = σ.endianness
  case pos => simp [swapEndianness16, h]
  case neg =>
    have ht := toLE_swapEndianness16 (σ := σ) (s := ⟨∅, e⟩) c
    rw [Stream.order, if_neg h, toLE_two c] at ht
    rw [←(toLE_injective (n := 2) (by simp)).eq_iff, ht, toLE_two, or_iff_right h]
    simp [eq_comm]

theorem map_swapEndianness16_eq_iff :
    s.map (swapEndianness16 σ · e) = s ↔
      e = σ.endianness ∨ ∀ c ∈ s, (c.setWidth 8 : Byte) = (c >>> 8).setWidth 8 := by
  induction s
  case nil => simp
  case cons c s hi =>
    rw [List.map_cons, List.cons.injEq, swapEndianness16_eq_self_iff, hi, List.forall_mem_cons]
    exact or_and_left.symm

end Bytes

-- The words that follow the cursor.
theorem run_readU16 (he : b.endianness = e)
    (a : b.Ahead ((s.map (swapEndianness16 σ · e)).flatMap (toLE 2) ++ w)) :
    ∃ b', (exec σ).run (List.replicate s.length .readU16) b = some (s.map .u16, b') := by
  induction s generalizing b
  case nil => exact ⟨b, rfl⟩
  case cons c s hi =>
    rw [List.map_cons, List.flatMap_cons, List.append_assoc] at a
    have h : exec σ .readU16 b = some (.u16 c, _) := (Reads.readU16 c).map he a
    have ⟨b', hr⟩ := hi (b := b.skip _) he a.skip
    exact ⟨b', Machine.run_cons_some h hr⟩

-- The byte order is applied twice, which makes a difference unless it is the one of the host.
theorem honours_iff (σ : Platform) (hb : Reachable σ b) (s : List Word) :
    b.Honours σ s ↔ b.RoomEach σ (2 * s.length) ∧
      (b.endianness = σ.endianness ∨ ∀ c ∈ s, (c.setWidth 8 : Byte) = (c >>> 8).setWidth 8) := by
  rw [←map_swapEndianness16_eq_iff]
  constructor
  case mp =>
    intro ⟨b₁, _, _, h₁, h₂, _⟩
    rw [writeWstring_eq] at h₁
    rw [forM_writeU16_eq rfl] at h₂
    have s₁ := hb.block.stored_of_forM h₁
    have s₂ := hb.block.stored_of_forM h₂
    have he := s₁.unique s₂ <| by rw [flatMap_toLE_length, flatMap_toLE_length, List.length_map]
    refine ⟨?_, (flatMap_toLE_injective (by simp) (by simp) he).symm⟩
    by_contra hr
    rw [hb.block.forM_writeU8_fails <| by rwa [flatMap_toLE_length]] at h₁
    contradiction
  case mpr =>
    intro ⟨hr, he⟩
    have hr : b.RoomEach σ (s.flatMap <| toLE 2).length := by rwa [flatMap_toLE_length]
    have ⟨b₁, h, s₁⟩ := hb.block.forM_writeU8 hr
    have h₁ := (writeWstring_eq s).trans h
    have h₂ : forM s (writeU16 σ) b = some ((), b₁) := (forM_writeU16_eq rfl).trans <| by rw [he, h]
    by_cases hs : s = []
    case pos =>
      subst hs
      exact ⟨b₁, _, _, h₁, h₂, rfl, rfl⟩
    case neg =>
      have hw : s.flatMap (toLE 2) ≠ [] := by
        have := List.length_pos_iff.mpr hs
        exact List.ne_nil_of_length_pos <| by rw [flatMap_toLE_length]; omega
      have ⟨hv, hd⟩ := s₁.range_le <| .inl hw
      have hb₁ := s₁.block.length_le.trans_lt s₁.block.real_lt
      have a : Ahead { b₁ with position := b.position }
        ((s.map (swapEndianness16 σ · b.endianness)).flatMap (toLE 2) ++ []) := by
        rw [List.append_nil, he]
        exact ⟨s₁.written, hd, hv, hd.trans_lt hb₁⟩
      have he₁ : b₁.endianness = b.endianness :=
        Preserves.forM (fun v _ => writeBlock_endianness [v]) _ _ _ rfl h
      have ⟨b₃, h₃⟩ := run_readU16 (b := { b₁ with position := b.position }) he₁ a
      refine ⟨b₁, _, b₃, h₁, h₂, ?_, h₃⟩
      rw [seek, M.modify_apply, if_neg (by omega)]

-- The letter A and a surrogate pair.
theorem honours_iff_surrogates :
    ∃ b₀ b, create (.windows <| .filled 0xCD) (some [1, 2, 3, 4, 5, 6]) = some b₀ ∧ seek 0 b₀ = some ((), b) ∧
      b.Honours (.windows <| .filled 0xCD) [0x0041, 0xD83D, 0xDE00] := by
  have hb : Reachable (.windows <| .filled 0xCD) ⟨0, 6, 6, [1, 2, 3, 4, 5, 6], .small, 1⟩ :=
    ⟨some [1, 2, 3, 4, 5, 6], _, [.op <| .seek 0], _, by simp, rfl, rfl⟩
  have h := honours_iff (.windows <| .filled 0xCD) hb [0x0041, 0xD83D, 0xDE00]
  exact ⟨_, _, rfl, rfl,
    h.mpr ⟨.inr ⟨.inl <| by decide, by unfold FitsEach; decide, fun _ _ => rfl⟩, .inl rfl⟩⟩

-- In a big endian buffer on Windows the letter A is stored as 41 00 instead of 00 41.
theorem writeWstring_big :
    ∃ b, Reachable (.windows <| .filled 0xCD) b ∧ b.data = [1, 2] ∧ b.position = 0 ∧ b.endianness = .big ∧
      (writeWstring (.windows <| .filled 0xCD) [0x0041] b).map (·.2.data) = some [0x41, 0x00] ∧
      (forM [0x0041] (writeU16 <| .windows <| .filled 0xCD) b).map (·.2.data) = some [0x00, 0x41] ∧
      ¬b.Honours (.windows <| .filled 0xCD) [0x0041] := by
  have hb : Reachable (.windows <| .filled 0xCD) ⟨0, 2, 2, [1, 2], .big, 1⟩ :=
    ⟨some [1, 2], _, [.op <| .seek 0, .op <| .setEndianness .big], _, by simp, rfl, rfl⟩
  have h₁ : (writeWstring (.windows <| .filled 0xCD) [0x0041] ⟨0, 2, 2, [1, 2], .big, 1⟩).map (·.2.data) =
      some [0x41, 0x00] := by decide
  have h₂ : (forM [0x0041] (writeU16 <| .windows <| .filled 0xCD) ⟨0, 2, 2, [1, 2], .big, 1⟩).map (·.2.data) =
      some [0x00, 0x41] := by decide
  refine ⟨_, hb, rfl, rfl, rfl, h₁, h₂, fun ⟨_, _, _, e₁, e₂, _⟩ => ?_⟩
  rw [e₁] at h₁
  rw [e₂, h₁] at h₂
  contradiction

end AgBuffer
