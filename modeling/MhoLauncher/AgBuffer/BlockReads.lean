import MhoLauncher.AgBuffer.Runs

open Bytes

namespace AgBuffer

variable {σ : Platform} {b b' : AgBuffer} {w : List Byte} {n : Nat}

-- The requests for a range of bytes.
inductive Request
  | readData (dst : Dst) (length : DWord)
  | getData (offset count : DWord) (dst : Dst) (dstLength : DWord)
  | getAllData (dst : Dst) (dstLength : DWord)
  | slice (length : DWord)

inductive Request.Out
  | dst (d : Dst)
  | buffer (b : AgBuffer)

namespace Request

def exec (σ : Platform) : Machine Request Out AgBuffer
  | .readData dst length       => .dst <$> AgBuffer.readData dst length.toNat
  | .getData off count dst len => .dst <$> AgBuffer.getData off.toNat count.toNat dst len.toNat
  | .getAllData dst len        => .dst <$> AgBuffer.getAllData dst len.toNat
  | .slice length              => .buffer <$> AgBuffer.slice σ length.toNat

-- The range that is requested.
def start (b : AgBuffer) : Request → Nat
  | readData .. | slice _ => b.position
  | getData off ..        => off.toNat
  | getAllData ..         => 0

def count (b : AgBuffer) : Request → Nat
  | readData _ length    => length.toNat
  | getData _ count _ _  => count.toNat
  | getAllData ..        => b.virtualLength
  | slice length         => length.toNat

-- The checks that a request has to pass for bytes to be copied.
def Passes (b : AgBuffer) : Request → Prop
  | readData dst length       =>
    dst.isSome ∧ length.toNat ≤ b.virtualLength ∧ sizeT (b.position + length.toNat) ≤ b.virtualLength
  | getData off count dst len =>
    dst.isSome ∧ count.toNat ≤ b.virtualLength ∧ sizeT (off.toNat + count.toNat) ≤ b.virtualLength ∧
      count.toNat ≤ len.toNat
  | getAllData dst len        => 0 < len.toNat ∧ b.virtualLength ≤ len.toNat ∧ dst.isSome
  | slice length              => 0 < length.toNat

-- The outcome for the bytes that have been copied.
def result (σ : Platform) (src : List Byte) : Request → Option Out
  | readData dst _ | getData _ _ dst _ | getAllData dst _ => some <| .dst <| Stream.copy src dst
  | slice _                                               => .buffer <$> ofData σ src

def moved (b : AgBuffer) : Request → AgBuffer
  | readData _ length => { b with position := sizeT (b.position + length.toNat) }
  | _                 => b

-- Only bytes below `virtualLength` are read, and a request that exceeds them copies nothing and leaves the
-- buffer as it is.
structure Safe (σ : Platform) (b : AgBuffer) (r : Request) : Prop where
  inside   : r.Passes b → ∀ i, r.start b ≤ i → i < r.start b + r.count b → i < b.virtualLength
  rejected : b.virtualLength < r.start b + r.count b → r.exec σ b = (r.result σ []).map (·, b)

-- The sum that is checked does not wrap around, unless a check that does not depend on it fails. A slice has
-- no checks, so its range has to be inside of the buffer.
def Guarded (b : AgBuffer) : Request → Prop
  | readData dst length       =>
    dst = none ∨ b.virtualLength < length.toNat ∨ b.position + length.toNat < 2 ^ 32
  | getData off count dst len =>
    dst = none ∨ b.virtualLength < count.toNat ∨ len < count ∨ off.toNat + count.toNat < 2 ^ 32
  | getAllData ..             => True
  | slice length              => length = 0 ∨ b.position + length.toNat ≤ b.virtualLength

theorem load_length {i : Nat} {src : List Byte} (h : b.load i n = some src) : src.length = n := by
  have ⟨hl, h⟩ := Option.ite_none_right_eq_some.mp h
  cases h
  simp
  omega

@[simp]
theorem copy_nil (dst : Dst) : Stream.copy (some []) dst = dst := by
  cases dst <;> rfl

variable {r : Request}

-- These are all bytes that a request reads.
theorem exec_of_passes (h : r.Passes b) :
    r.exec σ b = (b.load (r.start b) (r.count b)).bind fun src => (r.result σ src).map (·, r.moved b) := by
  cases r <;> simp only [Passes, exec, start, count, result, moved, M.map_apply] at *
  case readData dst n =>
    obtain ⟨hd, hn, hs⟩ := h
    obtain ⟨old, hd⟩ := Option.isSome_iff_exists.mp hd
    cases hl : b.load b.position n.toNat
    case none     => simp [AgBuffer.readData, hd, hl, Nat.not_lt.mpr hn, Nat.not_lt.mpr hs]
    case some src =>
      simp [AgBuffer.readData, hd, hl, Nat.not_lt.mpr hn, Nat.not_lt.mpr hs, Stream.copy, load_length hl]
  case getData off n dst len =>
    obtain ⟨hd, hn, hs, hc⟩ := h
    obtain ⟨old, hd⟩ := Option.isSome_iff_exists.mp hd
    cases hl : b.load off.toNat n.toNat
    case none     => simp [AgBuffer.getData, hd, hl, Nat.not_lt.mpr hn, Nat.not_lt.mpr hs, Nat.not_lt.mpr hc]
    case some src =>
      simp [AgBuffer.getData, hd, hl, Nat.not_lt.mpr hn, Nat.not_lt.mpr hs, Nat.not_lt.mpr hc,
        Stream.copy, load_length hl]
  case getAllData dst len =>
    obtain ⟨hz, hl, hd⟩ := h
    obtain ⟨old, hd⟩ := Option.isSome_iff_exists.mp hd
    cases hs : b.load 0 b.virtualLength
    case none     => simp [AgBuffer.getAllData, hd, hs, Nat.not_le.mpr hz, Nat.not_lt.mpr hl]
    case some src =>
      simp [AgBuffer.getAllData, hd, hs, Nat.not_le.mpr hz, Nat.not_lt.mpr hl, Stream.copy, load_length hs]
  case slice n =>
    rw [AgBuffer.slice, if_neg (Nat.not_le.mpr h)]
    cases hl : b.load b.position n.toNat
    case none     => rfl
    case some src => cases hb : ofData σ src <;> simp [hb]

theorem exec_of_not_passes (h : ¬r.Passes b) : r.exec σ b = (r.result σ []).map (·, b) := by
  cases r <;> simp only [Passes, exec, result, M.map_apply, copy_nil] at *
  case readData dst n =>
    cases dst
    case none => rfl
    case some old =>
      simp only [AgBuffer.readData]
      split_ifs with hn hs
      case pos => rfl
      case pos => rfl
      case neg => exact absurd ⟨rfl, Nat.not_lt.mp hn, Nat.not_lt.mp hs⟩ h
  case getData off n dst len =>
    cases dst
    case none => rfl
    case some old =>
      simp only [AgBuffer.getData]
      split_ifs with hn hs hl
      case pos => rfl
      case pos => rfl
      case pos => rfl
      case neg => exact absurd ⟨rfl, Nat.not_lt.mp hn, Nat.not_lt.mp hs, Nat.not_lt.mp hl⟩ h
  case getAllData dst len =>
    cases dst <;> simp only [AgBuffer.getAllData]
    case none =>
      split_ifs
      all_goals rfl
    case some old =>
      split_ifs with hz hl
      case pos => rfl
      case pos => rfl
      case neg => exact absurd ⟨Nat.not_le.mp hz, Nat.not_lt.mp hl, rfl⟩ h
  case slice n =>
    rw [AgBuffer.slice, if_pos (Nat.not_lt.mp h)]
    cases hb : ofData σ [] <;> simp [hb]

end Request

-- The cursor and the length do not exceed the block.
structure Extent (b : AgBuffer) : Prop where
  block       : b.Block
  position_le : b.position ≤ b.virtualLength
  virtual_le  : b.virtualLength ≤ b.data.length

theorem Stored.extent (s : b.Stored w b') (hw : w ≠ []) (h : b.Extent) : b'.Extent := by
  have := s.end_le hw
  have := s.length_le
  have := h.virtual_le
  constructor
  case block       => exact s.block
  case position_le => rw [s.position, s.virtualLength, if_neg hw]; omega
  case virtual_le  => rw [s.virtualLength, if_neg hw]; omega

theorem Extent.kept (σ : Platform) : Kept σ Extent where
  write hw _ _ _ h he := (h.block.stored_of_writeBlock hw he).extent hw h
  move hp h           := ⟨⟨h.block.data_length, h.block.real_lt⟩, hp, h.virtual_le⟩
  order h             := ⟨⟨h.block.data_length, h.block.real_lt⟩, h.position_le, h.virtual_le⟩

namespace Request

variable {r : Request}

theorem count_pos (h : b.Extent) (hp : r.Passes b) (hr : b.virtualLength < r.start b + r.count b) :
    0 < r.count b := by
  have := h.position_le
  cases r <;> simp only [Passes, start, count] at *
  case readData   => omega
  case getAllData => omega
  case slice      => exact hp
  case getData off n _ _ =>
    have ⟨_, _, hs, _⟩ := hp
    rcases Nat.eq_zero_or_pos n.toNat with hn | hn
    case inr => exact hn
    case inl =>
      rw [hn, Nat.add_zero] at hs hr
      rw [sizeT_eq off.isLt] at hs
      omega

-- A request is safe unless it passes all checks although its range is not inside of the buffer.
theorem safe_iff_of_passes (h : b.Extent) :
    r.Safe σ b ↔ (r.Passes b → r.start b + r.count b ≤ b.virtualLength) := by
  constructor
  case mp =>
    intro hs hp
    by_contra hr
    have := count_pos h hp <| by omega
    have := hs.inside hp (r.start b + r.count b - 1) (by omega) (by omega)
    omega
  case mpr =>
    intro hi
    refine ⟨fun hp i _ hl => hl.trans_le <| hi hp, fun hr => exec_of_not_passes fun hp => ?_⟩
    have := hi hp
    omega

theorem safe_iff_guarded (h : b.Extent) : r.Safe σ b ↔ r.Guarded b := by
  have := h.position_le
  have : b.virtualLength < 2 ^ 32 := h.virtual_le.trans_lt <| h.block.length_le.trans_lt h.block.real_lt
  rw [safe_iff_of_passes h]
  cases r <;> simp only [Passes, start, count, Guarded, Option.isSome_iff_ne_none, ne_eq, sizeT]
  case readData dst n =>
    have := n.isLt
    by_cases hd : dst = none <;> simp only [hd, not_true, not_false_eq_true, true_and, false_or]
    case pos => simp
    case neg => omega
  case getData off n dst len =>
    have := n.isLt
    have := off.isLt
    by_cases hd : dst = none <;>
      simp only [hd, not_true, not_false_eq_true, true_and, false_or, BitVec.lt_def]
    case pos => simp
    case neg => omega
  case getAllData => simp
  case slice n =>
    rw [BitVec.toNat_eq]
    simp
    omega

end Request

-- After all runs without `set_length`, a request is safe if and only if it is guarded by its checks. It
-- reads its range once, and only if it passes the checks of the code.
theorem run_request_safe_iff (σ : Platform) (init : Option (List Byte)) (ops : List PublicOp)
    (hi : ∀ src ∈ init, src.length < 2 ^ 32) (ho : ∀ o ∈ ops, ∀ n, o ≠ .setLength n)
    (hb : create σ init = some b) {os : List Out} (hr : (execPublic σ).run ops b = some (os, b'))
    (r : Request) :
    (r.Safe σ b' ↔ r.Guarded b') ∧
    (r.Passes b' → r.exec σ b' = (b'.load (r.start b') (r.count b')).bind fun src =>
      (r.result σ src).map (·, r.moved b')) ∧
    (¬r.Passes b' → r.exec σ b' = (r.result σ []).map (·, b')) := by
  have k := Extent.kept σ
  have he (n) (hn : n < 2 ^ 32) := Extent.mk (malloc_block (σ := σ) hn) (Nat.le_refl _) (Nat.zero_le _)
  have h : b'.Extent := by
    refine Machine.run_invariant ?_ (k.create he hi hb) (.of_forall ho) hr
    exact fun h hn => k.execPublic _ (fun n he => absurd he <| hn n) _ _ _ h
  exact ⟨Request.safe_iff_guarded h, Request.exec_of_passes, Request.exec_of_not_passes⟩

theorem run_request_safe_iff_slice :
    ∃ b, create (.windows <| .filled 0xCD) (some [1, 2, 3, 4, 5, 6, 7, 8]) = some b ∧
      ∃ os b', (execPublic <| .windows <| .filled 0xCD).run [.op <| .seek 2] b = some (os, b') ∧
        (Request.slice 6).Safe (.windows <| .filled 0xCD) b' := by
  refine ⟨_, rfl, _, _, rfl, ?_⟩
  refine (run_request_safe_iff (.windows <| .filled 0xCD)
    (some [1, 2, 3, 4, 5, 6, 7, 8]) [.op <| .seek 2] (by simp)
    (by simp) rfl rfl (.slice 6)).left.mpr ?_
  exact .inr <| by decide

-- The checks of `get_data` miss a range whose end wraps around, and a slice at the end of a buffer reads the
-- bytes behind it.
theorem requests_not_safe :
    ∃ b, create (.windows <| .filled 0xCD) (some [1, 2, 3, 4, 5, 6, 7, 8]) = some b ∧
      ¬(Request.getData 0xFFFFFFFC 8 (some <| List.replicate 8 0) 8).Safe (.windows <| .filled 0xCD) b ∧
      ¬(Request.slice 1).Safe (.windows <| .filled 0xCD) b := by
  refine ⟨_, rfl, fun h => ?_, fun h => ?_⟩
  case refine_1 =>
    have := h.inside ⟨rfl, by decide, by decide, by decide⟩ 0xFFFFFFFC (by decide) (by decide)
    exact absurd this (by decide)
  case refine_2 => exact absurd (h.inside Nat.one_pos 8 (by decide) (by decide)) (by decide)

end AgBuffer
