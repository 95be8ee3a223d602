import MhoLauncher.Library.Preserves
import MhoLauncher.AgBuffer.Block
import MhoLauncher.AgBuffer.Capacity

open Bytes

namespace AgBuffer

variable {σ : Platform} {b b' : AgBuffer} {w : List Byte} {n : Nat} {e : Endianness}
variable {I : AgBuffer → Prop}

-- All operations but `set_length` access a buffer in these ways, so they preserve each property that is
-- preserved by these.
structure Kept (σ : Platform) (I : AgBuffer → Prop) : Prop where
  write : ∀ {w}, w ≠ [] → Preserves I (AgBuffer.writeBlock σ w)
  move  : ∀ {b p}, p ≤ b.virtualLength → I b → I { b with position := p }
  order : ∀ {b e}, I b → I { b with endianness := e }

namespace Kept

theorem readU8 (k : Kept σ I) : Preserves I readU8 := by
  intro b v b' h he
  simp only [AgBuffer.readU8] at he
  split at he
  case isTrue => cases he; exact h
  case isFalse hp =>
    obtain ⟨_, _, he⟩ := Option.bind_eq_some_iff.mp he
    cases he
    exact k.move ((Nat.mod_le _ _).trans <| by omega) h

theorem readU16 (k : Kept σ I) : Preserves I (readU16 σ) :=
  .bind k.readU8 fun _ => .bind k.readU8 fun _ => .bind .get fun _ => .pure _

theorem readU32 (k : Kept σ I) : Preserves I (readU32 σ) :=
  .bind k.readU8 fun _ => .bind k.readU8 fun _ => .bind k.readU8 fun _ => .bind k.readU8 fun _ =>
    .bind .get fun _ => .pure _

theorem readString_loop (k : Kept σ I) (fuel : Nat) : Preserves I (readString.loop fuel) := by
  induction fuel
  case zero => exact fun _ _ _ _ h => nomatch h
  case succ fuel hi =>
    refine .bind k.readU8 fun c => ?_
    split
    case isTrue  => exact .pure _
    case isFalse => exact .bind hi fun _ => .pure _

theorem readString (k : Kept σ I) : Preserves I readString :=
  .bind .get fun _ => k.readString_loop _

theorem readData (k : Kept σ I) {dst : Dst} : Preserves I (readData dst n) := by
  intro b d b' h he
  cases readData_moves he
  case inl he => exact he ▸ h
  case inr he =>
    have ⟨_, hp, he⟩ := he
    exact he ▸ k.move hp h

theorem seek (k : Kept σ I) : Preserves I (seek n) := by
  refine .modify fun {b} h => k.move ?_ h
  split <;> omega

theorem writeU8 (k : Kept σ I) (v : Byte) : Preserves I (AgBuffer.writeU8 σ v) :=
  k.write <| by simp

theorem writeData (k : Kept σ I) (src : List Byte) : Preserves I (AgBuffer.writeData σ src) := by
  cases src
  case nil  => exact .pure _
  case cons => exact k.write <| by simp

theorem writeU16 (k : Kept σ I) (v : Word) : Preserves I (AgBuffer.writeU16 σ v) :=
  .bind .get fun _ => .bind (k.writeU8 _) fun _ => k.writeU8 _

theorem writeU32 (k : Kept σ I) (v : DWord) : Preserves I (AgBuffer.writeU32 σ v) :=
  .bind .get fun _ => .bind (k.writeU8 _) fun _ => .bind (k.writeU8 _) fun _ =>
    .bind (k.writeU8 _) fun _ => k.writeU8 _

theorem writeRepeat (k : Kept σ I) (v : Byte) (length : Nat) :
    Preserves I (AgBuffer.writeRepeat σ v length) :=
  .forM fun _ _ => k.writeU8 _

theorem writeString (k : Kept σ I) (s : List Byte) : Preserves I (AgBuffer.writeString σ s) :=
  .bind (.forM fun _ _ => k.writeU8 _) fun _ => k.writeU8 _

theorem writeWstring (k : Kept σ I) (s : List Word) : Preserves I (AgBuffer.writeWstring σ s) :=
  .forM fun _ _ => .bind .get fun _ => k.writeU16 _

theorem exec (k : Kept σ I) (o : Op) : Preserves I (exec σ o) := by
  cases o
  case writeU8       => exact .map <| k.writeU8 _
  case writeU16      => exact .map <| k.writeU16 _
  case writeU32      => exact .map <| k.writeU32 _
  case writeData     => exact .map <| k.writeData _
  case writeRepeat   => exact .map <| k.writeRepeat _ _
  case writeString   => exact .map <| k.writeString _
  case seek          => exact .map k.seek
  case setEndianness => exact .map <| .modify k.order
  case readU8        => exact .map k.readU8
  case readU16       => exact .map k.readU16
  case readU32       => exact .map k.readU32
  case readString    => exact .map k.readString
  case readData      => exact .map k.readData
  case getData       => exact .map fun _ _ _ h he => getData_preserves he ▸ h
  case getAllData    => exact .map fun _ _ _ h he => getAllData_preserves he ▸ h
  case getPosition   => exact .map <| .bind .get fun _ => .pure _
  case getLength     => exact .map <| .bind .get fun _ => .pure _
  case getAvailable  => exact .map <| .bind .get fun _ => .pure _

theorem execPublic (k : Kept σ I) (o : PublicOp) (hs : ∀ n, o = .setLength n → Preserves I (execPublic σ o)) :
    Preserves I (execPublic σ o) := by
  cases o
  case op           => exact k.exec _
  case writeWstring => exact .map <| k.writeWstring _
  case setLength n  => exact hs n rfl

end Kept

theorem grow_endianness : (b.grow σ n).endianness = b.endianness := by
  rw [grow]
  split <;> rfl

theorem writeBlock_endianness (w : List Byte) :
    Preserves (fun b => b.endianness = e) (AgBuffer.writeBlock σ w) := by
  intro b _ b' h he
  simp only [AgBuffer.writeBlock] at he
  obtain ⟨_, hs, he⟩ := Option.bind_eq_some_iff.mp he
  obtain ⟨_, hs⟩ := Option.ite_none_right_eq_some.mp hs
  cases hs
  cases he
  simp only [advance]
  split
  case isTrue  => exact grow_endianness.trans h
  case isFalse => exact h

theorem Block.kept (σ : Platform) : Kept σ Block where
  write hw _ _ _ h he := (h.stored_of_writeBlock hw he).block
  move _ h            := ⟨h.data_length, h.real_lt⟩
  order h             := ⟨h.data_length, h.real_lt⟩

theorem Block.execPublic (o : PublicOp) : Preserves Block (execPublic σ o) := by
  refine (Block.kept σ).execPublic o fun n ho => ?_
  subst ho
  refine .map <| .modify fun {b} h => ?_
  split
  case isTrue  => exact ⟨h.grow.data_length, h.grow.real_lt⟩
  case isFalse => exact ⟨h.data_length, h.real_lt⟩

theorem malloc_block (hn : n < 2 ^ 32) : Block ⟨0, 0, n, malloc σ n, .small, 1⟩ := by
  refine ⟨?_, hn⟩
  simp only [malloc]
  cases σ.heap 0
  case none   => exact .inl rfl
  case some f => exact .inr <| by simp

theorem Kept.create (k : Kept σ I) (he : ∀ n < 2 ^ 32, I ⟨0, 0, n, malloc σ n, .small, 1⟩)
    {init : Option (List Byte)} (hi : ∀ src ∈ init, src.length < 2 ^ 32)
    (h : create σ init = some b) : I b := by
  cases init
  case none =>
    cases h
    exact he GROW_SIZE <| by simp [GROW_SIZE]
  case some src =>
    obtain ⟨_, hw, hb⟩ := Option.bind_eq_some_iff.mp h
    cases hb
    exact k.writeData src _ _ _ (he src.length <| hi src rfl) hw

-- The states after all runs of operations, for both constructors and with all outcomes of the allocator.
def Reachable (σ : Platform) (b : AgBuffer) : Prop :=
  ∃ init b₀ ops os, (∀ src ∈ init, src.length < 2 ^ 32) ∧ create σ init = some b₀ ∧
    (execPublic σ).run ops b₀ = some (os, b)

theorem Reachable.block (h : Reachable σ b) : b.Block := by
  have ⟨_, b₀, ops, _, hi, hb, hr⟩ := h
  have ht : (execPublic σ).Along (fun _ _ => True) b₀ ops := .of_forall fun _ _ => trivial
  refine Machine.run_invariant (fun h _ => Block.execPublic _ _ _ _ h) ?_ ht hr
  exact (Block.kept σ).create (fun _ => malloc_block) hi hb

end AgBuffer
