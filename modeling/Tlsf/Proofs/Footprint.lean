import Mathlib.Order.Interval.Set.Basic
import Tlsf.Block

/-!
Which bytes an edit of a buffer can reach. `OnlyTouches b b' area` says that
`b'` has the length of `b` and its bytes outside `area`; a word that lies
outside `area` then reads the same in both. Every later statement that
something stays as it was comes from here.

The second half gives the checked reads and writes of a block's size word as
equations that hold inside the buffer.
-/

namespace Tlsf

namespace Buffer

theorem ext_byteAt {b b' : Buffer} (size : b'.size = b.size)
    (bytes : ∀ i < b.size, b'.byteAt i = b.byteAt i) : b' = b := by
  obtain ⟨data⟩ := b
  obtain ⟨data'⟩ := b'
  congr 1
  apply ByteArray.ext_getElem size
  intro i inside' inside
  have same := bytes i inside
  rwa [byteAt, byteAt, dif_pos inside', dif_pos inside] at same

theorem byteAt_setWord_of_outside (b : Buffer) (o : Nat) (w : UInt32) (i : Nat)
    (outside : i < o ∨ o + 4 ≤ i) : (b.setWord o w).byteAt i = b.byteAt i := by
  simp only [setWord, byteAt_set, size_set]
  rw [if_neg (by omega), if_neg (by omega), if_neg (by omega), if_neg (by omega)]

theorem wordAt_congr {b b' : Buffer} {o : Nat}
    (same : ∀ i, o ≤ i → i < o + 4 → b'.byteAt i = b.byteAt i) : b'.wordAt o = b.wordAt o := by
  simp only [wordAt, same o (by omega) (by omega), same (o + 1) (by omega) (by omega),
    same (o + 2) (by omega) (by omega), same (o + 3) (by omega) (by omega)]

theorem byteAt_of_wordAt {b b' : Buffer} {o : Nat} (same : b'.wordAt o = b.wordAt o) :
    ∀ i ∈ Set.Ico o (o + 4), b'.byteAt i = b.byteAt i := by
  have bound : ∀ (c : Buffer) i, (c.byteAt i).toNat < 256 := fun c i => (c.byteAt i).toNat_lt
  have words := congrArg UInt32.toNat same
  simp only [wordAt, UInt32.toNat_ofNat'] at words
  have b₀ := bound b o
  have b₁ := bound b (o + 1)
  have b₂ := bound b (o + 2)
  have b₃ := bound b (o + 3)
  have c₀ := bound b' o
  have c₁ := bound b' (o + 1)
  have c₂ := bound b' (o + 2)
  have c₃ := bound b' (o + 3)
  rintro i ⟨low, high⟩
  obtain rfl | rfl | rfl | rfl : i = o ∨ i = o + 1 ∨ i = o + 2 ∨ i = o + 3 := by omega
  all_goals
    apply UInt8.toNat_inj.mp
    omega

theorem wordAt_setWord_ne (b : Buffer) (o a : Nat) (w : UInt32) (apart : a + 4 ≤ o ∨ o + 4 ≤ a) :
    (b.setWord o w).wordAt a = b.wordAt a :=
  wordAt_congr fun i _ _ => byteAt_setWord_of_outside b o w i (by omega)

theorem readWord_eq {b : Buffer} {o : Nat} (inside : o + 4 ≤ b.size) :
    b.readWord o = .ok (b.wordAt o) := if_pos inside

theorem writeWord_eq {b : Buffer} {o : Nat} (w : UInt32) (inside : o + 4 ≤ b.size) :
    b.writeWord o w = .ok (b.setWord o w) := if_pos inside

/-- `b'` is `b` with changes inside `area` only. -/
structure OnlyTouches (b b' : Buffer) (area : Set Nat) : Prop where
  size : b'.size = b.size
  byte : ∀ i ∉ area, b'.byteAt i = b.byteAt i

namespace OnlyTouches

variable {b b' b'' : Buffer} {area area' : Set Nat}

theorem refl (b : Buffer) (area : Set Nat) : OnlyTouches b b area := ⟨rfl, fun _ _ => rfl⟩

theorem mono (t : OnlyTouches b b' area) (sub : area ⊆ area') : OnlyTouches b b' area' :=
  ⟨t.size, fun i out => t.byte i fun h => out (sub h)⟩

theorem eq_of_none (t : OnlyTouches b b' ∅) : b' = b :=
  ext_byteAt t.size fun i _ => t.byte i (Set.notMem_empty i)

theorem trans (t : OnlyTouches b b' area) (t' : OnlyTouches b' b'' area') :
    OnlyTouches b b'' (area ∪ area') := by
  refine ⟨t'.size.trans t.size, fun i out => ?_⟩
  rw [Set.mem_union, not_or] at out
  exact (t'.byte i out.2).trans (t.byte i out.1)

theorem setWord (b : Buffer) (o : Nat) (w : UInt32) :
    OnlyTouches b (b.setWord o w) (Set.Ico o (o + 4)) := by
  refine ⟨size_setWord .., fun i out => byteAt_setWord_of_outside b o w i ?_⟩
  rw [Set.mem_Ico] at out
  omega

theorem update (b : Buffer) (value : Nat → UInt8) (o count : Nat) :
    OnlyTouches b (Buffer.update value o count b) (Set.Ico o (o + count)) := by
  refine ⟨size_update .., fun i out => ?_⟩
  rw [Set.mem_Ico] at out
  rw [byteAt_update, if_neg (by omega)]

theorem wordAt (t : OnlyTouches b b' area) {o : Nat} (out : ∀ i, o ≤ i → i < o + 4 → i ∉ area) :
    b'.wordAt o = b.wordAt o :=
  wordAt_congr fun i low high => t.byte i (out i low high)

end OnlyTouches

end Buffer

end Tlsf
