import Tlsf.Dimensions

/-!
Size classes: the coordinates `(fl, sl)` under which free blocks are filed.

    fl = 0 : [0, 256) in steps of 8
    fl = k : [2 ^ (k + 7), 2 ^ (k + 8)) in steps of 2 ^ (k + 2)

`ofSize` files a block, `roundUp` starts a search that cannot meet a smaller
block, and `lowerBound` is the least size of a class.
-/

namespace Tlsf

structure SizeClass where
  /-- The power of two, counted from the end of the linear range. -/
  fl : Nat
  sl : Nat
deriving DecidableEq, Repr

namespace SizeClass

open Dimensions

def ofSize (size : Nat) : SizeClass :=
  if size < smallLimit then
    ⟨0, size / (smallLimit / slotCount)⟩
  else
    let top := size.log2
    ⟨top - (smallBits - 1), (size >>> (top - slotBits)) - slotCount⟩

theorem ofSize_slot_lt (size : Nat) : (ofSize size).sl < slotCount := by
  unfold ofSize
  split
  · rename_i h
    simp only [smallLimit, slotCount] at *
    omega
  · rename_i h
    simp only [smallLimit, slotCount, slotBits, Nat.not_lt] at *
    have nonzero : size ≠ 0 := by omega
    have top : 8 ≤ size.log2 := (Nat.le_log2 nonzero).mpr (by omega)
    have above : size < 2 ^ (size.log2 + 1) := Nat.lt_log2_self
    have parts : 2 ^ (size.log2 + 1) = 2 ^ (size.log2 - 5) * 64 := by
      rw [show size.log2 + 1 = size.log2 - 5 + 6 by omega, Nat.pow_add]
    have : size / 2 ^ (size.log2 - 5) < 64 := Nat.div_lt_of_lt_mul (parts ▸ above)
    rw [Nat.shiftRight_eq_div_pow]
    omega

/-- The first class whose every block holds `size` bytes. It may lie past the
last row. The sum is formed before one is taken off again, so it must itself
stay below the word limit. -/
def roundUp (size : Nat) : Checked SizeClass :=
  if size < smallLimit then
    pure (ofSize size)
  else do
    let raised ← Checked.add size (1 <<< (size.log2 - slotBits))
    pure (ofSize (raised - 1))

/-- The least size of a class. Only the low 32 bits of the row select the
power of two, and a power past the machine word faults. -/
def lowerBound (c : SizeClass) : Checked Nat :=
  if c.fl = 0 then
    Checked.mul c.sl (smallLimit / slotCount)
  else do
    let shift := c.fl % UInt32.size + (smallBits - 1)
    if shift < 64 then
      let base := 1 <<< shift
      let within ← Checked.mul c.sl (base / slotCount)
      Checked.add base within
    else
      throw .overflow

end SizeClass

end Tlsf
