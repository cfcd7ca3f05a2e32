import Tlsf.Checked

/-!
Constants of the pool layout and rounding to a granularity. A block is an
8-byte header followed by its payload; payloads are multiples of 8 bytes, at
least 16, and below `2 ^ 31`. Classes below 256 bytes are 8 bytes wide, and
every power of two above is cut into 32 classes.
-/

namespace Tlsf.Dimensions

@[simp] def alignment : Nat := 8

/-- The back pointer and the size word. -/
@[simp] def headerSize : Nat := 8

/-- The two free-list links at the start of a free payload. -/
@[simp] def linksSize : Nat := 8

@[simp] def minPayload : Nat := 16

/-- The header of the first block and the header that ends the pool. -/
@[simp] def poolOverhead : Nat := 16

@[simp] def payloadLimit : Nat := 0x80000000

def freedPattern : UInt8 := 0xDD

@[simp] def slotCount : Nat := 32

@[simp] def slotBits : Nat := 5

@[simp] def rowCount : Nat := 24

@[simp] def smallLimit : Nat := 256

@[simp] def smallBits : Nat := 8

/-- Rounds `x` up to the granularity `a`, by masking: `a` is meant to be a
power of two, and any other positive `a` clears the bits that the mask of
`a - 1` leaves out. -/
def alignUp (x a : Nat) : Checked Nat := do
  let below ← Checked.sub a 1
  let raised ← Checked.add x below
  pure (raised &&& (UInt64.size - a))

def alignDown (x a : Nat) : Checked Nat := do
  let _ ← Checked.sub a 1
  pure (x &&& (UInt64.size - a))

theorem mask_alignment {x : Nat} (fits : x < UInt64.size) :
    x &&& (UInt64.size - alignment) = x / alignment * alignment := by
  have mask : UInt64.size - alignment = (2305843009213693951 : Nat) <<< 3 := by decide
  have width : (2305843009213693951 : Nat) = (1 <<< 61) - 1 := by decide
  have floor : x / alignment * alignment = (x >>> 3) <<< 3 := by
    simp [Nat.shiftRight_eq_div_pow, Nat.shiftLeft_eq]
  rw [mask, floor]
  apply Nat.eq_of_testBit_eq
  intro i
  simp only [Nat.testBit_and, Nat.testBit_shiftLeft, Nat.testBit_shiftRight]
  by_cases low : 3 ≤ i
  · simp only [low, decide_true, Bool.true_and]
    rw [width, Nat.one_shiftLeft, Nat.testBit_two_pow_sub_one]
    have back : 3 + (i - 3) = i := by omega
    rw [back]
    by_cases high : i - 3 < 61
    · simp [high]
    · have zero : x.testBit i = false := by
        apply Nat.testBit_lt_two_pow
        have : (2:Nat) ^ 64 ≤ 2 ^ i := Nat.pow_le_pow_right (by omega) (by omega)
        simp only [UInt64.size] at fits
        omega
      simp [zero]
  · simp [low]

theorem alignDown_alignment {x : Nat} (fits : x < UInt64.size) :
    alignDown x alignment = .ok (x / alignment * alignment) := by
  rw [← mask_alignment fits]
  rfl

theorem alignUp_alignment {x : Nat} (fits : x + 7 < UInt64.size) :
    alignUp x alignment = .ok ((x + 7) / alignment * alignment) := by
  rw [← mask_alignment fits]
  unfold alignUp
  rw [Checked.sub_eq_ok (by decide)]
  show (do let raised ← Checked.add x 7; pure (raised &&& (UInt64.size - alignment))) = _
  rw [Checked.add_eq_ok fits]
  rfl

/-- The payload reserved for a request of `size` bytes: the least multiple of
the granularity that holds it and the smallest payload. None when no block can
be that large. -/
def payloadFor? (size : Nat) : Option Nat :=
  let aligned := (size + (alignment - 1)) / alignment * alignment
  if aligned < payloadLimit then some (max aligned minPayload) else none

theorem payloadFor?_eq_some {size payload : Nat} (h : payloadFor? size = some payload) :
    size ≤ payload ∧ minPayload ≤ payload ∧ payload % alignment = 0 ∧ payload < payloadLimit := by
  simp only [payloadFor?, Option.ite_none_right_eq_some, Option.some.injEq] at h
  simp only [alignment, minPayload, payloadLimit] at *
  omega

end Tlsf.Dimensions
