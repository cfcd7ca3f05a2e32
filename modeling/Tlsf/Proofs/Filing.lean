import Tlsf.Proofs.SizeClasses

/-!
How sizes of 64 bits are filed. Filing and the least size of a class are adjoint, so the classes
cut the sizes into intervals that follow one another without a gap, and larger sizes are filed no
lower.
-/

namespace Tlsf.SizeClass

open Dimensions

variable {c : SizeClass} {size : Nat}

structure InRange (c : SizeClass) : Prop where
  row : c.fl ≤ 56
  slot : c.sl < 32

instance (c : SizeClass) : Decidable c.InRange :=
  decidable_of_iff (c.fl ≤ 56 ∧ c.sl < 32) ⟨fun h => ⟨h.1, h.2⟩, fun h => ⟨h.row, h.slot⟩⟩

theorem ofSize_inRange (word : size < UInt64.size) : (ofSize size).InRange :=
  ⟨ofSize_row_le word, ofSize_slot_lt size⟩

theorem InRange.floor_lt (within : c.InRange) : c.floor < UInt64.size := by
  have row := within.row
  exact Nat.lt_of_lt_of_le (floor_lt_pow within.slot)
    (Nat.pow_le_pow_right (by omega) (by omega : c.fl + 8 ≤ 64))

/-! Filing in machine arithmetic -/

def topBit (size : Nat) : Checked Nat := do
  Checked.require (size ≠ 0)
  pure size.log2

/-- The filing of a size with a check wherever 64-bit arithmetic needs one: differences are not
negative, and the shift stays within the word. The leading bit of the slot is taken off by an
exclusive or. -/
def ofSizeArmed (size : Nat) : Checked SizeClass :=
  if size < smallLimit then
    pure ⟨0, size / (smallLimit / slotCount)⟩
  else do
    let top ← topBit size
    let shift ← Checked.sub top slotBits
    Checked.require (shift < 64)
    let row ← Checked.sub top (smallBits - 1)
    pure ⟨row, (size >>> shift) ^^^ slotCount⟩

theorem topBit_eq (large : 256 ≤ size) : topBit size = .ok size.log2 := by
  rw [topBit, Checked.require_eq_ok (by omega)]
  rfl

theorem shift_eq (large : 256 ≤ size) : Checked.sub size.log2 slotBits = .ok (size.log2 - 5) :=
  Checked.sub_eq_ok (Nat.le_trans (by decide) (log2_bounds large).1)

theorem shift_lt (large : 256 ≤ size) (word : size < UInt64.size) : size.log2 - 5 < 64 :=
  Nat.lt_of_le_of_lt (Nat.sub_le ..) ((Nat.log2_lt (by omega)).mpr word)

/-- From 32 to 63, taking the leading bit off by an exclusive or is taking 32 off. -/
theorem xor_slotCount {n : Nat} (low : 32 ≤ n) (high : n < 64) :
    n ^^^ slotCount = n - slotCount := by
  have leading : ∀ n < 64, 32 ≤ n → n ^^^ slotCount = n - slotCount := by decide
  exact leading n high low

theorem ofSizeArmed_eq (word : size < UInt64.size) : ofSizeArmed size = .ok (ofSize size) := by
  unfold ofSizeArmed ofSize
  split
  · rfl
  · rename_i past
    have large : 256 ≤ size := Nat.not_lt.mp past
    obtain ⟨top, below, above⟩ := log2_bounds large
    have unit := Nat.two_pow_pos (size.log2 - 5)
    have low : 32 ≤ size >>> (size.log2 - 5) := by
      rw [Nat.shiftRight_eq_div_pow]
      exact (Nat.le_div_iff_mul_le unit).mpr below
    have high : size >>> (size.log2 - 5) < 64 := by
      rw [Nat.shiftRight_eq_div_pow]
      exact (Nat.div_lt_iff_lt_mul unit).mpr above
    have row : Checked.sub size.log2 (smallBits - 1) = .ok (size.log2 - 7) :=
      Checked.sub_eq_ok (Nat.le_trans (by decide) top)
    simp only [topBit_eq large, shift_eq large, row, Checked.require_eq_ok (shift_lt large word),
      Checked.ok_bind, Checked.pure_eq, xor_slotCount low high]
    rfl

/-! The intervals -/

theorem ofSize_mono {larger : Nat} (le : size ≤ larger) : ofSize size ≤ ofSize larger :=
  (le_ofSize_iff (ofSize_slot_lt size) larger).mpr
    (Nat.le_trans ((le_ofSize_iff (ofSize_slot_lt size) size).mp le_rfl) le)

theorem ofSize_eq_iff (slot : c.sl < 32) :
    ofSize size = c ↔ c.floor ≤ size ∧ size < c.next.floor := by
  rw [le_antisymm_iff, ← le_ofSize_iff slot, ← Nat.not_le, ← le_ofSize_iff (next_slot_lt c),
    next_le_iff slot (ofSize_slot_lt size), not_not, and_comm]

theorem width_pos (c : SizeClass) : 0 < c.width := by
  unfold width
  split
  · exact Nat.zero_lt_succ 7
  · exact Nat.two_pow_pos _

theorem ofSize_floor (slot : c.sl < 32) : ofSize c.floor = c := by
  have width := c.width_pos
  rw [ofSize_eq_iff slot, floor_next slot]
  omega

theorem floor_le_floor {d : SizeClass} (slotc : c.sl < 32) (slotd : d.sl < 32) :
    c.floor ≤ d.floor ↔ c ≤ d := by
  rw [← le_ofSize_iff slotc, ofSize_floor slotd]

theorem next_inRange (within : c.InRange) (last : c ≠ ⟨56, 31⟩) : c.next.InRange := by
  obtain ⟨row, slot⟩ := within
  have before : ¬ (c.fl = 56 ∧ c.sl = 31) := fun ⟨fl, sl⟩ => last (by cases c; simp_all)
  refine ⟨?_, next_slot_lt c⟩
  unfold next
  split
  · exact row
  · simp only
    omega

theorem floor_next_last : (⟨56, 31⟩ : SizeClass).next.floor = UInt64.size := by decide

/-- The sizes of a class are those from `low` up to `high`, where the next class starts or the
sizes end. -/
structure Spans (c : SizeClass) (low high : Nat) : Prop where
  start : c.lowerBound = .ok low
  next : c ≠ ⟨56, 31⟩ → c.next.lowerBound = .ok high
  last : c = ⟨56, 31⟩ → high = UInt64.size
  first : c = ⟨0, 0⟩ → low = 0
  nonempty : low < high
  adjoint : ∀ size < UInt64.size, c ≤ ofSize size ↔ low ≤ size
  sizes : ∀ size < UInt64.size, ofSize size = c ↔ low ≤ size ∧ size < high
  inverse : ofSize low = c

structure Filed (size : Nat) : Prop where
  runs : ofSizeArmed size = .ok (ofSize size)
  inRange : (ofSize size).InRange
  monotone : ∀ larger, size ≤ larger → ofSize size ≤ ofSize larger
  inside : size < payloadLimit → (ofSize size).Inside

theorem InRange.spans (within : c.InRange) : c.Spans c.floor c.next.floor where
  start := lowerBound_eq within.row within.slot
  next last := lowerBound_eq (next_inRange within last).row (next_slot_lt c)
  last last := last ▸ floor_next_last
  first first := first ▸ rfl
  nonempty := by
    rw [floor_next within.slot]
    exact Nat.lt_add_of_pos_right c.width_pos
  adjoint size _ := le_ofSize_iff within.slot size
  sizes _ _ := ofSize_eq_iff within.slot
  inverse := ofSize_floor within.slot

/-- Filing is the upper adjoint of the least size of a class, over all sizes of 64 bits. -/
theorem filing_adjoint (within : c.InRange) (word : size < UInt64.size) :
    (∃ low high, c.Spans low high) ∧ Filed size :=
  ⟨⟨_, _, within.spans⟩, ofSizeArmed_eq word, ofSize_inRange word, fun _ le => ofSize_mono le,
    ofSize_inside⟩

/-- The last class of its row, and the last size of its class. -/
theorem filing_adjoint_sample :
    (⟨1, 31⟩ : SizeClass).InRange ∧ 511 < UInt64.size ∧
      (∃ low high, (⟨1, 31⟩ : SizeClass).Spans low high ∧ low = 504 ∧ high = 512) ∧
      Filed 511 ∧ ofSize 511 = ⟨1, 31⟩ := by
  have within : (⟨1, 31⟩ : SizeClass).InRange := by decide
  have word : 511 < UInt64.size := by decide
  obtain ⟨⟨low, high, spans⟩, filed⟩ := filing_adjoint within word
  obtain rfl : low = 504 := Except.ok.inj (spans.start.symm.trans rfl)
  obtain rfl : high = 512 := Except.ok.inj ((spans.next (by decide)).symm.trans rfl)
  exact ⟨within, word, ⟨_, _, spans, rfl, rfl⟩, filed, (spans.sizes 511 word).mpr (by decide)⟩

end Tlsf.SizeClass
