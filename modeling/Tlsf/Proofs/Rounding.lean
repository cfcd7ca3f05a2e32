import Mathlib.Order.Bounds.Basic
import Tlsf.Proofs.Filing

/-!
Where a search starts. Rounding a size up gives the least class whose every block holds that size.
The sum behind it is one larger than the size it files, so one size whose class is still in range
is past its reach.
-/

namespace Tlsf.SizeClass

open Dimensions

variable {c : SizeClass} {size : Nat}

def roundUpArmed (size : Nat) : Checked SizeClass :=
  if size < smallLimit then
    ofSizeArmed size
  else do
    let top ← topBit size
    let shift ← Checked.sub top slotBits
    Checked.require (shift < 64)
    let raised ← Checked.add size (1 <<< shift)
    ofSizeArmed (← Checked.sub raised 1)

theorem roundUpArmed_eq (word : size < UInt64.size) : roundUpArmed size = roundUp size := by
  unfold roundUpArmed roundUp
  split
  · exact ofSizeArmed_eq word
  · rename_i past
    have large : 256 ≤ size := Nat.not_lt.mp past
    simp only [topBit_eq large, shift_eq large, Checked.require_eq_ok (shift_lt large word),
      Checked.ok_bind]
    change _ = Checked.add size (1 <<< (size.log2 - 5)) >>= fun raised => pure (ofSize (raised - 1))
    by_cases fits : size + (1 <<< (size.log2 - 5)) < UInt64.size
    · have positive : 1 ≤ size + (1 <<< (size.log2 - 5)) :=
        Nat.le_trans (Nat.le_trans (by decide) large) (Nat.le_add_right ..)
      simp only [Checked.add_eq_ok fits, Checked.sub_eq_ok positive, Checked.ok_bind]
      exact ofSizeArmed_eq (Nat.lt_of_le_of_lt (Nat.sub_le ..) fits)
    · simp only [Checked.add, if_neg fits, Checked.error_bind]

/-- The sizes that a search can start from: multiples of the granularity in the linear range, and
past it those whose rounded value is a word. -/
def Roundable (size : Nat) : Prop :=
  size < 256 ∧ 8 ∣ size ∨ 256 ≤ size ∧ size + 2 ^ (size.log2 - 5) - 1 < UInt64.size

def Holding (size : Nat) : Set SizeClass :=
  {c | c.InRange ∧ ∃ low, c.lowerBound = .ok low ∧ size ≤ low}

theorem mem_holding : c ∈ Holding size ↔ c.InRange ∧ size ≤ c.floor := by
  refine and_congr_right fun within => ?_
  rw [lowerBound_eq within.row within.slot]
  simp

theorem floor_last : (⟨56, 31⟩ : SizeClass).floor = 2 ^ 64 - 2 ^ 58 := by decide

theorem Roundable.reach (roundable : Roundable size) : size ≤ 2 ^ 64 - 2 ^ 58 := by
  have limit : UInt64.size = 2 ^ 64 := rfl
  rcases roundable with ⟨small, -⟩ | ⟨large, sum⟩
  · omega
  · obtain ⟨top, below, above⟩ := log2_bounds large
    rcases Nat.lt_or_ge size.log2 63 with low | high
    · have short : size < 2 ^ 63 := (Nat.log2_lt (by omega)).mp low
      omega
    · have wide : 2 ^ 58 ≤ 2 ^ (size.log2 - 5) := Nat.pow_le_pow_right (by omega) (by omega)
      omega

theorem Roundable.sum_fits (roundable : Roundable size) (other : size ≠ 2 ^ 64 - 2 ^ 58) :
    size + 2 ^ (size.log2 - 5) < UInt64.size := by
  have limit : UInt64.size = 2 ^ 64 := rfl
  have reach := roundable.reach
  have top : size.log2 < 64 := by
    rcases Nat.eq_zero_or_pos size with rfl | pos
    · decide
    · exact (Nat.log2_lt (by omega)).mpr (by omega)
  have narrow : 2 ^ (size.log2 - 5) ≤ 2 ^ 58 := Nat.pow_le_pow_right (by omega) (by omega)
  omega

/-- The class holds `size` bytes in every block that is filed under it or above it, and no lower
class does. -/
structure Tight (c : SizeClass) (size : Nat) : Prop where
  least : IsLeast (Holding size) c
  guarantee : ∀ d : SizeClass, d.InRange →
    (c ≤ d ↔ ∀ block < UInt64.size, d ≤ ofSize block → size ≤ block)
  beyond : rowCount ≤ c.fl ↔ ∃ low, (⟨23, 31⟩ : SizeClass).lowerBound = .ok low ∧ low < size

theorem tight_of_least (slot : c.sl < 32) (reach : size ≤ (⟨56, 31⟩ : SizeClass).floor)
    (least : ∀ d : SizeClass, d.sl < 32 → (c ≤ d ↔ size ≤ d.floor)) : c.Tight size := by
  have row : c.fl ≤ 56 := by
    have last := (least ⟨56, 31⟩ (by decide)).mpr reach
    rw [le_mk] at last
    omega
  refine ⟨⟨mem_holding.mpr ⟨⟨row, slot⟩, (least c slot).mp le_rfl⟩, fun d holds => ?_⟩,
    fun d within => ?_, ?_⟩
  · obtain ⟨within, holds⟩ := mem_holding.mp holds
    exact (least d within.slot).mpr holds
  · rw [least d within.slot]
    refine ⟨fun holds block _ above =>
      Nat.le_trans holds ((le_ofSize_iff within.slot block).mp above),
      fun guarantee => guarantee d.floor within.floor_lt ?_⟩
    exact (le_ofSize_iff within.slot d.floor).mpr le_rfl
  · have last := least ⟨23, 31⟩ (by decide)
    rw [lowerBound_eq (by decide) (by decide)]
    simp only [Except.ok.injEq, exists_eq_left', ← Nat.not_le, ← last, le_def, rowCount]
    omega

theorem roundUp_tight (roundable : Roundable size) (other : size ≠ 2 ^ 64 - 2 ^ 58) :
    ∃ c, roundUp size = .ok c ∧ roundUpArmed size = .ok c ∧ c.Tight size := by
  have sum := roundable.sum_fits other
  have granular : size < 256 → size % 8 = 0 := by
    intro small
    rcases roundable with ⟨-, multiple⟩ | ⟨large, -⟩ <;> omega
  obtain ⟨c, rounded, slot, least⟩ := roundUp_spec granular fun _ => sum
  exact ⟨c, rounded, (roundUpArmed_eq (Nat.lt_of_le_of_lt (Nat.le_add_right ..) sum)).trans rounded,
    tight_of_least slot (floor_last ▸ roundable.reach) least⟩

/-- One byte past the start of the last class of a row: the next row is the least that holds it. -/
theorem roundUp_tight_sample :
    Roundable 505 ∧ 505 ≠ 2 ^ 64 - 2 ^ 58 ∧ roundUp 505 = .ok ⟨2, 0⟩ ∧
      (⟨2, 0⟩ : SizeClass).Tight 505 := by
  have roundable : Roundable 505 := .inr (by decide)
  obtain ⟨c, rounded, -, tight⟩ := roundUp_tight roundable (by decide)
  obtain rfl : c = ⟨2, 0⟩ := Except.ok.inj (rounded.symm.trans rfl)
  exact ⟨roundable, by decide, rounded, tight⟩

/-- The last size that can be rounded starts the last class, but on the way there the sum wraps. -/
theorem roundUp_wraps :
    Roundable (2 ^ 64 - 2 ^ 58) ∧ roundUp (2 ^ 64 - 2 ^ 58) = .error .overflow ∧
      roundUpArmed (2 ^ 64 - 2 ^ 58) = .error .overflow ∧
      (⟨56, 31⟩ : SizeClass).Tight (2 ^ 64 - 2 ^ 58) := by
  refine ⟨.inr (by decide +kernel), rfl, rfl,
    tight_of_least (by decide) (Nat.le_of_eq floor_last.symm) fun d slot => ?_⟩
  rw [← floor_last]
  exact (floor_le_floor (by decide) slot).symm

end Tlsf.SizeClass
