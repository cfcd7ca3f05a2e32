import Mathlib.Algebra.Group.Nat.Defs
import Mathlib.Order.Basic
import Tlsf.SizeClass

/-!
Size classes in their lexicographic order. `floor c` is the least size filed
under `c`, and `le_ofSize_iff` says that filing and `floor` are adjoint. A
search started by `roundUp` therefore meets no block below the request, and
`roundUp_spec` says that it starts no later than it has to.
-/

namespace Tlsf.SizeClass

open Dimensions

instance : LE SizeClass := ⟨fun c d => c.fl < d.fl ∨ c.fl = d.fl ∧ c.sl ≤ d.sl⟩

theorem le_def {c d : SizeClass} : c ≤ d ↔ c.fl < d.fl ∨ c.fl = d.fl ∧ c.sl ≤ d.sl := Iff.rfl

theorem le_mk {c : SizeClass} {fl sl : Nat} :
    c ≤ ⟨fl, sl⟩ ↔ c.fl < fl ∨ c.fl = fl ∧ c.sl ≤ sl := Iff.rfl

theorem le_trans {c d e : SizeClass} (cd : c ≤ d) (de : d ≤ e) : c ≤ e := by
  rw [le_def] at *
  omega

instance : LinearOrder SizeClass where
  le_refl c := le_def.mpr (.inr ⟨rfl, Nat.le_refl c.sl⟩)
  le_trans _ _ _ := le_trans
  le_antisymm c d cd dc := by
    cases c
    cases d
    simp only [le_def, mk.injEq] at *
    omega
  le_total c d := by
    simp only [le_def]
    omega
  toDecidableLE _ _ := inferInstanceAs (Decidable (_ ∨ _ ∧ _))
  toDecidableEq := inferInstance

def next (c : SizeClass) : SizeClass := if c.sl + 1 < 32 then ⟨c.fl, c.sl + 1⟩ else ⟨c.fl + 1, 0⟩

theorem next_slot_lt (c : SizeClass) : c.next.sl < 32 := by
  unfold next
  split
  · assumption
  · exact Nat.zero_lt_succ 31

theorem next_le_iff {c d : SizeClass} (slotc : c.sl < 32) (slotd : d.sl < 32) :
    c.next ≤ d ↔ ¬ d ≤ c := by
  unfold next
  split <;> simp only [le_def] <;> omega

/-- The class has a list in the index. -/
structure Inside (c : SizeClass) : Prop where
  row : c.fl < 24
  slot : c.sl < 32

def floor (c : SizeClass) : Nat := if c.fl = 0 then 8 * c.sl else (32 + c.sl) * 2 ^ (c.fl + 2)

theorem ofSize_small {size : Nat} (small : size < 256) : ofSize size = ⟨0, size / 8⟩ := if_pos small

theorem ofSize_large {size : Nat} (large : 256 ≤ size) :
    ofSize size = ⟨size.log2 - 7, size / 2 ^ (size.log2 - 5) - 32⟩ := by
  rw [← Nat.shiftRight_eq_div_pow]
  exact if_neg (Nat.not_lt.mpr large)

theorem log2_bounds {size : Nat} (large : 256 ≤ size) :
    8 ≤ size.log2 ∧ 32 * 2 ^ (size.log2 - 5) ≤ size ∧ size < 64 * 2 ^ (size.log2 - 5) := by
  have top : 8 ≤ size.log2 := (Nat.le_log2 (by omega)).mpr large
  have below : 2 ^ size.log2 ≤ size := Nat.log2_self_le (by omega)
  have above : size < 2 ^ (size.log2 + 1) := Nat.lt_log2_self
  have parts : 2 ^ size.log2 = 2 ^ 5 * 2 ^ (size.log2 - 5) := by
    rw [← Nat.pow_add, Nat.add_sub_cancel' (by omega)]
  rw [Nat.pow_succ, parts] at above
  rw [parts] at below
  exact ⟨top, below, by omega⟩

theorem ofSize_row_le {size row : Nat} (bound : size < 2 ^ (row + 8)) : (ofSize size).fl ≤ row := by
  rcases Nat.lt_or_ge size 256 with small | large
  · rw [ofSize_small small]
    exact Nat.zero_le row
  · have top : size.log2 < row + 8 := (Nat.log2_lt (by omega)).mpr bound
    rw [ofSize_large large]
    change size.log2 - 7 ≤ row
    omega

theorem ofSize_inside {size : Nat} (bound : size < payloadLimit) : (ofSize size).Inside :=
  ⟨Nat.lt_succ_of_le (ofSize_row_le bound), ofSize_slot_lt size⟩

theorem floor_first {c : SizeClass} (first : c.fl = 0) : c.floor = 8 * c.sl := if_pos first

theorem floor_row {c : SizeClass} (row : c.fl ≠ 0) : c.floor = (32 + c.sl) * 2 ^ (c.fl + 2) :=
  if_neg row

theorem pow_le_floor {c : SizeClass} (row : c.fl ≠ 0) : 2 ^ (c.fl + 7) ≤ c.floor := by
  rw [floor_row row, Nat.pow_add 2 c.fl 7, Nat.pow_add 2 c.fl 2, ← Nat.mul_assoc,
    Nat.mul_comm (32 + c.sl)]
  have := Nat.mul_le_mul_left (2 ^ c.fl) (show 128 ≤ (32 + c.sl) * 4 by omega)
  rw [Nat.mul_assoc]
  exact this

theorem floor_lt_pow {c : SizeClass} (slot : c.sl < 32) : c.floor < 2 ^ (c.fl + 8) := by
  rcases Nat.eq_zero_or_pos c.fl with zero | pos
  · rw [floor_first zero, zero]
    omega
  · rw [floor_row (Nat.pos_iff_ne_zero.mp pos), show c.fl + 8 = 6 + (c.fl + 2) by omega,
      Nat.pow_add 2 6]
    exact Nat.mul_lt_mul_of_pos_right (by omega) (Nat.two_pow_pos _)

def width (c : SizeClass) : Nat := if c.fl = 0 then 8 else 2 ^ (c.fl + 2)

theorem floor_next {c : SizeClass} (slot : c.sl < 32) : c.next.floor = c.floor + c.width := by
  unfold width next
  rcases Nat.eq_zero_or_pos c.fl with zero | pos
  · rw [if_pos zero, floor_first zero]
    split
    · rw [floor_first (c := ⟨c.fl, c.sl + 1⟩) zero, Nat.mul_succ]
    · rw [floor_row (by simp), zero]
      simp only
      omega
  · have row : c.fl ≠ 0 := Nat.pos_iff_ne_zero.mp pos
    rw [if_neg row, floor_row row]
    split
    · rw [floor_row (c := ⟨c.fl, c.sl + 1⟩) row, ← Nat.add_assoc, Nat.succ_mul]
    · rw [floor_row (by simp)]
      simp only
      have last : c.sl = 31 := by omega
      have double : 2 ^ (c.fl + 1 + 2) = 2 ^ (c.fl + 2) * 2 := by
        rw [show c.fl + 1 + 2 = c.fl + 2 + 1 by omega, Nat.pow_succ]
      rw [last, double]
      omega

theorem le_ofSize_iff {c : SizeClass} (slot : c.sl < 32) (size : Nat) :
    c ≤ ofSize size ↔ c.floor ≤ size := by
  rcases Nat.lt_or_ge size 256 with small | large
  · rw [ofSize_small small, le_mk]
    rcases Nat.eq_zero_or_pos c.fl with zero | pos
    · rw [floor_first zero]
      omega
    · have low := pow_le_floor (Nat.pos_iff_ne_zero.mp pos)
      have large : 2 ^ 8 ≤ 2 ^ (c.fl + 7) := Nat.pow_le_pow_right (by omega) (by omega)
      omega
  · obtain ⟨top, below, above⟩ := log2_bounds large
    have unit := Nat.two_pow_pos (size.log2 - 5)
    rw [ofSize_large large, le_mk]
    rcases Nat.lt_trichotomy c.fl (size.log2 - 7) with under | same | beyond
    · have high := floor_lt_pow slot
      have reach : 2 ^ (c.fl + 8) ≤ 2 ^ (5 + (size.log2 - 5)) :=
        Nat.pow_le_pow_right (by omega) (by omega)
      rw [Nat.pow_add 2 5] at reach
      exact iff_of_true (.inl under) (by omega)
    · have row : c.fl ≠ 0 := by omega
      have exponent : c.fl + 2 = size.log2 - 5 := by omega
      have slots : 32 ≤ size / 2 ^ (size.log2 - 5) := (Nat.le_div_iff_mul_le unit).mpr below
      rw [floor_row row, exponent, ← Nat.le_div_iff_mul_le unit]
      omega
    · have low := pow_le_floor (c := c) (by omega)
      have reach : 2 ^ (6 + (size.log2 - 5)) ≤ 2 ^ (c.fl + 7) :=
        Nat.pow_le_pow_right (by omega) (by omega)
      rw [Nat.pow_add 2 6] at reach
      omega

theorem floor_mono {c d : SizeClass} (slotc : c.sl < 32) (slotd : d.sl < 32) (le : c ≤ d) :
    c.floor ≤ d.floor :=
  (le_ofSize_iff slotc _).mp (le_trans le ((le_ofSize_iff slotd _).mpr (Nat.le_refl _)))

/-- Some class of the row of `size`, or the first one of the next row, starts
within one slot above `size`. -/
theorem exists_floor {size : Nat} (large : 256 ≤ size) :
    ∃ c : SizeClass, c.sl < 32 ∧ size ≤ c.floor ∧ c.floor ≤ size + 2 ^ (size.log2 - 5) - 1 := by
  obtain ⟨top, below, above⟩ := log2_bounds large
  have unit := Nat.two_pow_pos (size.log2 - 5)
  -- `m` slots are the least number that holds `size`
  obtain ⟨m, holds, least⟩ : ∃ m, size ≤ m * 2 ^ (size.log2 - 5) ∧
      m * 2 ^ (size.log2 - 5) ≤ size + 2 ^ (size.log2 - 5) - 1 := by
    have split := Nat.div_add_mod (size + 2 ^ (size.log2 - 5) - 1) (2 ^ (size.log2 - 5))
    have rest := Nat.mod_lt (size + 2 ^ (size.log2 - 5) - 1) unit
    rw [Nat.mul_comm] at split
    exact ⟨(size + 2 ^ (size.log2 - 5) - 1) / 2 ^ (size.log2 - 5), by omega, by omega⟩
  have low : 32 ≤ m := Nat.le_of_mul_le_mul_right (Nat.le_trans below holds) unit
  have high : m < 65 := by
    refine Nat.lt_of_mul_lt_mul_right (a := 2 ^ (size.log2 - 5)) ?_
    omega
  rcases Nat.lt_or_ge m 64 with inside | last
  · have row : (⟨size.log2 - 7, m - 32⟩ : SizeClass).fl ≠ 0 := by
      change size.log2 - 7 ≠ 0
      omega
    have value : (⟨size.log2 - 7, m - 32⟩ : SizeClass).floor = m * 2 ^ (size.log2 - 5) := by
      rw [floor_row row]
      congr 2 <;> simp only <;> omega
    exact ⟨⟨size.log2 - 7, m - 32⟩, by simp only; omega, by omega, by omega⟩
  · have full : m = 64 := by omega
    have row : (⟨size.log2 - 6, 0⟩ : SizeClass).fl ≠ 0 := by
      change size.log2 - 6 ≠ 0
      omega
    have value : (⟨size.log2 - 6, 0⟩ : SizeClass).floor = m * 2 ^ (size.log2 - 5) := by
      rw [floor_row row, full]
      change (32 + 0) * 2 ^ (size.log2 - 6 + 2) = _
      rw [show size.log2 - 6 + 2 = size.log2 - 5 + 1 by omega, Nat.pow_succ]
      omega
    exact ⟨⟨size.log2 - 6, 0⟩, by simp, by omega, by omega⟩

/-- The power of two that is added to `size` in rounding it up is no wider than a class that holds
`size` bytes in all its blocks. -/
theorem unit_le_width {size : Nat} {c : SizeClass} (large : 256 ≤ size) (slot : c.sl < 32)
    (holds : size ≤ c.floor) : 2 ^ (size.log2 - 5) ≤ c.width := by
  have below : 2 ^ size.log2 ≤ size := Nat.log2_self_le (by omega)
  have above := floor_lt_pow slot
  have reach : 2 ^ size.log2 < 2 ^ (c.fl + 8) := by omega
  have top : size.log2 < c.fl + 8 := (Nat.pow_lt_pow_iff_right (by omega)).mp reach
  have row : c.fl ≠ 0 := by
    intro zero
    rw [floor_first zero] at holds
    omega
  rw [width, if_neg row]
  exact Nat.pow_le_pow_right (by omega) (by omega)

theorem roundUp_spec {size : Nat} (granular : size < 256 → size % 8 = 0)
    (fits : 256 ≤ size → size + 2 ^ (size.log2 - 5) < UInt64.size) :
    ∃ c, roundUp size = .ok c ∧ c.sl < 32 ∧
      ∀ d : SizeClass, d.sl < 32 → (c ≤ d ↔ size ≤ d.floor) := by
  rcases Nat.lt_or_ge size 256 with small | large
  · refine ⟨ofSize size, if_pos small, ofSize_slot_lt size, fun d slot => ?_⟩
    have multiple := granular small
    rw [ofSize_small small, le_def]
    rcases Nat.eq_zero_or_pos d.fl with zero | pos
    · rw [floor_first zero]
      simp only
      omega
    · have low := pow_le_floor (Nat.pos_iff_ne_zero.mp pos)
      have reach : 2 ^ 8 ≤ 2 ^ (d.fl + 7) := Nat.pow_le_pow_right (by omega) (by omega)
      exact iff_of_true (.inl pos) (by omega)
  · refine ⟨ofSize (size + 2 ^ (size.log2 - 5) - 1), ?_, ofSize_slot_lt _,
      fun d slot => ⟨fun le => ?_, fun holds => ?_⟩⟩
    · have past : ¬ size < smallLimit := Nat.not_lt.mpr large
      have sum := fits large
      rw [← Nat.one_shiftLeft] at sum ⊢
      simp only [roundUp, if_neg past, slotBits, Checked.add_eq_ok sum, Checked.ok_bind,
        Checked.pure_eq]
    · obtain ⟨c, slotc, holds, least⟩ := exists_floor large
      have above : c ≤ d := le_trans ((le_ofSize_iff slotc _).mpr least) le
      exact Nat.le_trans holds (floor_mono slotc slot above)
    · by_contra other
      have beyond := (next_le_iff slot (ofSize_slot_lt _)).mpr other
      have wide := unit_le_width large slot holds
      rw [le_ofSize_iff (next_slot_lt d), floor_next slot] at beyond
      have unit := Nat.two_pow_pos (size.log2 - 5)
      omega

theorem roundUp_eq {size : Nat} (bound : size < payloadLimit) (granular : size % 8 = 0) :
    ∃ c, roundUp size = .ok c ∧ c.sl < 32 ∧ size ≤ c.floor := by
  have fits : 256 ≤ size → size + 2 ^ (size.log2 - 5) < UInt64.size := by
    intro large
    have unit := (log2_bounds large).2.1
    simp only [payloadLimit, UInt64.size] at *
    omega
  obtain ⟨c, rounded, slot, least⟩ := roundUp_spec (fun _ => granular) fits
  exact ⟨c, rounded, slot, (least c slot).mp le_rfl⟩

theorem lowerBound_eq {c : SizeClass} (row : c.fl ≤ 56) (slot : c.sl < 32) :
    c.lowerBound = .ok c.floor := by
  by_cases first : c.fl = 0
  · rw [lowerBound, if_pos first, floor_first first]
    simp only [smallLimit, slotCount]
    rw [Checked.mul_eq_ok (by simp only [UInt64.size]; omega), Nat.mul_comm]
  · have shift : c.fl % UInt32.size + (smallBits - 1) = c.fl + 7 := by
      simp only [UInt32.size, smallBits]
      omega
    have unit : 2 ^ (c.fl + 7) = 32 * 2 ^ (c.fl + 2) := by
      rw [show c.fl + 7 = 5 + (c.fl + 2) by omega, Nat.pow_add]
    have slots : 2 ^ (c.fl + 7) / slotCount = 2 ^ (c.fl + 2) := by
      rw [unit, slotCount, Nat.mul_div_cancel_left _ (by omega)]
    have floor : 2 ^ (c.fl + 7) + c.sl * 2 ^ (c.fl + 2) = c.floor := by
      rw [floor_row first, Nat.add_mul, unit]
    have fits : c.floor < UInt64.size :=
      Nat.lt_of_lt_of_le (floor_lt_pow slot)
        (Nat.pow_le_pow_right (by omega) (by omega : c.fl + 8 ≤ 64))
    rw [lowerBound, if_neg first]
    simp only [shift, if_pos (show c.fl + 7 < 64 by omega), Nat.one_shiftLeft, slots]
    rw [Checked.mul_eq_ok (by omega), Checked.ok_bind, Checked.add_eq_ok (by omega), floor]

end Tlsf.SizeClass
