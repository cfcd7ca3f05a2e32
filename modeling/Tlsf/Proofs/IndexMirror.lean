import Mathlib.Logic.Function.Basic
import Tlsf.FreeIndex
import Tlsf.Proofs.BitmapSearch
import Tlsf.Proofs.SizeClasses

/-!
The free index against the lists that it stands for. `Mirrors index lists`
says that every head is the first block of its list, that a slot bit is set
for each list that is not empty, and a row bit for each row that is not zero.
Changing a head keeps this, and a search ends at a list with a block in it.
-/

namespace Tlsf.FreeIndex

open Dimensions

structure Mirrors (index : FreeIndex) (lists : SizeClass → List Nat) : Prop where
  head : ∀ (c : SizeClass) (_ : c.fl < 24) (_ : c.sl < 32),
    index.heads[c.fl][c.sl] = (lists c).head?
  slot : ∀ (c : SizeClass) (_ : c.fl < 24), c.sl < 32 →
    index.slots[c.fl].getLsbD c.sl = (lists c).head?.isSome
  row : ∀ fl (h : fl < 24), index.rows.getLsbD fl = decide (index.slots[fl] ≠ 0)
  blank : ∀ fl ≥ 24, index.rows.getLsbD fl = false

theorem getLsbD_bit {position : Nat} (h : position < 32) (i : Nat) :
    (bit position).getLsbD i = decide (i = position) := by
  simp only [bit, BitVec.getLsbD_shiftLeft, BitVec.getLsbD_one]
  by_cases same : i = position
  · simp [same, h]
  · rcases Nat.lt_or_gt_of_ne same with below | above
    · simp [below, same]
    · simp [same, Nat.sub_eq_zero_iff_le, Nat.not_le.mpr above]

theorem getLsbD_setBit {bits : BitVec 32} {position : Nat} (h : position < 32) (on : Bool) (i : Nat) :
    (if on then bits ||| bit position else bits &&& ~~~ bit position).getLsbD i =
      if i = position then on else bits.getLsbD i := by
  cases on
  · by_cases same : i = position
    · simp [same, getLsbD_bit h]
    · by_cases inside : i < 32
      · have clear : (bit position).getLsbD i = false := by simp [getLsbD_bit h, same]
        simp only [Bool.false_eq_true, if_false, BitVec.getLsbD_and, BitVec.getLsbD_not, clear, same]
        simp [inside]
      · simp [same, BitVec.getLsbD_of_ge _ _ (Nat.not_lt.mp inside)]
  · by_cases same : i = position
    · simp [same, getLsbD_bit h]
    · simp [same, getLsbD_bit h]

theorem mirrors_empty : empty.Mirrors fun _ => [] := by
  refine ⟨fun c _ _ => ?_, fun c _ _ => ?_, fun fl h => ?_, fun fl _ => ?_⟩ <;> simp [empty]

namespace Mirrors

variable {index : FreeIndex} {lists : SizeClass → List Nat}

theorem head_eq (m : index.Mirrors lists) {c : SizeClass} (i : c.Inside) :
    index.head c = .ok (lists c).head? := by
  have row := i.row
  have slot := i.slot
  simp only [FreeIndex.head, Vector.getElem?_eq_getElem row, Checked.ofOption, Checked.ok_bind,
    Vector.getElem?_eq_getElem slot]
  rw [m.head c row slot]

theorem congr {lists' : SizeClass → List Nat} (m : index.Mirrors lists)
    (same : ∀ c, (lists' c).head? = (lists c).head?) : index.Mirrors lists' := by
  refine ⟨fun c row slot => ?_, fun c row slot => ?_, m.row, m.blank⟩
  · rw [same c, m.head c row slot]
  · rw [same c, m.slot c row slot]

theorem setHead (m : index.Mirrors lists) {c : SizeClass} (inside : c.Inside) (l : List Nat) :
    ∃ index', index.setHead c l.head? = .ok index' ∧ index'.Mirrors (Function.update lists c l) := by
  obtain ⟨fl, sl⟩ := c
  have row : fl < 24 := inside.row
  have slot : sl < 32 := inside.slot
  let bits := if l.head?.isSome then index.slots[fl] ||| bit sl else index.slots[fl] &&& ~~~ bit sl
  let rows := if bits = 0 then index.rows &&& ~~~ bit fl else index.rows ||| bit fl
  -- the row bit is set again from all the slots of the row, not from this one alone
  have rowBit : ∀ i, rows.getLsbD i = if i = fl then decide (bits ≠ 0) else index.rows.getLsbD i := by
    intro i
    rw [← getLsbD_setBit (by omega)]
    by_cases zero : bits = 0 <;> simp [rows, zero]
  refine ⟨⟨rows, index.slots.set fl bits, index.heads.set fl (index.heads[fl].set sl l.head?)⟩,
    dif_pos ⟨row, slot⟩, ⟨?_, ?_, ?_, ?_⟩⟩
  · rintro ⟨fl', sl'⟩ row' slot'
    have old := m.head ⟨fl', sl'⟩ row' slot'
    by_cases sameRow : fl = fl'
    · subst sameRow
      by_cases sameSlot : sl = sl'
      · subst sameSlot
        simp
      · have other : (⟨fl, sl'⟩ : SizeClass) ≠ ⟨fl, sl⟩ := by simp [Ne.symm sameSlot]
        simpa [Vector.getElem_set, sameSlot, Function.update_of_ne other] using old
    · have other : (⟨fl', sl'⟩ : SizeClass) ≠ ⟨fl, sl⟩ := by simp [Ne.symm sameRow]
      simpa [Vector.getElem_set, sameRow, Function.update_of_ne other] using old
  · rintro ⟨fl', sl'⟩ row' slot'
    have old := m.slot ⟨fl', sl'⟩ row' slot'
    by_cases sameRow : fl = fl'
    · subst sameRow
      simp only [Vector.getElem_set_self, bits, getLsbD_setBit slot]
      by_cases sameSlot : sl = sl'
      · subst sameSlot
        simp
      · have other : (⟨fl, sl'⟩ : SizeClass) ≠ ⟨fl, sl⟩ := by simp [Ne.symm sameSlot]
        simpa [Ne.symm sameSlot, Function.update_of_ne other] using old
    · have other : (⟨fl', sl'⟩ : SizeClass) ≠ ⟨fl, sl⟩ := by simp [Ne.symm sameRow]
      simpa [Vector.getElem_set, sameRow, Function.update_of_ne other] using old
  · intro fl' h
    rw [rowBit]
    by_cases same : fl' = fl
    · subst same
      simp
    · simpa [same, Vector.getElem_set, Ne.symm same] using m.row fl' h
  · intro fl' h
    rw [rowBit, if_neg (by omega)]
    exact m.blank fl' h

theorem bitmaps_unique {index' : FreeIndex} {lists' : SizeClass → List Nat}
    (m : index.Mirrors lists) (m' : index'.Mirrors lists')
    (empty : ∀ c, lists c = [] ↔ lists' c = []) :
    index.rows = index'.rows ∧ index.slots = index'.slots := by
  have slots : index.slots = index'.slots := by
    refine Vector.ext fun fl row => BitVec.eq_of_getLsbD_eq fun sl slot => ?_
    rw [m.slot ⟨fl, sl⟩ row slot, m'.slot ⟨fl, sl⟩ row slot, Bool.eq_iff_iff,
      Option.isSome_iff_ne_none, Option.isSome_iff_ne_none, ne_eq, ne_eq, List.head?_eq_none_iff,
      List.head?_eq_none_iff, empty]
  refine ⟨BitVec.eq_of_getLsbD_eq fun fl _ => ?_, slots⟩
  by_cases row : fl < 24
  · simp only [m.row fl row, m'.row fl row, slots]
  · rw [m.blank fl (Nat.not_lt.mp row), m'.blank fl (Nat.not_lt.mp row)]

theorem unique {index' : FreeIndex} (m : index.Mirrors lists) (m' : index'.Mirrors lists) :
    index = index' := by
  obtain ⟨rows, slots⟩ := m.bitmaps_unique m' fun _ => Iff.rfl
  have heads : index.heads = index'.heads := by
    refine Vector.ext fun fl row => Vector.ext fun sl slot => ?_
    rw [m.head ⟨fl, sl⟩ row slot, m'.head ⟨fl, sl⟩ row slot]
  obtain ⟨_, _, _⟩ := index
  obtain ⟨_, _, _⟩ := index'
  cases slots
  cases heads
  cases rows
  rfl

theorem summarized (m : index.Mirrors lists) : index.Summarized := by
  refine ⟨fun fl h => ?_, fun fl _ => m.blank fl⟩
  rw [m.row fl h, decide_eq_true_eq]

theorem marks_eq (m : index.Mirrors lists) {c : SizeClass} (inside : c.Inside) :
    index.marks c = (lists c).head?.isSome := by
  rw [← m.slot c inside.row inside.slot, marks, Vector.getElem?_eq_getElem inside.row,
    Option.getD_some]

theorem firstFrom?_some (m : index.Mirrors lists) {c d : SizeClass}
    (found : index.firstFrom? c = some d) : c ≤ d ∧ d.Inside ∧ (lists d).head?.isSome := by
  have search := m.summarized.search c
  rw [found] at search
  obtain ⟨above, marked⟩ := (m.summarized.search_least search).1
  have inside := marks_inside marked
  rw [m.marks_eq inside] at marked
  exact ⟨above, inside, marked⟩

theorem firstFrom?_none (m : index.Mirrors lists) {c d : SizeClass}
    (missed : index.firstFrom? c = none) (above : c ≤ d) (inside : d.Inside) : lists d = [] := by
  have search := m.summarized.search c
  rw [missed] at search
  have unmarked := candidates_eq_empty.mp (m.summarized.search_none search) d above
  rw [m.marks_eq inside, ← Bool.not_eq_true, Option.not_isSome_iff_eq_none] at unmarked
  exact List.head?_eq_none_iff.mp unmarked

end Mirrors

end Tlsf.FreeIndex
