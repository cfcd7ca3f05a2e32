import Tlsf.SizeClass

/-!
The free index: the head of the free list of every class, and two levels of
bitmaps that say which lists are not empty. Bit `fl` of `rows` is set when row
`fl` of `slots` is not zero, and bit `sl` of `slots[fl]` when the list of
`(fl, sl)` has a head, so the first non-empty class at or above another one is
found from at most three words.
-/

namespace Tlsf

open Dimensions

structure FreeIndex where
  rows : BitVec 32
  slots : Vector (BitVec 32) 24
  heads : Vector (Vector (Option Nat) 32) 24
deriving DecidableEq

namespace FreeIndex

def empty : FreeIndex where
  rows := 0
  slots := Vector.replicate 24 0
  heads := Vector.replicate 24 (Vector.replicate 32 none)

def lowestBit? (bits : BitVec 32) : Option Nat :=
  (List.range 32).find? fun i => bits.getLsbD i

theorem lowestBit?_eq_some {bits : BitVec 32} {i : Nat} (h : lowestBit? bits = some i) :
    bits.getLsbD i = true ∧ ∀ j < i, bits.getLsbD j = false := by
  simp only [lowestBit?, List.find?_range_eq_some, Bool.not_eq_eq_eq_not, Bool.not_true] at h
  exact ⟨h.1, h.2.2⟩

theorem lowestBit?_eq_none {bits : BitVec 32} : lowestBit? bits = none ↔ bits = 0 := by
  constructor
  · intro h
    apply BitVec.eq_of_getLsbD_eq
    intro i hi
    have := List.find?_eq_none.mp h i (List.mem_range.mpr hi)
    simpa using this
  · rintro rfl
    exact List.find?_eq_none.mpr (by simp)

def bitsFrom (bits : BitVec 32) (position : Nat) : BitVec 32 :=
  bits &&& (BitVec.allOnes 32 <<< position)

theorem getLsbD_bitsFrom (bits : BitVec 32) (position i : Nat) :
    (bitsFrom bits position).getLsbD i = (bits.getLsbD i && decide (position ≤ i)) := by
  simp only [bitsFrom, BitVec.getLsbD_and, BitVec.getLsbD_shiftLeft, BitVec.getLsbD_allOnes]
  by_cases inside : i < 32
  · by_cases le : position ≤ i
    · have near : i - position < 32 := by omega
      simp [inside, le, near, Nat.not_lt.mpr le]
    · simp [le, Nat.lt_of_not_le le]
  · have out : bits.getLsbD i = false := BitVec.getLsbD_of_ge bits i (by omega)
    simp [out]

def bit (position : Nat) : BitVec 32 := 1#32 <<< position

def head (index : FreeIndex) (c : SizeClass) : Checked (Option Nat) := do
  let row ← Checked.ofOption index.heads[c.fl]?
  Checked.ofOption row[c.sl]?

/-- Replaces the head of a class's list and keeps both bitmaps in step. -/
def setHead (index : FreeIndex) (c : SizeClass) (head : Option Nat) : Checked FreeIndex :=
  if h : c.fl < 24 ∧ c.sl < 32 then
    let row := index.slots[c.fl]
    let row' := if head.isSome then row ||| bit c.sl else row &&& ~~~ bit c.sl
    let rows := if row' = 0 then index.rows &&& ~~~ bit c.fl else index.rows ||| bit c.fl
    .ok {
      rows
      slots := index.slots.set c.fl row'
      heads := index.heads.set c.fl (index.heads[c.fl].set c.sl head) }
  else .error .outOfBounds

/-- The first class at or above `c`, row by row, whose list is not empty. -/
def firstFrom? (index : FreeIndex) (c : SizeClass) : Option SizeClass := do
  let row ← index.slots[c.fl]?
  match lowestBit? (bitsFrom row c.sl) with
  | some sl => some ⟨c.fl, sl⟩
  | none =>
    let fl ← lowestBit? (bitsFrom index.rows (c.fl + 1))
    let row ← index.slots[fl]?
    let sl ← lowestBit? row
    some ⟨fl, sl⟩

end FreeIndex

end Tlsf
