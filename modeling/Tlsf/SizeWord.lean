import Tlsf.Checked

/-!
The size word of a block header: the payload size with two flags in its low
bits. Bit 0 says that the block is free, bit 1 that its physical predecessor
is free. Sizes are multiples of 4 below `2 ^ 32`; a size with a low bit set
has no size word.
-/

namespace Tlsf

structure SizeWord where
  raw : UInt32
deriving DecidableEq, Repr

namespace SizeWord

def ofParts (size : Nat) (free prevFree : Bool) : SizeWord :=
  ⟨.ofNat (size + free.toNat + 2 * prevFree.toNat)⟩

def size (w : SizeWord) : Nat := w.raw.toNat / 4 * 4

def isFree (w : SizeWord) : Bool := w.raw.toNat % 2 == 1

def isPrevFree (w : SizeWord) : Bool := w.raw.toNat / 2 % 2 == 1

/-- Replaces the size and keeps both flags. -/
def withSize (w : SizeWord) (size : Nat) : Checked SizeWord := do
  Checked.require (size < UInt32.size)
  Checked.require (size % 4 = 0)
  pure (ofParts size w.isFree w.isPrevFree)

def withFree (w : SizeWord) (free : Bool) : SizeWord := ofParts w.size free w.isPrevFree

def withPrevFree (w : SizeWord) (prevFree : Bool) : SizeWord := ofParts w.size w.isFree prevFree

/-- A used block of `size` bytes after a used block. -/
def ofSize (size : Nat) : Checked SizeWord := withSize ⟨0⟩ size

theorem toNat_ofParts {size : Nat} (free prevFree : Bool) (fits : size < UInt32.size)
    (aligned : size % 4 = 0) :
    (ofParts size free prevFree).raw.toNat = size + free.toNat + 2 * prevFree.toNat := by
  have a : free.toNat ≤ 1 := Bool.toNat_le free
  have b : prevFree.toNat ≤ 1 := Bool.toNat_le prevFree
  simp only [ofParts, UInt32.toNat_ofNat']
  simp only [UInt32.size] at fits
  omega

theorem size_ofParts {size : Nat} (free prevFree : Bool) (fits : size < UInt32.size)
    (aligned : size % 4 = 0) : (ofParts size free prevFree).size = size := by
  have a : free.toNat ≤ 1 := Bool.toNat_le free
  have b : prevFree.toNat ≤ 1 := Bool.toNat_le prevFree
  simp only [SizeWord.size, toNat_ofParts free prevFree fits aligned]
  omega

theorem isFree_ofParts {size : Nat} (free prevFree : Bool) (fits : size < UInt32.size)
    (aligned : size % 4 = 0) : (ofParts size free prevFree).isFree = free := by
  simp only [isFree, toNat_ofParts free prevFree fits aligned]
  cases free <;> cases prevFree <;> simp <;> omega

theorem isPrevFree_ofParts {size : Nat} (free prevFree : Bool) (fits : size < UInt32.size)
    (aligned : size % 4 = 0) : (ofParts size free prevFree).isPrevFree = prevFree := by
  simp only [isPrevFree, toNat_ofParts free prevFree fits aligned]
  cases free <;> cases prevFree <;> simp <;> omega

theorem size_lt (w : SizeWord) : w.size < UInt32.size := by
  have bound := w.raw.toNat_lt
  simp only [size, UInt32.size]
  omega

theorem size_mod_four (w : SizeWord) : w.size % 4 = 0 := by
  simp only [size]
  omega

end SizeWord

end Tlsf
