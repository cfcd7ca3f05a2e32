import Tlsf.Buffer
import Tlsf.Dimensions
import Tlsf.SizeWord

/-!
Blocks as they lie in the buffer. A block is named by the offset `h` of its
header:

    h      : offset of the physical predecessor's header
    h + 4  : size word
    h + 8  : payload

The back pointer is meaningful only while the size word says that the
predecessor is free. While a block is free, its payload starts with its
free-list links, the next block at `h + 8` and the previous one at `h + 12`.
Nothing here decides when a block changes; that is the arena's part.
-/

namespace Tlsf.Block

open Dimensions

/-- Stands for no block in a free-list link. -/
def nullLink : UInt32 := 0xFFFFFFFF

def decodeLink (raw : UInt32) : Option Nat :=
  if raw = nullLink then none else some raw.toNat

/-- Keeps the low 32 bits of an offset. -/
def encodeLink : Option Nat → UInt32
  | none => nullLink
  | some offset => .ofNat offset

theorem decodeLink_encodeLink {link : Option Nat} (fits : ∀ o ∈ link, o < nullLink.toNat) :
    decodeLink (encodeLink link) = link := by
  cases link with
  | none => rfl
  | some o =>
    have bound := fits o rfl
    have small : o < UInt32.size := Nat.lt_of_lt_of_le bound (by decide)
    have back : (UInt32.ofNat o).toNat = o := by simp [UInt32.toNat_ofNat', Nat.mod_eq_of_lt small]
    have other : UInt32.ofNat o ≠ nullLink := by
      intro e
      rw [← e, back] at bound
      omega
    simp [encodeLink, decodeLink, other, back]

/-! Size word -/

def word (b : Buffer) (h : Nat) : Checked SizeWord := do
  pure ⟨← b.readWord (h + 4)⟩

def setWord (b : Buffer) (h : Nat) (w : SizeWord) : Checked Buffer :=
  b.writeWord (h + 4) w.raw

def size (b : Buffer) (h : Nat) : Checked Nat := do
  pure (← word b h).size

/-- Replaces the size and keeps both flags. -/
def setSize (b : Buffer) (h size : Nat) : Checked Buffer := do
  let w ← (← word b h).withSize size
  setWord b h w

/-- The header that ends the pool is the only one without a payload. -/
def isLast (b : Buffer) (h : Nat) : Checked Bool := do
  pure ((← size b h) == 0)

def isFree (b : Buffer) (h : Nat) : Checked Bool := do
  pure (← word b h).isFree

def setFree (b : Buffer) (h : Nat) (free : Bool) : Checked Buffer := do
  setWord b h ((← word b h).withFree free)

def isPrevFree (b : Buffer) (h : Nat) : Checked Bool := do
  pure (← word b h).isPrevFree

def setPrevFree (b : Buffer) (h : Nat) (prevFree : Bool) : Checked Buffer := do
  setWord b h ((← word b h).withPrevFree prevFree)

/-! Payload offsets -/

def payloadOf (h : Nat) : Checked Nat := Checked.add h headerSize

def headerOf (payload : Nat) : Checked Nat := Checked.sub payload headerSize

/-! Physical neighbours -/

/-- The physical predecessor, which must be free. -/
def prevPhysical (b : Buffer) (h : Nat) : Checked Nat := do
  Checked.require ((← isPrevFree b h) = true)
  pure (← b.readWord h).toNat

/-- The header after the payload; the header that ends the pool has none. -/
def nextPhysical (b : Buffer) (h : Nat) : Checked Nat := do
  Checked.require ((← isLast b h) = false)
  pure (h + headerSize + (← size b h))

def linkNext (b : Buffer) (h : Nat) : Checked (Nat × Buffer) := do
  let next ← nextPhysical b h
  pure (next, ← b.writeWord next (.ofNat h))

/-- Marks a block free in its own size word and in its successor's. -/
def markFree (b : Buffer) (h : Nat) : Checked Buffer := do
  let (next, b) ← linkNext b h
  let b ← setPrevFree b next true
  setFree b h true

def markUsed (b : Buffer) (h : Nat) : Checked Buffer := do
  let next ← nextPhysical b h
  let b ← setPrevFree b next false
  setFree b h false

/-! Free-list links -/

def nextLink (b : Buffer) (h : Nat) : Checked (Option Nat) := do
  pure (decodeLink (← b.readWord (h + headerSize)))

def prevLink (b : Buffer) (h : Nat) : Checked (Option Nat) := do
  pure (decodeLink (← b.readWord (h + headerSize + 4)))

def setNextLink (b : Buffer) (h : Nat) (link : Option Nat) : Checked Buffer :=
  b.writeWord (h + headerSize) (encodeLink link)

def setPrevLink (b : Buffer) (h : Nat) (link : Option Nat) : Checked Buffer :=
  b.writeWord (h + headerSize + 4) (encodeLink link)

/-! Splitting and joining -/

/-- Whether a payload of `size` bytes leaves room for one more block behind it. -/
def canSplit (b : Buffer) (h size : Nat) : Checked Bool := do
  let whole ← Block.size b h
  let needed ← Checked.add size (headerSize + minPayload)
  pure (needed ≤ whole)

/-- Shrinks the block to `size` bytes and makes the tail a free block, which
learns whether the front is free. The tail is on no free list yet. -/
def split (b : Buffer) (h size : Nat) : Checked (Nat × Buffer) := do
  Checked.require ((← canSplit b h size) = true)
  let tail := h + headerSize + size
  let tailSize := (← Block.size b h) - (size + headerSize)
  let free ← isFree b h
  let b ← setSize b h size
  let b ← b.writeWord tail (.ofNat h)
  let w ← SizeWord.ofSize tailSize
  let b ← setWord b tail (w.withPrevFree free)
  let b ← markFree b tail
  pure (tail, b)

def absorb (b : Buffer) (prev h : Nat) : Checked Buffer := do
  Checked.require ((← isLast b prev) = false)
  Checked.require ((← nextPhysical b prev) = h)
  let total := (← size b prev) + (← size b h) + headerSize
  let b ← setSize b prev total
  let (_, b) ← linkNext b prev
  pure b

/-- Overwrites the payload behind the free-list links. -/
def stomp (b : Buffer) (h : Nat) (pattern : UInt8) : Checked Buffer := do
  let start := h + headerSize + linksSize
  let stop := h + headerSize + (← size b h)
  if start < stop then b.fill start (stop - start) pattern else pure b

end Tlsf.Block
