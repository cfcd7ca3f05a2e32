import Tlsf.Pool

/-!
Which pointers the pool vouches for. A pointer is live when it is the payload
offset of a block that this pool has handed out; the header and the tag in the
successor have to agree with that, so a damaged block is refused too.
-/

namespace Tlsf.Pool

open Dimensions

def violation? (p : Pool) (ptr : Pointer) : Checked (Option Violation) := do
  let offset := ptr.offset
  if offset < p.layout.firstBlock + headerSize ∨ p.layout.sentinel ≤ offset then
    pure (some (.outside ptr))
  else if offset % alignment ≠ 0 then
    pure (some (.misaligned ptr))
  else
    let h ← Block.headerOf offset
    if h ∉ p.arena.live then
      pure (some (.notLive ptr))
    else
      let w ← Block.word p.buffer h
      if w.size < minPayload ∨ w.size % alignment ≠ 0 ∨ p.layout.sentinel < offset + w.size then
        pure (some (.badHeader ptr w.size))
      else if w.isFree then
        pure (some (.notAllocated ptr))
      else if ← Block.isPrevFree p.buffer (← Block.nextPhysical p.buffer h) then
        pure (some (.boundaryTag ptr))
      else
        pure none

def header (p : Pool) (ptr : Pointer) : Checked (Except Error Nat) := do
  match ← p.violation? ptr with
  | some v => pure (.error (.safety v))
  | none => pure (.ok (← Block.headerOf ptr.offset))

/-- The payload size of a live pointer; zero for null. -/
def allocationSize (p : Pool) (ptr : Pointer) : Checked (Except Error Nat) := do
  if ptr.isNull then pure (.ok 0)
  else match ← p.header ptr with
    | .error e => pure (.error e)
    | .ok h => pure (.ok (← Block.size p.buffer h))

/-- Whether `length` bytes at a pointer lie inside its allocation. Null only has
the empty range. -/
def isValidRange (p : Pool) (ptr : Pointer) (length : Nat) : Checked Bool := do
  if ptr.isNull then pure (length == 0)
  else match ← p.violation? ptr with
    | some _ => pure false
    | none => pure (length ≤ (← Block.size p.buffer (← Block.headerOf ptr.offset)))

/-- The bytes of a live payload; none for null. -/
def payload (p : Pool) (ptr : Pointer) : Checked (Except Error ByteArray) := do
  match ← p.allocationSize ptr with
  | .error e => pure (.error e)
  | .ok size => pure (.ok (← p.buffer.slice ptr.offset size))

end Tlsf.Pool
