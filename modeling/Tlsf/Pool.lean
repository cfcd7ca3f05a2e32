import Tlsf.Error
import Tlsf.Registry
import Tlsf.Statistics

/-!
The pool: an arena over a region of a buffer, with its statistics and, if the
host asks for one, an ownership registry. The region's first aligned offset is
the header of the first block; the pool ends with a header of size zero, the
sentinel. `create` makes the whole region one free block.
-/

namespace Tlsf

open Dimensions

structure Layout where
  regionStart : Nat
  regionEnd : Nat
  firstBlock : Nat
  sentinel : Nat
deriving DecidableEq, Repr

structure Pool where
  arena : Arena
  layout : Layout
  registry : Option Registry
  stompFreed : Bool
  tally : Tally

namespace Pool

def buffer (p : Pool) : Buffer := p.arena.buffer

/-- The payload of the one free block that the pool starts with. -/
def usableSize (p : Pool) : Nat := p.layout.sentinel - (p.layout.firstBlock + headerSize)

def layOut (b : Buffer) (firstBlock payload : Nat) : Checked (Nat × Arena) := do
  let b ← Block.setWord b firstBlock (← SizeWord.ofSize payload)
  let sentinel ← Block.nextPhysical b firstBlock
  let b ← Block.setWord b sentinel (← SizeWord.ofSize 0)
  let b ← Block.markFree b firstBlock
  let arena : Arena := ⟨b, .empty, ∅⟩
  pure (sentinel, ← arena.insertFree firstBlock)

/-- A pool over `size` bytes of the buffer from `start` on, or over all bytes
from there. -/
def create (b : Buffer) (start : Nat) (size : Option Nat) (registry : Option Registry) :
    Checked (Except Error Pool) := do
  let size := size.getD (b.size - start)
  let stop := start + size
  if ¬ (stop < UInt64.size ∧ start ≤ b.size ∧ stop ≤ b.size) then
    pure (.error (.regionOutOfBounds start (min stop (UInt64.size - 1)) b.size))
  else if UInt32.size ≤ stop then
    pure (.error (.regionTooLarge size (← Checked.sub (UInt32.size - 1) start)))
  else
    let firstBlock ← alignUp start alignment
    let span := stop - firstBlock
    let payload ← alignDown (span - poolOverhead) alignment
    if span < poolOverhead + minPayload ∨ payload < minPayload then
      pure (.error (.regionTooSmall size (firstBlock - start + poolOverhead + minPayload)))
    else if payloadLimit ≤ payload then
      pure (.error (.regionTooLarge size (payloadLimit - alignment + poolOverhead)))
    else
      let (sentinel, arena) ← layOut b firstBlock payload
      pure (.ok ⟨arena, ⟨start, stop, firstBlock, sentinel⟩, registry, true, {}⟩)

def ofBuffer (b : Buffer) : Checked (Except Error Pool) := create b 0 none none

def ofConfig (b : Buffer) (c : Config) : Checked (Except Error Pool) :=
  match c.resolve b.size with
  | .error e => pure (.error (.config e))
  | .ok (start, size) => do
    let registry := if c.trackOwnership then some Registry.empty else none
    let made ← create b start (some size) registry
    pure (made.map fun p => { p with stompFreed := c.stompFreed })

def describe (p : Pool) : String :=
  let bits := (List.range 32).reverse.map fun i =>
    if p.arena.index.rows.getLsbD i then '1' else '0'
  s!"Allocator \x7b region_start: {p.layout.regionStart}, region_end: {p.layout.regionEnd}, " ++
    s!"fl_bitmap: 0b{String.ofList bits}, tracks_ownership: {p.registry.isSome}, .. \x7d"

end Pool

end Tlsf
