import Std.Data.ExtTreeSet
import Tlsf.Block
import Tlsf.FreeIndex

/-!
The arena: a buffer of blocks, the index of its free lists, and the headers of
the blocks that are handed out. Free lists are doubly linked through the free
payloads themselves and new blocks go to the front.

`allocate?` takes a block of the right size class and gives its tail back,
`release` joins a block with its free neighbours before it is filed, and both
leave no two adjacent free blocks behind.
-/

namespace Tlsf

open Dimensions

structure Arena where
  buffer : Buffer
  index : FreeIndex
  /-- Headers of the blocks that are handed out; payload bytes can mimic a
  header, so the buffer alone cannot tell. -/
  live : Std.ExtTreeSet Nat

namespace Arena

def edit (change : Buffer → Checked Buffer) : Arena → Checked Arena
  | ⟨buffer, index, live⟩ => do
    let buffer ← change buffer
    pure ⟨buffer, index, live⟩

def editWith {α : Type} (change : Buffer → Checked (α × Buffer)) :
    Arena → Checked (α × Arena)
  | ⟨buffer, index, live⟩ => do
    let (found, buffer) ← change buffer
    pure (found, ⟨buffer, index, live⟩)

def setHead (a : Arena) (c : SizeClass) (head : Option Nat) : Checked Arena := do
  pure { a with index := ← a.index.setHead c head }

/-! Free lists -/

def setBackLink (b : Buffer) (next prev : Option Nat) : Checked Buffer :=
  match next with
  | none => pure b
  | some next => Block.setPrevLink b next prev

def setForwardLink (b : Buffer) (prev next : Option Nat) : Checked Buffer :=
  match prev with
  | none => pure b
  | some prev => Block.setNextLink b prev next

/-- Puts a free block at the front of the list of its class. -/
def insertFree (a : Arena) (h : Nat) : Checked Arena := do
  let c := SizeClass.ofSize (← Block.size a.buffer h)
  let head ← a.index.head c
  let a ← a.edit fun b => do
    let b ← Block.setNextLink b h head
    let b ← Block.setPrevLink b h none
    setBackLink b head (some h)
  a.setHead c (some h)

def unlink (a : Arena) (h : Nat) (c : SizeClass) : Checked Arena := do
  let next ← Block.nextLink a.buffer h
  let prev ← Block.prevLink a.buffer h
  let a ← a.edit fun b => do
    let b ← setBackLink b next prev
    setForwardLink b prev next
  if (← a.index.head c) = some h then a.setHead c next else pure a

def removeFree (a : Arena) (h : Nat) : Checked Arena := do
  a.unlink h (SizeClass.ofSize (← Block.size a.buffer h))

/-- Takes the first block of the first list that can only hold blocks of at
least `size` bytes. -/
def takeFree? (a : Arena) (size : Nat) : Checked (Option (Nat × Arena)) := do
  match a.index.firstFrom? (← SizeClass.roundUp size) with
  | none => pure none
  | some c =>
    match ← a.index.head c with
    | none => pure none
    | some h =>
      Checked.require (size ≤ (← Block.size a.buffer h))
      pure (some (h, ← a.unlink h c))

/-! Joining and trimming -/

def mergePrev (a : Arena) (h : Nat) : Checked (Nat × Arena) := do
  if ← Block.isPrevFree a.buffer h then
    let prev ← Block.prevPhysical a.buffer h
    Checked.require ((← Block.isFree a.buffer prev) = true)
    let a ← a.removeFree prev
    let a ← a.edit fun b => Block.absorb b prev h
    pure (prev, a)
  else pure (h, a)

def mergeNext (a : Arena) (h : Nat) : Checked Arena := do
  let next ← Block.nextPhysical a.buffer h
  if (← Block.isLast a.buffer next) then pure a
  else if (← Block.isFree a.buffer next) then
    let a ← a.removeFree next
    a.edit fun b => Block.absorb b h next
  else pure a

def trimFree (a : Arena) (h size : Nat) : Checked Arena := do
  Checked.require ((← Block.isFree a.buffer h) = true)
  if ← Block.canSplit a.buffer h size then
    let (tail, a) ← a.editWith fun b => Block.split b h size
    a.insertFree tail
  else pure a

/-- Cuts a used block down to `size` bytes and gives the tail back. -/
def trimUsed (a : Arena) (h size : Nat) : Checked Arena := do
  Checked.require ((← Block.isFree a.buffer h) = false)
  if ← Block.canSplit a.buffer h size then
    let (tail, a) ← a.editWith fun b => Block.split b h size
    let a ← a.mergeNext tail
    a.insertFree tail
  else pure a

/-! Blocks in and out -/

/-- Hands out a block for a request of `size` bytes. None when the search finds no block, and then
nothing has changed. -/
def allocate? (a : Arena) (size : Nat) : Checked (Option (Nat × Arena)) :=
  match payloadFor? size with
  | none => pure none
  | some payload => do
    match ← a.takeFree? payload with
    | none => pure none
    | some (h, a) =>
      let a ← a.trimFree h payload
      let a ← a.edit fun b => Block.markUsed b h
      pure (some (h, { a with live := a.live.insert h }))

/-- Takes a block back. With `stomp`, its payload behind the links is
overwritten before it joins its neighbours. -/
def release (a : Arena) (h : Nat) (stomp : Bool) : Checked Arena := do
  let a := { a with live := a.live.erase h }
  let a ← a.edit fun b => do
    let b ← if stomp then Block.stomp b h freedPattern else pure b
    Block.markFree b h
  let (h, a) ← a.mergePrev h
  let a ← a.mergeNext h
  a.insertFree h

/-! Resizing -/

inductive Resize where
  | unchanged
  | shrunk
  | grown
  | moved
deriving DecidableEq, Repr

structure Resized where
  header : Nat
  how : Resize
  /-- The payload size before. -/
  before : Nat

/-- Gives a used block room for `size` bytes: in place if it is large enough
or a free successor makes it so, otherwise in a new block, whose contents are
copied before the old block is released. None when no block can be found. -/
def resize? (a : Arena) (h size : Nat) (stomp : Bool) : Checked (Option (Resized × Arena)) :=
  match payloadFor? size with
  | none => pure none
  | some payload => do
    let current ← Block.size a.buffer h
    if payload ≤ current then
      if ← Block.canSplit a.buffer h payload then
        pure (some (⟨h, .shrunk, current⟩, ← a.trimUsed h payload))
      else
        pure (some (⟨h, .unchanged, current⟩, a))
    else
      let next ← Block.nextPhysical a.buffer h
      let combined := current + (← Block.size a.buffer next) + headerSize
      if (← Block.isFree a.buffer next) ∧ payload ≤ combined then
        let a ← a.removeFree next
        let a ← a.edit fun b => do
          let b ← Block.absorb b h next
          Block.markUsed b h
        pure (some (⟨h, .grown, current⟩, ← a.trimUsed h payload))
      else
        match ← a.allocate? size with
        | none => pure none
        | some (target, a) =>
          let count := min current (← Block.size a.buffer target)
          let a ← a.edit fun b => b.move (h + headerSize) (target + headerSize) count
          pure (some (⟨target, .moved, current⟩, ← a.release h stomp))

end Arena

end Tlsf
