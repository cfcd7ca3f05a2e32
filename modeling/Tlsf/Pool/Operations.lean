import Tlsf.Pool.Liveness

/-!
The operations of a pool. Each one gives an answer and the pool after it; the
pool after an error is part of the answer, since failures are counted too.

Requests for nothing answer null, and releasing null does nothing. A resize of
null is an allocation, and a resize to nothing a release. Pointers that are not
live are refused before anything changes.
-/

namespace Tlsf.Pool

open Dimensions

structure Ownership where
  owner : OwnerId
  parent : Option Pointer
deriving DecidableEq, Repr

def pointerOf (h : Nat) : Pointer := .ofOffset (h + headerSize)

def allocateFor (p : Pool) (size : Nat) (ownership : Option Ownership) :
    Checked (Except Error Pointer × Pool) := do
  if size = 0 then
    pure (.ok .null, { p with tally := ← p.tally.allocateIdle })
  else
    match ← p.arena.allocate? size with
    | none => pure (.error (.outOfMemory size), { p with tally := ← p.tally.allocateFailed })
    | some (h, arena) =>
      let ptr := pointerOf h
      let registry := match ownership with
        | none => p.registry
        | some o => p.registry.map fun r => r.register ptr o.owner o.parent
      let tally ← p.tally.allocated (← Block.size arena.buffer h)
      pure (.ok ptr, { p with arena, registry, tally })

def allocate (p : Pool) (size : Nat) : Checked (Except Error Pointer × Pool) :=
  p.allocateFor size none

def allocateOwned (p : Pool) (size : Nat) (owner : OwnerId) (parent : Option Pointer) :
    Checked (Except Error Pointer × Pool) :=
  p.allocateFor size (some ⟨owner, parent⟩)

def free (p : Pool) (ptr : Pointer) : Checked (Except Error Bool × Pool) := do
  if ptr.isNull then
    pure (.ok false, { p with tally := ← p.tally.freeIdle })
  else
    match ← p.header ptr with
    | .error e => pure (.error e, { p with tally := ← p.tally.freeFailed })
    | .ok h =>
      let size ← Block.size p.buffer h
      let arena ← p.arena.release h p.stompFreed
      let registry := p.registry.map fun r => r.unregister ptr
      let tally ← p.tally.freed size
      pure (.ok true, { p with arena, registry, tally })

/-- The first error among the pointers that are not live. -/
def firstViolation? (p : Pool) : List Pointer → Checked (Option Error)
  | [] => pure none
  | ptr :: rest => do
    match ← p.header ptr with
    | .error e => pure (some e)
    | .ok _ => p.firstViolation? rest

/-- Releases pointers in order and counts them; stops at the first error. -/
def freeAll (p : Pool) : List Pointer → Checked (Except Error Nat × Pool)
  | [] => pure (.ok 0, p)
  | ptr :: rest => do
    match ← p.free ptr with
    | (.error e, p) => pure (.error e, p)
    | (.ok released, p) =>
      let (answer, p) ← p.freeAll rest
      pure (answer.map (· + released.toNat), p)

/-- Releases a pointer and everything registered below it, children before
their parents, and counts the blocks. All of them are checked before the first
one is released. -/
def freeRecursive (p : Pool) (ptr : Pointer) : Checked (Except Error Nat × Pool) := do
  if ptr.isNull then
    pure (.ok 0, p)
  else
    let below := match p.registry with
      | none => []
      | some r => r.descendants ptr
    let all := below ++ [ptr]
    match ← p.firstViolation? all with
    | some e => pure (.error e, { p with tally := ← p.tally.freeFailed })
    | none => p.freeAll all

/-- What a resize does to the registry: a moved pointer keeps its registration,
and one that is not registered after that is registered for the owner, if there
is one. -/
def followResize (r : Registry) (old new : Pointer) (ownership : Option Ownership) : Registry :=
  let (renamed, r) := if new = old then (false, r) else r.repoint old new
  match ownership with
  | none => r
  | some o => if renamed || r.contains new then r else r.register new o.owner o.parent

/-- Resizes a pointer to `size` bytes. A pointer that has to move keeps its
contents, and stays as it is when there is nowhere to move to. -/
def reallocateFor (p : Pool) (ptr : Pointer) (size : Nat) (ownership : Option Ownership) :
    Checked (Except Error Pointer × Pool) := do
  if ptr.isNull then
    p.allocateFor size ownership
  else if size = 0 then
    let (answer, p) ← p.free ptr
    pure (answer.map fun _ => .null, p)
  else
    match ← p.header ptr with
    | .error e => pure (.error e, { p with tally := ← p.tally.reallocateFailed })
    | .ok h =>
      match ← p.arena.resize? h size p.stompFreed with
      | none => pure (.error (.outOfMemory size), { p with tally := ← p.tally.reallocateFailed })
      | some (resized, arena) =>
        let new := pointerOf resized.header
        let registry := p.registry.map fun r => followResize r ptr new ownership
        let after ← Block.size arena.buffer resized.header
        let tally ← p.tally.reallocated resized.how resized.before after
        pure (.ok new, { p with arena, registry, tally })

def reallocate (p : Pool) (ptr : Pointer) (size : Nat) : Checked (Except Error Pointer × Pool) :=
  p.reallocateFor ptr size none

def reallocateOwned (p : Pool) (ptr : Pointer) (size : Nat) (owner : OwnerId)
    (parent : Option Pointer) : Checked (Except Error Pointer × Pool) :=
  p.reallocateFor ptr size (some ⟨owner, parent⟩)

/-! Payload bytes -/

/-- Changes the bytes of a live payload and answers its length. `change` gets
the payload's offset and length. -/
def editPayload (p : Pool) (ptr : Pointer) (change : Nat → Nat → Buffer → Checked Buffer) :
    Checked (Except Error Nat × Pool) := do
  match ← p.allocationSize ptr with
  | .error e => pure (.error e, p)
  | .ok size =>
    let arena ← p.arena.edit (change ptr.offset size)
    pure (.ok size, { p with arena })

def fillPayload (p : Pool) (ptr : Pointer) (value : UInt8) : Checked (Except Error Nat × Pool) :=
  p.editPayload ptr fun start size b => b.fill start size value

def writePayload (p : Pool) (ptr : Pointer) (skip : Nat) (data : ByteArray) :
    Checked (Except Error Nat × Pool) :=
  p.editPayload ptr fun start size b =>
    if skip + data.size ≤ size then b.patch (start + skip) data else .error .outOfBounds

def allocateZeroed (p : Pool) (size : Nat) : Checked (Except Error Pointer × Pool) := do
  match ← p.allocate size with
  | (.error e, p) => pure (.error e, p)
  | (.ok ptr, p) =>
    let (cleared, p) ← p.fillPayload ptr 0
    pure (cleared.map fun _ => ptr, p)

def overwrite (p : Pool) (offset : Nat) (data : ByteArray) : Checked Pool := do
  pure { p with arena := ← p.arena.edit fun b => b.patch offset data }

def editRegistry (p : Pool) (change : Registry → Registry) : Pool :=
  { p with registry := p.registry.map change }

end Tlsf.Pool
