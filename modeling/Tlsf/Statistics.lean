import Tlsf.Arena

/-!
Statistics. A `Tally` is what a pool counts as it goes: calls of each
operation, how resizes were met, and the blocks and payload bytes that are
handed out, with their peaks. `Statistics` is the view of one moment, to which
a walk over the pool adds the free side. Counting never feeds back into the
pool.
-/

namespace Tlsf

/-- Calls of one operation. A call that had nothing to do is neither a success
nor a failure. -/
structure CallCounts where
  calls : Nat := 0
  succeeded : Nat := 0
  failed : Nat := 0
deriving DecidableEq, Repr

namespace CallCounts

def noops (c : CallCounts) : Checked Nat := do
  let rest ← Checked.sub c.calls c.succeeded
  Checked.sub rest c.failed

def countIdle (c : CallCounts) : Checked CallCounts := do
  pure { c with calls := ← Checked.add c.calls 1 }

def countSuccess (c : CallCounts) : Checked CallCounts := do
  let c ← c.countIdle
  pure { c with succeeded := ← Checked.add c.succeeded 1 }

def countFailure (c : CallCounts) : Checked CallCounts := do
  let c ← c.countIdle
  pure { c with failed := ← Checked.add c.failed 1 }

end CallCounts

/-- Successful resizes by the way they were met. -/
structure ResizeCounts where
  unchanged : Nat := 0
  shrunk : Nat := 0
  grown : Nat := 0
  moved : Nat := 0
deriving DecidableEq, Repr

namespace ResizeCounts

def count (c : ResizeCounts) : Arena.Resize → Checked ResizeCounts
  | .unchanged => do pure { c with unchanged := ← Checked.add c.unchanged 1 }
  | .shrunk => do pure { c with shrunk := ← Checked.add c.shrunk 1 }
  | .grown => do pure { c with grown := ← Checked.add c.grown 1 }
  | .moved => do pure { c with moved := ← Checked.add c.moved 1 }

end ResizeCounts

structure Statistics where
  active : Nat := 0
  peakActive : Nat := 0
  usedPayload : Nat := 0
  peakUsedPayload : Nat := 0
  usedOverhead : Nat := 0
  freePayload : Nat := 0
  freeOverhead : Nat := 0
  freeBlocks : Nat := 0
  largestFree : Nat := 0
  allocate : CallCounts := {}
  free : CallCounts := {}
  reallocate : CallCounts := {}
  resizes : ResizeCounts := {}
deriving DecidableEq, Repr

structure Tally where
  active : Nat := 0
  peakActive : Nat := 0
  usedPayload : Nat := 0
  peakUsedPayload : Nat := 0
  allocate : CallCounts := {}
  free : CallCounts := {}
  reallocate : CallCounts := {}
  resizes : ResizeCounts := {}
deriving DecidableEq, Repr

namespace Tally

def setUsed (t : Tally) (usedPayload : Nat) : Tally :=
  { t with
    usedPayload
    peakUsedPayload := max t.peakUsedPayload usedPayload
    peakActive := max t.peakActive t.active }

def allocateIdle (t : Tally) : Checked Tally := do
  pure { t with allocate := ← t.allocate.countIdle }

def allocated (t : Tally) (payload : Nat) : Checked Tally := do
  let allocate ← t.allocate.countSuccess
  let active ← Checked.add t.active 1
  let used ← Checked.add t.usedPayload payload
  pure ({ t with allocate, active }.setUsed used)

def allocateFailed (t : Tally) : Checked Tally := do
  pure { t with allocate := ← t.allocate.countFailure }

def freeIdle (t : Tally) : Checked Tally := do
  pure { t with free := ← t.free.countIdle }

def freed (t : Tally) (payload : Nat) : Checked Tally := do
  let free ← t.free.countSuccess
  let active ← Checked.sub t.active 1
  let used ← Checked.sub t.usedPayload payload
  pure ({ t with free, active }.setUsed used)

def freeFailed (t : Tally) : Checked Tally := do
  pure { t with free := ← t.free.countFailure }

def reallocated (t : Tally) (how : Arena.Resize) (before after : Nat) : Checked Tally := do
  let reallocate ← t.reallocate.countSuccess
  let resizes ← t.resizes.count how
  let others ← Checked.sub t.usedPayload before
  let used ← Checked.add others after
  pure ({ t with reallocate, resizes }.setUsed used)

def reallocateFailed (t : Tally) : Checked Tally := do
  pure { t with reallocate := ← t.reallocate.countFailure }

/-- The running side of the statistics; the free side is still empty. -/
def snapshot (t : Tally) : Statistics where
  active := t.active
  peakActive := t.peakActive
  usedPayload := t.usedPayload
  peakUsedPayload := t.peakUsedPayload
  allocate := t.allocate
  free := t.free
  reallocate := t.reallocate
  resizes := t.resizes

end Tally

end Tlsf
