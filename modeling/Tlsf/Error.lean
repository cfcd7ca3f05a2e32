import Tlsf.Config
import Tlsf.Handle

/-!
Errors by their causes. A `Violation` is what is wrong with a pointer that a
caller hands in, `Damage` is what an integrity check finds, and `Error` is
what an operation of the pool answers. `message` words each of them; only
running out of memory is recoverable.
-/

namespace Tlsf

inductive Violation where
  | outside (p : Pointer)
  | misaligned (p : Pointer)
  | notLive (p : Pointer)
  | badHeader (p : Pointer) (size : Nat)
  | notAllocated (p : Pointer)
  | boundaryTag (p : Pointer)
  | stated (reason : String)
deriving DecidableEq, Repr

namespace Violation

def reason : Violation → String
  | .outside p => s!"{p.text} lies outside the pool"
  | .misaligned p => s!"{p.text} is misaligned"
  | .notLive p => s!"{p.text} does not start a live allocation"
  | .badHeader p size => s!"{p.text} has an implausible header (size {size})"
  | .notAllocated p => s!"{p.text} is not allocated (double free or use after free)"
  | .boundaryTag p => s!"{p.text}: boundary tag of the next block disagrees"
  | .stated reason => reason

end Violation

/-- What an integrity check finds. Blocks are named by their headers. -/
inductive Damage where
  | pastRegionEnd (h : Nat)
  | prevFreeTag (h : Nat) (tag : Bool)
  | backPointer (h prev : Nat)
  | emptyBlock (h : Nat)
  | freeSentinel
  | invalidSize (h size : Nat)
  | adjacentFree (h : Nat)
  | neverHandedOut (h : Nat)
  | usedCount (used live : Nat)
  | rowBit (fl : Nat)
  | slotBit (fl sl : Nat)
  | linkOutside (h : Nat)
  | overfullLists
  | usedBlockListed (h : Nat)
  | wrongClass (h fl sl : Nat)
  | backLink (h : Nat)
  | listedCount (free listed : Nat)
  | stated (reason : String)
deriving DecidableEq, Repr

namespace Damage

def reason : Damage → String
  | .pastRegionEnd h => s!"block at {h} runs past the region end"
  | .prevFreeTag h tag => s!"block at {h}: prev_free tag {tag} disagrees with predecessor"
  | .backPointer h prev => s!"block at {h}: prev_phys_block does not point at {prev}"
  | .emptyBlock h => s!"empty block at {h} before the sentinel"
  | .freeSentinel => "sentinel is marked free"
  | .invalidSize h size => s!"block at {h} has invalid size {size}"
  | .adjacentFree h => s!"adjacent free blocks ending at {h}"
  | .neverHandedOut h => s!"used block at {h} was never handed out"
  | .usedCount used live => s!"{used} used blocks in the pool but {live} handed out"
  | .rowBit fl => s!"first-level bit {fl} disagrees with its second level"
  | .slotBit fl sl => s!"bitmap bit ({fl}, {sl}) disagrees with its list"
  | .linkOutside h => s!"free link {h} points outside the pool"
  | .overfullLists => "free lists hold more blocks than the pool"
  | .usedBlockListed h => s!"used block at {h} on a free list"
  | .wrongClass h fl sl => s!"block at {h} filed under ({fl}, {sl})"
  | .backLink h => s!"broken back link at {h}"
  | .listedCount free listed => s!"{free} free blocks in the pool but {listed} on free lists"
  | .stated reason => reason

end Damage

inductive Error where
  | regionOutOfBounds (start stop length : Nat)
  | regionTooSmall (size required : Nat)
  | regionTooLarge (size limit : Nat)
  | outOfMemory (requested : Nat)
  | safety (violation : Violation)
  | corrupted (damage : Damage)
  | config (error : ConfigError)
deriving DecidableEq, Repr

namespace Error

def message : Error → String
  | .regionOutOfBounds start stop length =>
    s!"pool region [{start}, {stop}) lies outside buffer of {length} bytes"
  | .regionTooSmall size required =>
    s!"pool region too small: {size} bytes, at least {required} required"
  | .regionTooLarge size limit => s!"pool region too large: {size} bytes (limit {limit})"
  | .outOfMemory requested => s!"out of memory: no free block for {requested} bytes"
  | .safety violation => "safety violation: " ++ violation.reason
  | .corrupted damage => "pool corrupted: " ++ damage.reason
  | .config error => error.message

/-- Every other error means that the pool or its caller's bookkeeping is
broken already. -/
def isRecoverable : Error → Bool
  | .outOfMemory _ => true
  | _ => false

end Error

end Tlsf
