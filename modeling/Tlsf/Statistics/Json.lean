import Tlsf.Json.Members
import Tlsf.Statistics

/-!
Statistics as documents. Every member is required when one is read.
-/

namespace Tlsf

namespace CallCounts

def toJson (c : CallCounts) : Json :=
  .record [
    ("calls", .ofNat c.calls),
    ("succeeded", .ofNat c.succeeded),
    ("failed", .ofNat c.failed)]

def ofJson? (j : Json) : Option CallCounts := do
  let given ← j.members? ["calls", "succeeded", "failed"]
  pure {
    calls := ← Json.member? Json.count? "calls" given
    succeeded := ← Json.member? Json.count? "succeeded" given
    failed := ← Json.member? Json.count? "failed" given }

end CallCounts

namespace ResizeCounts

def toJson (c : ResizeCounts) : Json :=
  .record [
    ("unchanged", .ofNat c.unchanged),
    ("shrunk_in_place", .ofNat c.shrunk),
    ("grown_in_place", .ofNat c.grown),
    ("moved", .ofNat c.moved)]

def ofJson? (j : Json) : Option ResizeCounts := do
  let given ← j.members? ["unchanged", "shrunk_in_place", "grown_in_place", "moved"]
  pure {
    unchanged := ← Json.member? Json.count? "unchanged" given
    shrunk := ← Json.member? Json.count? "shrunk_in_place" given
    grown := ← Json.member? Json.count? "grown_in_place" given
    moved := ← Json.member? Json.count? "moved" given }

end ResizeCounts

namespace Statistics

def toJson (s : Statistics) : Json :=
  .record [
    ("active_allocations", .ofNat s.active),
    ("peak_active_allocations", .ofNat s.peakActive),
    ("used_payload_bytes", .ofNat s.usedPayload),
    ("peak_used_payload_bytes", .ofNat s.peakUsedPayload),
    ("used_overhead_bytes", .ofNat s.usedOverhead),
    ("free_payload_bytes", .ofNat s.freePayload),
    ("free_overhead_bytes", .ofNat s.freeOverhead),
    ("free_blocks", .ofNat s.freeBlocks),
    ("largest_free_block", .ofNat s.largestFree),
    ("allocate", s.allocate.toJson),
    ("free", s.free.toJson),
    ("reallocate", s.reallocate.toJson),
    ("realloc_outcomes", s.resizes.toJson)]

def ofJson? (j : Json) : Option Statistics := do
  let given ← j.members? [
    "active_allocations", "peak_active_allocations", "used_payload_bytes",
    "peak_used_payload_bytes", "used_overhead_bytes", "free_payload_bytes", "free_overhead_bytes",
    "free_blocks", "largest_free_block", "allocate", "free", "reallocate", "realloc_outcomes"]
  pure {
    active := ← Json.member? Json.count? "active_allocations" given
    peakActive := ← Json.member? Json.count? "peak_active_allocations" given
    usedPayload := ← Json.member? Json.count? "used_payload_bytes" given
    peakUsedPayload := ← Json.member? Json.count? "peak_used_payload_bytes" given
    usedOverhead := ← Json.member? Json.count? "used_overhead_bytes" given
    freePayload := ← Json.member? Json.count? "free_payload_bytes" given
    freeOverhead := ← Json.member? Json.count? "free_overhead_bytes" given
    freeBlocks := ← Json.member? Json.count? "free_blocks" given
    largestFree := ← Json.member? Json.count? "largest_free_block" given
    allocate := ← Json.member? CallCounts.ofJson? "allocate" given
    free := ← Json.member? CallCounts.ofJson? "free" given
    reallocate := ← Json.member? CallCounts.ofJson? "reallocate" given
    resizes := ← Json.member? ResizeCounts.ofJson? "realloc_outcomes" given }

end Statistics

end Tlsf
