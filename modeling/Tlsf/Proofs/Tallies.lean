import Mathlib.Algebra.BigOperators.Group.List.Basic
import Mathlib.Algebra.GroupWithZero.Nat
import Tlsf.Statistics
import Tlsf.Proofs.Tiling

/-!
Counters against the blocks that they count. `t.Counts n used` says that the
tally `t` agrees with the used blocks and that none of its counters can have
passed `n`, the number of calls so far. As long as that is far below `2 ^ 64`
no counter overflows. Releases do not need a larger `n`, because each of them
gives back what an earlier call had taken; one call may release many blocks.
-/

namespace Tlsf

def payloadSum (used : List Cell) : Nat := (used.map Cell.size).sum

@[simp] theorem payloadSum_nil : payloadSum [] = 0 := rfl

@[simp] theorem payloadSum_cons (x : Cell) (used : List Cell) :
    payloadSum (x :: used) = x.size + payloadSum used := List.sum_cons

theorem payloadSum_perm {used used' : List Cell} (perm : used.Perm used') :
    payloadSum used = payloadSum used' := (perm.map _).sum_eq

namespace CallCounts

variable {c : CallCounts}

def addIdle (c : CallCounts) : CallCounts := { c with calls := c.calls + 1 }

def addSuccess (c : CallCounts) : CallCounts :=
  { c with calls := c.calls + 1, succeeded := c.succeeded + 1 }

def addFailure (c : CallCounts) : CallCounts :=
  { c with calls := c.calls + 1, failed := c.failed + 1 }

theorem countIdle_eq (room : c.calls + 1 < UInt64.size) : c.countIdle = .ok c.addIdle := by
  simp only [countIdle, Checked.add_eq_ok room, Checked.ok_bind, Checked.pure_eq, addIdle]

theorem countSuccess_eq (room : c.calls + 1 < UInt64.size) (below : c.succeeded ≤ c.calls) :
    c.countSuccess = .ok c.addSuccess := by
  have room' : c.succeeded + 1 < UInt64.size := by omega
  simp only [countSuccess, countIdle_eq room, addIdle, Checked.add_eq_ok room', Checked.ok_bind,
    Checked.pure_eq, addSuccess]

theorem countFailure_eq (room : c.calls + 1 < UInt64.size) (below : c.failed ≤ c.calls) :
    c.countFailure = .ok c.addFailure := by
  have room' : c.failed + 1 < UInt64.size := by omega
  simp only [countFailure, countIdle_eq room, addIdle, Checked.add_eq_ok room', Checked.ok_bind,
    Checked.pure_eq, addFailure]

end CallCounts

structure Tally.Counts (t : Tally) (n : Nat) (used : List Cell) : Prop where
  active : t.active = used.length
  payload : t.usedPayload = payloadSum used
  allocate : t.allocate.succeeded + t.allocate.failed ≤ t.allocate.calls
  allocateCalls : t.allocate.calls ≤ n
  free : t.free.succeeded + t.free.failed ≤ t.free.calls
  freeCalls : t.free.calls + t.active ≤ n
  reallocate : t.reallocate.succeeded + t.reallocate.failed = t.reallocate.calls
  reallocateCalls : t.reallocate.calls ≤ n
  balance : t.allocate.succeeded = t.active + t.free.succeeded
  resizes : t.resizes.unchanged + t.resizes.shrunk + t.resizes.grown + t.resizes.moved =
    t.reallocate.succeeded

namespace Tally.Counts

variable {t : Tally} {n m : Nat} {used used' : List Cell} {x y : Cell}

theorem initial : Counts {} 0 [] := by constructor <;> simp

theorem mono (c : t.Counts n used) (le : n ≤ m) : t.Counts m used :=
  { c with
    allocateCalls := Nat.le_trans c.allocateCalls le
    freeCalls := Nat.le_trans c.freeCalls le
    reallocateCalls := Nat.le_trans c.reallocateCalls le }

theorem perm (c : t.Counts n used) (perm : used.Perm used') : t.Counts n used' :=
  { c with
    active := c.active.trans perm.length_eq
    payload := c.payload.trans (payloadSum_perm perm) }

section Spec

variable (c : t.Counts n used) (bound : n + 1 < UInt64.size)
include c bound

theorem allocateIdle_spec :
    t.allocateIdle = .ok { t with allocate := t.allocate.addIdle } ∧
      Tally.Counts { t with allocate := t.allocate.addIdle } (n + 1) used := by
  have calls := c.allocateCalls
  have kept := c.allocate
  constructor
  · simp only [allocateIdle, CallCounts.countIdle_eq (show t.allocate.calls + 1 < UInt64.size by omega),
      Checked.ok_bind, Checked.pure_eq]
  · exact { c.mono (Nat.le_succ n) with
      allocate := Nat.le_succ_of_le kept
      allocateCalls := Nat.succ_le_succ calls }

theorem allocateFailed_spec :
    t.allocateFailed = .ok { t with allocate := t.allocate.addFailure } ∧
      Tally.Counts { t with allocate := t.allocate.addFailure } (n + 1) used := by
  have calls := c.allocateCalls
  have kept := c.allocate
  constructor
  · simp only [allocateFailed, CallCounts.countFailure_eq
      (show t.allocate.calls + 1 < UInt64.size by omega) (by omega), Checked.ok_bind, Checked.pure_eq]
  · exact { c.mono (Nat.le_succ n) with
      allocate := Nat.succ_le_succ kept
      allocateCalls := Nat.succ_le_succ calls }

theorem allocated_spec (fits : payloadSum (x :: used) < UInt64.size) :
    ∃ t', t.allocated x.size = .ok t' ∧ t'.Counts (n + 1) (x :: used) := by
  have calls := c.allocateCalls
  have kept := c.allocate
  have frees := c.freeCalls
  rw [payloadSum_cons] at fits
  have room : t.usedPayload + x.size < UInt64.size := by
    rw [c.payload]
    omega
  refine ⟨({ t with allocate := t.allocate.addSuccess, active := t.active + 1 } : Tally).setUsed
    (t.usedPayload + x.size), ?_, ?_⟩
  · simp only [allocated, CallCounts.countSuccess_eq
      (show t.allocate.calls + 1 < UInt64.size by omega) (by omega),
      Checked.add_eq_ok (show t.active + 1 < UInt64.size by omega), Checked.add_eq_ok room,
      Checked.ok_bind, Checked.pure_eq]
  · have active := c.active
    have payload := c.payload
    have balance := c.balance
    refine { c.mono (Nat.le_succ n) with
      active := ?_, payload := ?_, allocate := ?_, allocateCalls := ?_, freeCalls := ?_, balance := ?_ } <;>
      simp only [setUsed, CallCounts.addSuccess, List.length_cons, payloadSum_cons] <;> omega

theorem freeIdle_spec :
    t.freeIdle = .ok { t with free := t.free.addIdle } ∧
      Tally.Counts { t with free := t.free.addIdle } (n + 1) used := by
  have calls := c.freeCalls
  have kept := c.free
  constructor
  · simp only [freeIdle, CallCounts.countIdle_eq (show t.free.calls + 1 < UInt64.size by omega),
      Checked.ok_bind, Checked.pure_eq]
  · refine { c.mono (Nat.le_succ n) with free := Nat.le_succ_of_le kept, freeCalls := ?_ }
    simp only [CallCounts.addIdle]
    omega

theorem freeFailed_spec :
    t.freeFailed = .ok { t with free := t.free.addFailure } ∧
      Tally.Counts { t with free := t.free.addFailure } (n + 1) used := by
  have calls := c.freeCalls
  have kept := c.free
  constructor
  · simp only [freeFailed, CallCounts.countFailure_eq
      (show t.free.calls + 1 < UInt64.size by omega) (by omega), Checked.ok_bind, Checked.pure_eq]
  · refine { c.mono (Nat.le_succ n) with free := Nat.succ_le_succ kept, freeCalls := ?_ }
    simp only [CallCounts.addFailure]
    omega

theorem reallocateFailed_spec :
    t.reallocateFailed = .ok { t with reallocate := t.reallocate.addFailure } ∧
      Tally.Counts { t with reallocate := t.reallocate.addFailure } (n + 1) used := by
  have calls := c.reallocateCalls
  have kept := c.reallocate
  constructor
  · simp only [reallocateFailed, CallCounts.countFailure_eq
      (show t.reallocate.calls + 1 < UInt64.size by omega) (by omega), Checked.ok_bind, Checked.pure_eq]
  · exact { c.mono (Nat.le_succ n) with
      reallocate := congrArg (· + 1) kept
      reallocateCalls := Nat.succ_le_succ calls }

end Spec

theorem freed_spec (c : t.Counts n (x :: used)) (bound : n + 1 < UInt64.size) :
    ∃ t', t.freed x.size = .ok t' ∧ t'.Counts n used := by
  have calls := c.freeCalls
  have kept := c.free
  have active := c.active
  have payload := c.payload
  rw [List.length_cons] at active
  rw [payloadSum_cons] at payload
  refine ⟨({ t with free := t.free.addSuccess, active := t.active - 1 } : Tally).setUsed
    (t.usedPayload - x.size), ?_, ?_⟩
  · simp only [freed, CallCounts.countSuccess_eq
      (show t.free.calls + 1 < UInt64.size by omega) (by omega),
      Checked.sub_eq_ok (show 1 ≤ t.active by omega),
      Checked.sub_eq_ok (show x.size ≤ t.usedPayload by omega), Checked.ok_bind, Checked.pure_eq]
  · have balance := c.balance
    refine { c with active := ?_, payload := ?_, free := ?_, freeCalls := ?_, balance := ?_ } <;>
      simp only [setUsed, CallCounts.addSuccess] <;> omega

theorem reallocated_spec (c : t.Counts n (x :: used)) (bound : n + 1 < UInt64.size)
    (fits : payloadSum (y :: used) < UInt64.size) (how : Arena.Resize) :
    ∃ t', t.reallocated how x.size y.size = .ok t' ∧ t'.Counts (n + 1) (y :: used) := by
  have calls := c.reallocateCalls
  have kept := c.reallocate
  have resizes := c.resizes
  have payload := c.payload
  have active := c.active
  rw [payloadSum_cons] at payload fits
  obtain ⟨counts, run, sum⟩ : ∃ counts, t.resizes.count how = .ok counts ∧
      counts.unchanged + counts.shrunk + counts.grown + counts.moved =
        t.reallocate.succeeded + 1 := by
    have room : ∀ k ≤ t.reallocate.succeeded, k + 1 < UInt64.size := by omega
    cases how with
    | unchanged =>
      refine ⟨{ t.resizes with unchanged := t.resizes.unchanged + 1 }, ?_, by simp only; omega⟩
      simp only [ResizeCounts.count, Checked.add_eq_ok (room t.resizes.unchanged (by omega)),
        Checked.ok_bind, Checked.pure_eq]
    | shrunk =>
      refine ⟨{ t.resizes with shrunk := t.resizes.shrunk + 1 }, ?_, by simp only; omega⟩
      simp only [ResizeCounts.count, Checked.add_eq_ok (room t.resizes.shrunk (by omega)),
        Checked.ok_bind, Checked.pure_eq]
    | grown =>
      refine ⟨{ t.resizes with grown := t.resizes.grown + 1 }, ?_, by simp only; omega⟩
      simp only [ResizeCounts.count, Checked.add_eq_ok (room t.resizes.grown (by omega)),
        Checked.ok_bind, Checked.pure_eq]
    | moved =>
      refine ⟨{ t.resizes with moved := t.resizes.moved + 1 }, ?_, by simp only; omega⟩
      simp only [ResizeCounts.count, Checked.add_eq_ok (room t.resizes.moved (by omega)),
        Checked.ok_bind, Checked.pure_eq]
  refine ⟨({ t with reallocate := t.reallocate.addSuccess, resizes := counts } : Tally).setUsed
    (t.usedPayload - x.size + y.size), ?_, ?_⟩
  · simp only [reallocated, CallCounts.countSuccess_eq
      (show t.reallocate.calls + 1 < UInt64.size by omega) (by omega), run,
      Checked.sub_eq_ok (show x.size ≤ t.usedPayload by omega),
      Checked.add_eq_ok (show t.usedPayload - x.size + y.size < UInt64.size by omega),
      Checked.ok_bind, Checked.pure_eq]
  · refine { c.mono (Nat.le_succ n) with
      active := active, payload := ?_, reallocate := ?_, reallocateCalls := ?_, resizes := sum } <;>
      simp only [setUsed, CallCounts.addSuccess, payloadSum_cons] <;> omega

end Tally.Counts

end Tlsf
