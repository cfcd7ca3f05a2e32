import Tlsf.Proofs.Atomicity
import Tlsf.Proofs.TwinPools

/-!
Counters never steer. A call on a pool, and the same call on a pool that differs in
its tally alone, give the same answer and leave pools that differ in their tally
alone, unless one of them stops because a counter would overflow. Sessions of any
length can therefore be told from what their blocks are, as if the host had made no
call but those that these blocks took.
-/

namespace Tlsf

open Dimensions Buffer

namespace Checked

def Sums {α : Type} (x : Checked α) : Prop := ∀ f, x = .error f → f = .overflow

/-- Two computations that come to related results or stop at the same fault, but that either may
stop at an overflow. -/
inductive Uncounted {α β : Type} (R : α → β → Prop) : Checked α → Checked β → Prop where
  | ok {a : α} {b : β} (related : R a b) : Uncounted R (.ok a) (.ok b)
  | error (f : Fault) : Uncounted R (.error f) (.error f)
  | left (y : Checked β) : Uncounted R (.error .overflow) y
  | right (x : Checked α) : Uncounted R x (.error .overflow)

section Sums

variable {α β : Type} {x : Checked α} {f : α → Checked β}

theorem Sums.pure (a : α) : Sums (.ok a) := fun _ failed => nomatch failed

theorem Sums.bind (sums : Sums x) (each : ∀ a, Sums (f a)) : Sums (x >>= f) := by
  cases x with
  | ok a => exact each a
  | error e => exact fun f failed => sums f (by cases failed; rfl)

theorem sums_add (a b : Nat) : Sums (add a b) := by
  intro f failed
  unfold add at failed
  split at failed
  · cases failed
  · exact (Except.error.inj failed).symm

theorem sums_sub (a b : Nat) : Sums (sub a b) := by
  intro f failed
  unfold sub at failed
  split at failed
  · cases failed
  · exact (Except.error.inj failed).symm

end Sums

namespace Uncounted

variable {α β γ δ : Type} {R : α → β → Prop} {S : γ → δ → Prop}

theorem bind {x : Checked α} {y : Checked β} {f : α → Checked γ} {g : β → Checked δ}
    (same : Uncounted R x y) (each : ∀ a b, R a b → Uncounted S (f a) (g b)) :
    Uncounted S (x >>= f) (y >>= g) := by
  cases same with
  | ok related => exact each _ _ related
  | error e => exact .error e
  | left y => exact .left _
  | right x => exact .right _

theorem common (x : Checked α) {f : α → Checked γ} {g : α → Checked δ}
    (each : ∀ a, Uncounted S (f a) (g a)) : Uncounted S (x >>= f) (x >>= g) := by
  cases x with
  | ok a => exact each a
  | error e => exact .error e

theorem apart {x : Checked α} {y : Checked β} {f : α → Checked γ} {g : β → Checked δ}
    (sums : Sums x) (sums' : Sums y) (each : ∀ a b, Uncounted S (f a) (g b)) :
    Uncounted S (x >>= f) (y >>= g) := by
  cases x with
  | error e =>
    rw [sums e rfl]
    exact .left _
  | ok a =>
    cases y with
    | error e =>
      rw [sums' e rfl]
      exact .right _
    | ok b => exact each a b

theorem of_ok {x : Checked α} {a : α} {b : β} (same : Uncounted R x (.ok b)) (run : x = .ok a) :
    R a b := by
  subst run
  cases same with
  | ok related => exact related

theorem cases_ok {x : Checked α} {b : β} (same : Uncounted R x (.ok b)) :
    (∃ a, x = .ok a ∧ R a b) ∨ x = .error .overflow := by
  cases same with
  | ok related => exact .inl ⟨_, rfl, related⟩
  | left => exact .inr rfl

end Uncounted

end Checked

/-! What a tally does -/

section Sums

open Checked

theorem CallCounts.countIdle_sums (c : CallCounts) : Sums c.countIdle :=
  (sums_add _ _).bind fun _ => .pure _

theorem CallCounts.countSuccess_sums (c : CallCounts) : Sums c.countSuccess :=
  c.countIdle_sums.bind fun _ => (sums_add _ _).bind fun _ => .pure _

theorem CallCounts.countFailure_sums (c : CallCounts) : Sums c.countFailure :=
  c.countIdle_sums.bind fun _ => (sums_add _ _).bind fun _ => .pure _

theorem ResizeCounts.count_sums (c : ResizeCounts) (how : Arena.Resize) : Sums (c.count how) := by
  cases how <;> exact (sums_add _ _).bind fun _ => .pure _

namespace Tally

variable (t : Tally)

theorem allocateIdle_sums : Sums t.allocateIdle := t.allocate.countIdle_sums.bind fun _ => .pure _

theorem allocateFailed_sums : Sums t.allocateFailed :=
  t.allocate.countFailure_sums.bind fun _ => .pure _

theorem allocated_sums (payload : Nat) : Sums (t.allocated payload) :=
  t.allocate.countSuccess_sums.bind fun _ =>
    (sums_add _ _).bind fun _ => (sums_add _ _).bind fun _ => .pure _

theorem freeIdle_sums : Sums t.freeIdle := t.free.countIdle_sums.bind fun _ => .pure _

theorem freeFailed_sums : Sums t.freeFailed := t.free.countFailure_sums.bind fun _ => .pure _

theorem freed_sums (payload : Nat) : Sums (t.freed payload) :=
  t.free.countSuccess_sums.bind fun _ =>
    (sums_sub _ _).bind fun _ => (sums_sub _ _).bind fun _ => .pure _

theorem reallocateFailed_sums : Sums t.reallocateFailed :=
  t.reallocate.countFailure_sums.bind fun _ => .pure _

theorem reallocated_sums (how : Arena.Resize) (before after : Nat) :
    Sums (t.reallocated how before after) :=
  t.reallocate.countSuccess_sums.bind fun _ => (t.resizes.count_sums how).bind fun _ =>
    (sums_sub _ _).bind fun _ => (sums_add _ _).bind fun _ => .pure _

end Tally

end Sums

/-! Calls -/

namespace Pool

variable (p : Pool) (t : Tally)

def retally (p : Pool) (t : Tally) : Pool := { p with tally := t }

def Retold {α : Type} (r r' : Except Error α × Pool) : Prop := r.1 = r'.1 ∧ ∃ t, r'.2 = r.2.retally t

open Checked (Uncounted)

theorem allocateFor_uncounted (size : Nat) (o : Option Ownership) :
    Uncounted Retold (p.allocateFor size o) ((p.retally t).allocateFor size o) := by
  unfold allocateFor
  by_cases nothing : size = 0
  · rw [if_pos nothing, if_pos nothing]
    exact .apart (Tally.allocateIdle_sums _) (Tally.allocateIdle_sums _) fun _ t' => .ok ⟨rfl, t', rfl⟩
  · rw [if_neg nothing, if_neg nothing]
    refine .common _ fun taken => ?_
    cases taken with
    | none =>
      exact .apart (Tally.allocateFailed_sums _) (Tally.allocateFailed_sums _)
        fun _ t' => .ok ⟨rfl, t', rfl⟩
    | some block =>
      refine .common _ fun payload => ?_
      exact .apart (Tally.allocated_sums _ _) (Tally.allocated_sums _ _)
        fun _ t' => .ok ⟨rfl, t', rfl⟩

theorem free_uncounted (ptr : Pointer) : Uncounted Retold (p.free ptr) ((p.retally t).free ptr) := by
  unfold free
  cases ptr.isNull with
  | true =>
    rw [if_pos rfl, if_pos rfl]
    exact .apart (Tally.freeIdle_sums _) (Tally.freeIdle_sums _) fun _ t' => .ok ⟨rfl, t', rfl⟩
  | false =>
    rw [if_neg Bool.false_ne_true, if_neg Bool.false_ne_true]
    refine .common (p.header ptr) fun header => ?_
    cases header with
    | error e =>
      exact .apart (Tally.freeFailed_sums _) (Tally.freeFailed_sums _)
        fun _ t' => .ok ⟨rfl, t', rfl⟩
    | ok h =>
      refine .common _ fun payload => .common _ fun arena => ?_
      exact .apart (Tally.freed_sums _ _) (Tally.freed_sums _ _) fun _ t' => .ok ⟨rfl, t', rfl⟩

theorem freeAll_uncounted (ptrs : List Pointer) :
    Uncounted Retold (p.freeAll ptrs) ((p.retally t).freeAll ptrs) := by
  induction ptrs generalizing p t with
  | nil => exact .ok ⟨rfl, t, rfl⟩
  | cons ptr rest ih =>
    refine (p.free_uncounted t ptr).bind ?_
    rintro ⟨answer, q⟩ ⟨_, _⟩ ⟨rfl, t', rfl⟩
    cases answer with
    | error e => exact .ok ⟨rfl, t', rfl⟩
    | ok released =>
      refine (ih q t').bind ?_
      rintro ⟨later, q'⟩ ⟨_, _⟩ ⟨rfl, t'', rfl⟩
      exact .ok ⟨rfl, t'', rfl⟩

theorem firstViolation?_retally (ptrs : List Pointer) :
    (p.retally t).firstViolation? ptrs = p.firstViolation? ptrs := by
  induction ptrs with
  | nil => rfl
  | cons ptr rest ih =>
    unfold firstViolation?
    rw [ih]
    rfl

theorem freeRecursive_uncounted (ptr : Pointer) :
    Uncounted Retold (p.freeRecursive ptr) ((p.retally t).freeRecursive ptr) := by
  by_cases null : ptr.isNull = true
  · rw [freeRecursive_null null, freeRecursive_null null]
    exact .ok ⟨rfl, t, rfl⟩
  · rw [Bool.not_eq_true] at null
    have below : (p.retally t).subtree ptr = p.subtree ptr := rfl
    rw [freeRecursive_eq null, freeRecursive_eq null, below, firstViolation?_retally]
    refine .common _ fun violation => ?_
    cases violation with
    | none => exact p.freeAll_uncounted t _
    | some e =>
      exact .apart (Tally.freeFailed_sums _) (Tally.freeFailed_sums _)
        fun _ t' => .ok ⟨rfl, t', rfl⟩

theorem reallocateFor_uncounted (ptr : Pointer) (size : Nat) (o : Option Ownership) :
    Uncounted Retold (p.reallocateFor ptr size o) ((p.retally t).reallocateFor ptr size o) := by
  unfold reallocateFor
  cases ptr.isNull with
  | true =>
    rw [if_pos rfl, if_pos rfl]
    exact p.allocateFor_uncounted t size o
  | false =>
    rw [if_neg Bool.false_ne_true, if_neg Bool.false_ne_true]
    by_cases nothing : size = 0
    · rw [if_pos nothing, if_pos nothing]
      refine (p.free_uncounted t ptr).bind ?_
      rintro ⟨answer, q⟩ ⟨_, _⟩ ⟨rfl, t', rfl⟩
      exact .ok ⟨rfl, t', rfl⟩
    · rw [if_neg nothing, if_neg nothing]
      refine .common (p.header ptr) fun header => ?_
      cases header with
      | error e =>
        exact .apart (Tally.reallocateFailed_sums _) (Tally.reallocateFailed_sums _)
          fun _ t' => .ok ⟨rfl, t', rfl⟩
      | ok h =>
        refine .common (p.arena.resize? h size p.stompFreed) fun resized => ?_
        cases resized with
        | none =>
          exact .apart (Tally.reallocateFailed_sums _) (Tally.reallocateFailed_sums _)
            fun _ t' => .ok ⟨rfl, t', rfl⟩
        | some block =>
          refine .common _ fun after => ?_
          exact .apart (Tally.reallocated_sums _ _ _ _) (Tally.reallocated_sums _ _ _ _)
            fun _ t' => .ok ⟨rfl, t', rfl⟩

theorem editPayload_uncounted (ptr : Pointer) (change : Nat → Nat → Buffer → Checked Buffer) :
    Uncounted Retold (p.editPayload ptr change) ((p.retally t).editPayload ptr change) := by
  refine .common (p.allocationSize ptr) fun sized => ?_
  cases sized with
  | error e => exact .ok ⟨rfl, t, rfl⟩
  | ok size => exact .common _ fun arena => .ok ⟨rfl, t, rfl⟩

theorem allocateZeroed_uncounted (size : Nat) :
    Uncounted Retold (p.allocateZeroed size) ((p.retally t).allocateZeroed size) := by
  refine (p.allocateFor_uncounted t size none).bind ?_
  rintro ⟨answer, q⟩ ⟨_, _⟩ ⟨rfl, t', rfl⟩
  cases answer with
  | error e => exact .ok ⟨rfl, t', rfl⟩
  | ok ptr =>
    refine (q.editPayload_uncounted t' ptr _).bind ?_
    rintro ⟨cleared, q'⟩ ⟨_, _⟩ ⟨rfl, t'', rfl⟩
    exact .ok ⟨rfl, t'', rfl⟩

end Pool

namespace Call

open Pool (Retold)
open Checked (Uncounted)

theorem answer_uncounted {α : Type} {wrap : α → Answer} {run run' : Checked (Except Error α × Pool)}
    (same : Uncounted Retold run run') : Uncounted Retold (answer wrap run) (answer wrap run') := by
  refine same.bind ?_
  rintro ⟨found, q⟩ ⟨_, _⟩ ⟨rfl, t, rfl⟩
  exact .ok ⟨rfl, t, rfl⟩

theorem run_uncounted (call : Call) (p : Pool) (t : Tally) :
    Uncounted Retold (call.run p) (call.run (p.retally t)) := by
  cases call with
  | allocate size => exact answer_uncounted (p.allocateFor_uncounted t size none)
  | allocateOwned size owner parent =>
    exact answer_uncounted (p.allocateFor_uncounted t size (some ⟨owner, parent⟩))
  | allocateZeroed size => exact answer_uncounted (p.allocateZeroed_uncounted t size)
  | free ptr => exact answer_uncounted (p.free_uncounted t ptr)
  | freeRecursive ptr => exact answer_uncounted (p.freeRecursive_uncounted t ptr)
  | reallocate ptr size => exact answer_uncounted (p.reallocateFor_uncounted t ptr size none)
  | reallocateOwned ptr size owner parent =>
    exact answer_uncounted (p.reallocateFor_uncounted t ptr size (some ⟨owner, parent⟩))
  | editRegistry edits => exact .ok ⟨rfl, t, rfl⟩
  | rewrite ptr contents => exact answer_uncounted (p.editPayload_uncounted t ptr _)

end Call

/-! Sessions -/

namespace Session

variable {s s' : Session} {n : Nat} {cells : List Cell} {lists : SizeClass → List Nat}

/-- A session that would stand with the counters of a host that asked for its used blocks and no
more. -/
def Rests (s : Session) (cells : List Cell) (lists : SizeClass → List Nat) : Prop :=
  Stands ⟨s.pool.retally (.holding (usedCells cells)), s.ledger⟩ (usedCells cells).length cells lists

theorem Stands.rests (stands : s.Stands n cells lists) : s.Rests cells lists :=
  ⟨stands.pool.count (Tally.holding_counts _), stands.book⟩

theorem Rests.step (rests : s.Rests cells lists) {call : Call} {result : Except Error Answer}
    (run : s.step call = .ok (result, s')) :
    ∃ t cells' lists', call.Ends (s.pool.retally (.holding (usedCells cells)))
        (usedCells cells).length cells result (s'.pool.retally t) ∧ s'.Rests cells' lists' := by
  obtain ⟨⟨result, p'⟩, called, same⟩ := Checked.of_bind run
  cases same
  have few := rests.pool.used_few
  obtain ⟨result₀, p₀, run₀, ends⟩ := call.ends rests.pool (by omega)
  have uncounted := call.run_uncounted s.pool (.holding (usedCells cells))
  rw [run₀] at uncounted
  obtain ⟨rfl, t, rfl⟩ := uncounted.of_ok called
  obtain ⟨cells', lists', stands, -⟩ := ends.follows rests.pool rests.book
  exact ⟨t, cells', lists', ends, stands.pool.count (Tally.holding_counts _), stands.book⟩

end Session

end Tlsf
