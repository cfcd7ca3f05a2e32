import Tlsf.Proofs.FreshPool

/-!
Sessions: a pool as a host uses it. A session starts with a construction and
goes on with calls, which have any arguments; the host may also edit the
registry and set the bytes of live payloads, but no others.

The ledger is the host's own book of what it was granted. It is kept from
answers alone: a pointer enters with the size reported for it when a request
returns it, and leaves when it is released or resized.
-/

namespace Tlsf

open Dimensions Buffer

inductive Call where
  | allocate (size : Nat)
  | allocateOwned (size : Nat) (owner : OwnerId) (parent : Option Pointer)
  | allocateZeroed (size : Nat)
  | free (ptr : Pointer)
  | freeRecursive (ptr : Pointer)
  | reallocate (ptr : Pointer) (size : Nat)
  | reallocateOwned (ptr : Pointer) (size : Nat) (owner : OwnerId) (parent : Option Pointer)
  | editRegistry (edits : List Registry.Edit)
  | rewrite (ptr : Pointer) (contents : Nat → UInt8)

inductive Answer where
  | pointer (ptr : Pointer)
  | released (any : Bool)
  | count (n : Nat)
  | done
deriving DecidableEq

namespace Call

def answer {α : Type} (wrap : α → Answer) (run : Checked (Except Error α × Pool)) :
    Checked (Except Error Answer × Pool) := do
  let (found, p) ← run
  pure (found.map wrap, p)

def run (p : Pool) : Call → Checked (Except Error Answer × Pool)
  | .allocate size => answer .pointer (p.allocate size)
  | .allocateOwned size owner parent => answer .pointer (p.allocateOwned size owner parent)
  | .allocateZeroed size => answer .pointer (p.allocateZeroed size)
  | .free ptr => answer .released (p.free ptr)
  | .freeRecursive ptr => answer .count (p.freeRecursive ptr)
  | .reallocate ptr size => answer .pointer (p.reallocate ptr size)
  | .reallocateOwned ptr size owner parent =>
    answer .pointer (p.reallocateOwned ptr size owner parent)
  | .editRegistry edits => pure (.ok .done, p.editRegistry (·.edited edits))
  | .rewrite ptr contents => answer .count (p.rewritePayload ptr contents)

def returns (p : Pool) : Call → List Pointer
  | .free ptr => [ptr]
  | .freeRecursive ptr => if ptr.isNull then [] else p.subtree ptr
  | .reallocate ptr _ => [ptr]
  | .reallocateOwned ptr _ _ _ => [ptr]
  | _ => []

def asks : Call → Nat
  | .allocate size => size
  | .allocateOwned size _ _ => size
  | .allocateZeroed size => size
  | .reallocate _ size => size
  | .reallocateOwned _ size _ _ => size
  | _ => 0

end Call

abbrev Ledger : Type := Pointer → Option Nat

namespace Ledger

def empty : Ledger := fun _ => none

def reported (p : Pool) (ptr : Pointer) : Nat :=
  match p.allocationSize ptr with
  | .ok (.ok size) => size
  | _ => 0

def without (l : Ledger) (ptrs : List Pointer) : Ledger := fun q => if q ∈ ptrs then none else l q

def grant (l : Ledger) (p : Pool) (ptr : Pointer) : Ledger :=
  fun q => if q = ptr then some (reported p ptr) else l q

/-- The ledger after a call that took `p` to `p'`. -/
def after (l : Ledger) (p p' : Pool) (call : Call) : Except Error Answer → Ledger
  | .error _ => l
  | .ok (.pointer ptr) =>
    if call.asks = 0 then l.without (call.returns p) else (l.without (call.returns p)).grant p' ptr
  | .ok _ => l.without (call.returns p)

section After

variable {l : Ledger} {p p' : Pool} {call : Call} {answer : Answer} {ptr : Pointer}

theorem after_silent (silent : ∀ ptr, answer = .pointer ptr → call.asks = 0) :
    l.after p p' call (.ok answer) = l.without (call.returns p) := by
  cases answer with
  | pointer ptr => exact if_pos (silent ptr rfl)
  | _ => rfl

theorem after_asked (asked : call.asks ≠ 0) :
    l.after p p' call (.ok (.pointer ptr)) = (l.without (call.returns p)).grant p' ptr :=
  if_neg asked

end After

end Ledger

structure Session where
  pool : Pool
  ledger : Ledger

namespace Session

def step (s : Session) (call : Call) : Checked (Except Error Answer × Session) := do
  let (answer, pool) ← call.run s.pool
  pure (answer, ⟨pool, s.ledger.after s.pool pool call answer⟩)

theorem step_eq {s : Session} {call : Call} {answer : Except Error Answer} {p : Pool}
    (run : call.run s.pool = .ok (answer, p)) :
    s.step call = .ok (answer, ⟨p, s.ledger.after s.pool p call answer⟩) := by
  simp only [Session.step, run, Checked.ok_bind, Checked.pure_eq]

def run (s : Session) : List Call → Checked Session
  | [] => pure s
  | call :: rest => do
    let (_, s) ← s.step call
    s.run rest

end Session

inductive Construction where
  | whole
  | region (start : Nat) (size : Option Nat) (registry : Option Registry)
  | config (c : Config)

namespace Construction

def build (b : Buffer) : Construction → Checked (Except Error Pool)
  | .whole => Pool.ofBuffer b
  | .region start size registry => Pool.create b start size registry
  | .config c => Pool.ofConfig b c

/-- The session that a construction and some calls make, if all of them go through. -/
def session? (k : Construction) (b : Buffer) (calls : List Call) : Option Session :=
  match k.build b with
  | .ok (.ok p) => (Session.run ⟨p, .empty⟩ calls).toOption
  | _ => none

theorem of_session? {k : Construction} {b : Buffer} {calls : List Call} {s : Session}
    (made : k.session? b calls = some s) :
    ∃ p, k.build b = .ok (.ok p) ∧ Session.run ⟨p, .empty⟩ calls = .ok s := by
  unfold Construction.session? at made
  split at made
  · rename_i p built
    refine ⟨p, built, ?_⟩
    cases run : Session.run ⟨p, .empty⟩ calls with
    | error f =>
      rw [run] at made
      cases made
    | ok s' =>
      rw [run] at made
      cases made
      rfl
  · cases made

/-- The registry that is handed in, if any, is one that a host can have. -/
def Proper : Construction → Prop
  | .region _ _ registry => ∀ r ∈ registry, r.Reachable
  | _ => True

theorem proper_empty (start : Nat) (size : Option Nat) : (region start size (some .empty)).Proper := by
  intro r mem
  exact ⟨[], Option.some.inj mem⟩

end Construction

/-- Sessions over less than 2 GiB after `n` calls. -/
def Session.After (n : Nat) (s : Session) : Prop :=
  ∃ (b : Buffer) (k : Construction) (p : Pool) (calls : List Call),
    b.size < 2 ^ 31 ∧ k.Proper ∧ k.build b = .ok (.ok p) ∧ calls.length = n ∧
      Session.run ⟨p, .empty⟩ calls = .ok s

def Session.Reachable (s : Session) : Prop := ∃ n < 2 ^ 63, s.After n

end Tlsf
