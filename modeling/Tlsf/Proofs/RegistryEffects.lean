import Tlsf.Proofs.Owners
import Tlsf.Proofs.SessionSteps

/-!
What a call does to the registry. If it succeeds it either drops the pointers that
it gives back, or enters a new one, or lets the registration of a resized pointer
follow it; `Registers` has these three cases, for all calls but those that edit the
registry by themselves. Nothing is assumed of the pool.
-/

namespace Tlsf

def nonnull (ptrs : List Pointer) : List Pointer := ptrs.filter fun q => !q.isNull

theorem mem_nonnull {ptrs : List Pointer} {q : Pointer} :
    q ∈ nonnull ptrs ↔ q ∈ ptrs ∧ q.isNull = false := by simp [nonnull]

theorem nonnull_eq_nil {ptrs : List Pointer} (null : ∀ q ∈ ptrs, q.isNull = true) :
    nonnull ptrs = [] := by simpa [nonnull] using null

namespace Pool

open Registry

variable {p p' : Pool} {r : Registry} {o : Option Ownership} {q : Pointer}

theorem enter_owner? (f : r.Forest) (fresh : r.owner? q = none) (x : Pointer) :
    (enter r q o).owner? x = if x = q then o.map (·.owner) else r.owner? x := by
  cases o with
  | none =>
    by_cases same : x = q
    · rw [if_pos same, same]
      exact fresh
    · rw [if_neg same]
      rfl
  | some o => exact register_owner? f q o.owner o.parent x

theorem Frees.registry {ptr : Pointer} {released : Bool} (ends : p.Frees ptr (.ok released) p') :
    p'.registry = p.registry.map ((nonnull [ptr]).foldl unregister) := by
  cases ends with
  | idle null counted =>
    rw [nonnull_eq_nil (by simpa using null)]
    exact Option.map_id'.symm
  | released nonnull counted =>
    have kept : Tlsf.nonnull [ptr] = [ptr] := by simp [Tlsf.nonnull, nonnull]
    rw [kept]
    rfl

theorem freeAll_registry {ptrs : List Pointer} {count : Nat}
    (run : p.freeAll ptrs = .ok (.ok count, p')) :
    p'.registry = p.registry.map ((nonnull ptrs).foldl unregister) := by
  induction ptrs generalizing p count with
  | nil =>
    cases run
    exact Option.map_id'.symm
  | cons ptr rest ih =>
    rcases freeAll_cons run with ⟨e, failed, -⟩ | ⟨released, p₁, later, ends, run, found⟩
    · cases failed
    · cases later with
      | error e => cases found
      | ok n =>
        have split : nonnull (ptr :: rest) = nonnull [ptr] ++ nonnull rest :=
          List.filter_append [ptr] rest
        rw [ih run, ends.registry, Option.map_map, split]
        congr 1
        funext r
        rw [Function.comp_apply, List.foldl_append]

end Pool

namespace Call

open Pool

def EditsRegistry : Call → Prop
  | .editRegistry _ => True
  | _ => False

def owns : Call → Option Ownership
  | .allocateOwned _ owner parent => some ⟨owner, parent⟩
  | .reallocateOwned _ _ owner parent => some ⟨owner, parent⟩
  | _ => none

def resized : Call → Option Pointer
  | .reallocate ptr _ => some ptr
  | .reallocateOwned ptr _ _ _ => some ptr
  | _ => none

/-- How the registry of `p` goes on after a call that succeeds. -/
inductive Registers (call : Call) (p : Pool) : Answer → Option Registry → Prop where
  | dropped {answer : Answer} (silent : ∀ q, answer = .pointer q → call.asks = 0) :
      Registers call p answer
        (p.registry.map ((nonnull (call.returns p)).foldl Registry.unregister))
  | entered {q : Pointer} (asked : call.asks ≠ 0)
      (nothing : ∀ ptr ∈ call.returns p, ptr.isNull = true)
      (anew : ∀ ptr ∈ call.resized, ptr.isNull = true) :
      Registers call p (.pointer q) (p.registry.map (enter · q call.owns))
  | followed {ptr q : Pointer} (asked : call.asks ≠ 0) (resizes : call.resized = some ptr)
      (returns : call.returns p = [ptr]) :
      Registers call p (.pointer q) (p.registry.map (followResize · ptr q call.owns))

variable {p p' : Pool} {call : Call} {answer : Answer} {size : Nat} {ptr q : Pointer}

theorem Registers.unchanged (silent : ∀ q, answer = .pointer q → call.asks = 0)
    (nothing : ∀ ptr ∈ call.returns p, ptr.isNull = true) : call.Registers p answer p.registry := by
  have dropped : call.Registers p answer _ := .dropped silent
  rw [nonnull_eq_nil nothing] at dropped
  simpa only [List.foldl_nil, Option.map_id'] using dropped

theorem registers_allocates (call : Call)
    (ends : p.Allocates size call.owns (.ok q) p') (asks : call.asks = size)
    (nothing : ∀ ptr ∈ call.returns p, ptr.isNull = true)
    (anew : ∀ ptr ∈ call.resized, ptr.isNull = true) :
    call.Registers p (.pointer q) p'.registry := by
  cases ends with
  | idle none counted => exact .unchanged (fun _ _ => asks.trans none) nothing
  | granted asked counted => exact .entered (asks ▸ asked) nothing anew

theorem registers_resizes (call : Call)
    (ends : p.Resizes ptr size call.owns (.ok q) p') (asks : call.asks = size)
    (returns : call.returns p = [ptr]) (resizes : call.resized = some ptr) :
    call.Registers p (.pointer q) p'.registry := by
  generalize found_eq : (Except.ok q : Except Error Pointer) = found at ends
  cases ends with
  | allocates null ends =>
    subst found_eq
    refine registers_allocates call ends asks (fun x mem => ?_) fun x mem => ?_
    · rw [returns, List.mem_singleton] at mem
      rw [mem, null]
    · rw [resizes] at mem
      rw [← Option.some.inj mem, null]
  | @frees released _ nonnull nothing ends =>
    cases released with
    | error e => cases found_eq
    | ok released =>
      rw [ends.registry, ← returns]
      exact .dropped fun _ _ => asks.trans nothing
  | failed counted => cases found_eq
  | resized nonnull asked counted =>
    cases found_eq
    exact .followed (asks ▸ asked) resizes returns

theorem registers_freeRecursive {count : Nat} (run : p.freeRecursive ptr = .ok (.ok count, p')) :
    (Call.freeRecursive ptr).Registers p (.count count) p'.registry := by
  rcases freeRecursive_ends run with ⟨null, -, rfl⟩ | ⟨e, t, failed, -⟩ | ⟨nonnull, run⟩
  · exact .unchanged (fun _ _ => rfl) (by simp [returns, null])
  · cases failed
  · have returned : (Call.freeRecursive ptr).returns p = p.subtree ptr := by simp [returns, nonnull]
    rw [freeAll_registry run, ← returned]
    exact .dropped fun _ _ => rfl

theorem registers (run : call.run p = .ok (.ok answer, p')) (own : ¬ call.EditsRegistry) :
    call.Registers p answer p'.registry := by
  cases call with
  | allocate size =>
    obtain ⟨q, ran, rfl⟩ := answered run
    exact registers_allocates (.allocate size) (allocateFor_ends ran) rfl (by simp [returns])
      (by simp [resized])
  | allocateOwned size owner parent =>
    obtain ⟨q, ran, rfl⟩ := answered run
    exact registers_allocates (.allocateOwned size owner parent) (allocateFor_ends ran) rfl
      (by simp [returns]) (by simp [resized])
  | allocateZeroed size =>
    obtain ⟨q, ran, rfl⟩ := answered run
    obtain ⟨found', p₁, arena, ends, rfl, same⟩ := allocateZeroed_ends ran
    rw [same q rfl] at ends
    have registered := registers_allocates (.allocateZeroed size) ends rfl (by simp [returns])
      (by simp [resized])
    exact registered
  | free ptr =>
    obtain ⟨released, ran, rfl⟩ := answered run
    rw [(free_ends ran).registry]
    exact .dropped fun _ _ => rfl
  | freeRecursive ptr =>
    obtain ⟨count, ran, rfl⟩ := answered run
    exact registers_freeRecursive ran
  | reallocate ptr size =>
    obtain ⟨q, ran, rfl⟩ := answered run
    exact registers_resizes (.reallocate ptr size) (reallocateFor_ends ran) rfl rfl rfl
  | reallocateOwned ptr size owner parent =>
    obtain ⟨q, ran, rfl⟩ := answered run
    exact registers_resizes (.reallocateOwned ptr size owner parent) (reallocateFor_ends ran) rfl rfl
      rfl
  | editRegistry edits => exact absurd trivial own
  | rewrite ptr contents =>
    obtain ⟨n, ran, rfl⟩ := answered run
    obtain ⟨arena, rfl⟩ := editPayload_ends ran
    exact .unchanged (fun _ _ => rfl) (by simp [returns])

end Call

end Tlsf
