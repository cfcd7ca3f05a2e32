import Tlsf.Pool.Operations
import Tlsf.Proofs.PoolCalls

/-!
How the operations end, read off their answers. Nothing is assumed of the pool
here: if an operation answers at all, it ended in one of a few ways, and each of
them says which counter moved, what became of the registry and that all else but
the arena is as it was. Callers go through these cases and never open an
operation again.
-/

namespace Tlsf.Pool

inductive Allocates (p : Pool) (size : Nat) (o : Option Ownership) :
    Except Error Pointer → Pool → Prop where
  | idle {t : Tally} (nothing : size = 0) (counted : p.tally.allocateIdle = .ok t) :
      Allocates p size o (.ok .null) { p with tally := t }
  | failed {t : Tally} (counted : p.tally.allocateFailed = .ok t) :
      Allocates p size o (.error (.outOfMemory size)) { p with tally := t }
  | granted {h payload : Nat} {arena : Arena} {t : Tally} (asked : size ≠ 0)
      (counted : p.tally.allocated payload = .ok t) :
      Allocates p size o (.ok (pointerOf h))
        { p with arena, registry := p.registry.map (enter · (pointerOf h) o), tally := t }

inductive Frees (p : Pool) (ptr : Pointer) : Except Error Bool → Pool → Prop where
  | idle {t : Tally} (null : ptr.isNull = true) (counted : p.tally.freeIdle = .ok t) :
      Frees p ptr (.ok false) { p with tally := t }
  | failed {e : Error} {t : Tally} (counted : p.tally.freeFailed = .ok t) :
      Frees p ptr (.error e) { p with tally := t }
  | released {payload : Nat} {arena : Arena} {t : Tally} (nonnull : ptr.isNull = false)
      (counted : p.tally.freed payload = .ok t) :
      Frees p ptr (.ok true)
        { p with arena, registry := p.registry.map (·.unregister ptr), tally := t }

/-- A resize came down to an allocation or a release, was refused or found no room, or gave the
block a size and perhaps another place. -/
inductive Resizes (p : Pool) (ptr : Pointer) (size : Nat) (o : Option Ownership) :
    Except Error Pointer → Pool → Prop where
  | allocates {found : Except Error Pointer} {p' : Pool} (null : ptr.isNull = true)
      (ends : p.Allocates size o found p') : Resizes p ptr size o found p'
  | frees {found : Except Error Bool} {p' : Pool} (nonnull : ptr.isNull = false) (nothing : size = 0)
      (ends : p.Frees ptr found p') : Resizes p ptr size o (found.map fun _ => .null) p'
  | failed {e : Error} {t : Tally} (counted : p.tally.reallocateFailed = .ok t) :
      Resizes p ptr size o (.error e) { p with tally := t }
  | resized {h before after : Nat} {how : Arena.Resize} {arena : Arena} {t : Tally}
      (nonnull : ptr.isNull = false) (asked : size ≠ 0)
      (counted : p.tally.reallocated how before after = .ok t) :
      Resizes p ptr size o (.ok (pointerOf h))
        { p with
          arena
          registry := p.registry.map (followResize · ptr (pointerOf h) o)
          tally := t }

variable {p p' : Pool} {ptr : Pointer} {size : Nat} {o : Option Ownership}

theorem allocateFor_ends {found : Except Error Pointer} (run : p.allocateFor size o = .ok (found, p')) :
    p.Allocates size o found p' := by
  unfold allocateFor at run
  by_cases nothing : size = 0
  · rw [if_pos nothing] at run
    obtain ⟨t, counted, run⟩ := Checked.of_bind run
    cases run
    exact .idle nothing counted
  · rw [if_neg nothing] at run
    obtain ⟨taken, -, run⟩ := Checked.of_bind run
    cases taken with
    | none =>
      obtain ⟨t, counted, run⟩ := Checked.of_bind run
      cases run
      exact .failed counted
    | some block =>
      obtain ⟨h, arena⟩ := block
      obtain ⟨payload, -, run⟩ := Checked.of_bind run
      obtain ⟨t, counted, run⟩ := Checked.of_bind run
      cases run
      cases o with
      | none =>
        have granted : p.Allocates size none (.ok (pointerOf h)) { p with
            arena, registry := p.registry.map (enter · (pointerOf h) none), tally := t } :=
          .granted nothing counted
        simpa only [enter, Option.map_id'] using granted
      | some o => exact .granted nothing counted

theorem free_ends {found : Except Error Bool} (run : p.free ptr = .ok (found, p')) :
    p.Frees ptr found p' := by
  unfold free at run
  cases null : ptr.isNull with
  | true =>
    rw [if_pos null] at run
    obtain ⟨t, counted, run⟩ := Checked.of_bind run
    cases run
    exact .idle null counted
  | false =>
    rw [null, if_neg Bool.false_ne_true] at run
    obtain ⟨header, -, run⟩ := Checked.of_bind run
    cases header with
    | error e =>
      obtain ⟨t, counted, run⟩ := Checked.of_bind run
      cases run
      exact .failed counted
    | ok h =>
      obtain ⟨payload, -, run⟩ := Checked.of_bind run
      obtain ⟨arena, -, run⟩ := Checked.of_bind run
      obtain ⟨t, counted, run⟩ := Checked.of_bind run
      cases run
      exact .released null counted

theorem reallocateFor_ends {found : Except Error Pointer}
    (run : p.reallocateFor ptr size o = .ok (found, p')) : p.Resizes ptr size o found p' := by
  unfold reallocateFor at run
  cases null : ptr.isNull with
  | true =>
    rw [if_pos null] at run
    exact .allocates null (allocateFor_ends run)
  | false =>
    rw [null, if_neg Bool.false_ne_true] at run
    by_cases nothing : size = 0
    · rw [if_pos nothing] at run
      obtain ⟨⟨found, p'⟩, released, run⟩ := Checked.of_bind run
      cases run
      exact .frees null nothing (free_ends released)
    · rw [if_neg nothing] at run
      obtain ⟨header, -, run⟩ := Checked.of_bind run
      cases header with
      | error e =>
        obtain ⟨t, counted, run⟩ := Checked.of_bind run
        cases run
        exact .failed counted
      | ok h =>
        obtain ⟨resized, -, run⟩ := Checked.of_bind run
        cases resized with
        | none =>
          obtain ⟨t, counted, run⟩ := Checked.of_bind run
          cases run
          exact .failed counted
        | some block =>
          obtain ⟨resized, arena⟩ := block
          obtain ⟨after, -, run⟩ := Checked.of_bind run
          obtain ⟨t, counted, run⟩ := Checked.of_bind run
          cases run
          exact .resized null nothing counted

theorem editPayload_ends {change : Nat → Nat → Buffer → Checked Buffer} {found : Except Error Nat}
    (run : p.editPayload ptr change = .ok (found, p')) : ∃ arena, p' = { p with arena } := by
  obtain ⟨sized, -, run⟩ := Checked.of_bind run
  cases sized with
  | error e =>
    cases run
    exact ⟨p.arena, rfl⟩
  | ok size =>
    obtain ⟨arena, -, run⟩ := Checked.of_bind run
    cases run
    exact ⟨arena, rfl⟩

theorem allocateZeroed_ends {found : Except Error Pointer}
    (run : p.allocateZeroed size = .ok (found, p')) :
    ∃ found' p₁ arena, p.Allocates size none found' p₁ ∧ p' = { p₁ with arena } ∧
      (∀ ptr, found = .ok ptr → found' = .ok ptr) := by
  obtain ⟨⟨found', p₁⟩, allocated, run⟩ := Checked.of_bind run
  have ends := allocateFor_ends allocated
  cases found' with
  | error e =>
    cases run
    exact ⟨_, p', p'.arena, ends, rfl, fun ptr found => nomatch found⟩
  | ok ptr =>
    obtain ⟨⟨cleared, p₂⟩, filled, run⟩ := Checked.of_bind run
    obtain ⟨arena, rfl⟩ := editPayload_ends filled
    cases run
    refine ⟨_, p₁, arena, ends, rfl, fun q found => ?_⟩
    cases cleared with
    | error e => cases found
    | ok size => exact found

theorem freeAll_cons {rest : List Pointer} {found : Except Error Nat}
    (run : p.freeAll (ptr :: rest) = .ok (found, p')) :
    (∃ e, found = .error e ∧ p.Frees ptr (.error e) p') ∨
      ∃ released p₁ later, p.Frees ptr (.ok released) p₁ ∧ p₁.freeAll rest = .ok (later, p') ∧
        found = later.map (· + released.toNat) := by
  obtain ⟨⟨first, p₁⟩, freed, run⟩ := Checked.of_bind run
  have ends := free_ends freed
  cases first with
  | error e =>
    cases run
    exact .inl ⟨e, rfl, ends⟩
  | ok released =>
    obtain ⟨⟨later, p₂⟩, rest, run⟩ := Checked.of_bind run
    cases run
    exact .inr ⟨released, p₁, later, ends, rest, rfl⟩

theorem freeRecursive_ends {found : Except Error Nat} (run : p.freeRecursive ptr = .ok (found, p')) :
    (ptr.isNull = true ∧ found = .ok 0 ∧ p' = p) ∨
      (∃ e t, found = .error e ∧ p.tally.freeFailed = .ok t ∧ p' = { p with tally := t }) ∨
      ptr.isNull = false ∧ p.freeAll (p.subtree ptr) = .ok (found, p') := by
  cases null : ptr.isNull with
  | true =>
    rw [freeRecursive_null null] at run
    cases run
    exact .inl ⟨rfl, rfl, rfl⟩
  | false =>
    rw [freeRecursive_eq null] at run
    obtain ⟨violation, -, run⟩ := Checked.of_bind run
    cases violation with
    | none => exact .inr (.inr ⟨rfl, run⟩)
    | some e =>
      obtain ⟨t, counted, run⟩ := Checked.of_bind run
      cases run
      exact .inr (.inl ⟨e, t, rfl, counted, rfl⟩)

end Tlsf.Pool
