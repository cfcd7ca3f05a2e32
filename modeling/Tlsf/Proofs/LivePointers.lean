import Tlsf.Proofs.SessionRuns

/-!
Which pointers a pool accepts. `p.Vouches ptr granted` says what `p` makes of a
pointer that is not null, when `granted` is the size that the host was granted
for it, if it still has it. The answers depend on nothing else: not on what the
bytes around the pointer look like, nor on what the pointer once was.
-/

namespace Tlsf

open Dimensions Buffer

def Denied {α : Type} : Except Error α → Prop
  | .error (.safety _) => True
  | _ => False

/-- Every operation on a pointer answers, and denies it exactly when nothing is granted. -/
structure Pool.Vouches (p : Pool) (ptr : Pointer) (granted : Option Nat) : Prop where
  free : ∃ found p', p.free ptr = .ok (found, p') ∧ (Denied found ↔ granted = none)
  payload : ∃ found, p.payload ptr = .ok found ∧ (Denied found ↔ granted = none)
  rewritePayload : ∀ contents, ∃ found p',
    p.rewritePayload ptr contents = .ok (found, p') ∧ (Denied found ↔ granted = none)
  allocationSize : ∃ found, p.allocationSize ptr = .ok found ∧ (Denied found ↔ granted = none)
  reallocateFor : ∀ size ownership, ∃ found p',
    p.reallocateFor ptr size ownership = .ok (found, p') ∧ (Denied found ↔ granted = none)
  isValidRange : ∀ length,
    p.isValidRange ptr length = .ok (decide (∃ size ∈ granted, length ≤ size))

namespace Pool

variable {p : Pool} {n : Nat} {cells : List Cell} {lists : SizeClass → List Nat} {x : Cell}
  {ptr : Pointer}

theorem denied_iff_none {α : Type} (v : Violation) :
    Denied (.error (.safety v) : Except Error α) ↔ (none : Option Nat) = none := by simp [Denied]

theorem accepted_iff_some {α : Type} (answer : α) (size : Nat) :
    Denied (.ok answer : Except Error α) ↔ some size = none := by simp [Denied]

theorem exhausted_iff_some {α : Type} (asked size : Nat) :
    Denied (.error (.outOfMemory asked) : Except Error α) ↔ some size = none := by simp [Denied]

theorem Sound.vouches_live (sound : p.Sound n cells lists) (bound : n + 1 < UInt64.size)
    (mem : x ∈ usedCells cells) : p.Vouches x.pointer (some x.size) := by
  have nonnull := sound.pointer_ne_null mem
  refine ⟨?_, ?_, fun contents => ?_, ?_, fun size ownership => ?_, fun length => ?_⟩
  · obtain ⟨p', run, -⟩ := free_live sound bound mem
    exact ⟨_, p', run, accepted_iff_some _ _⟩
  · exact ⟨_, payload_live sound mem, accepted_iff_some _ _⟩
  · obtain ⟨p', run, -⟩ := rewritePayload_live sound mem contents
    exact ⟨_, p', run, accepted_iff_some _ _⟩
  · exact ⟨_, allocationSize_live sound mem, accepted_iff_some _ _⟩
  · by_cases nothing : size = 0
    · subst nothing
      rcases reallocateFor_zero sound bound nonnull ownership with
        ⟨v, -, dead, -⟩ | ⟨y, p', -, -, run, -⟩
      · exact absurd rfl (dead x mem)
      · exact ⟨_, p', run, accepted_iff_some _ _⟩
    · rcases reallocateFor_live sound bound mem nothing ownership with
        ⟨run, -⟩ | ⟨x', p', run, -, -⟩
      · exact ⟨_, _, run, exhausted_iff_some _ _⟩
      · exact ⟨_, p', run, accepted_iff_some _ _⟩
  · rw [isValidRange_live sound mem length]
    simp

theorem Sound.vouches_dead (sound : p.Sound n cells lists) (bound : n + 1 < UInt64.size)
    (nonnull : ptr.isNull = false) (dead : ∀ x ∈ usedCells cells, x.pointer ≠ ptr) :
    p.Vouches ptr none := by
  refine ⟨?_, ?_, fun contents => ?_, ?_, fun size ownership => ?_, fun length => ?_⟩
  · obtain ⟨v, run, -⟩ := free_dead sound bound nonnull dead
    exact ⟨_, _, run, denied_iff_none v⟩
  · obtain ⟨v, run⟩ := payload_dead sound dead nonnull
    exact ⟨_, run, denied_iff_none v⟩
  · obtain ⟨v, run⟩ := editPayload_dead sound nonnull dead
      fun start size b => pure (Buffer.update contents start size b)
    exact ⟨_, _, run, denied_iff_none v⟩
  · obtain ⟨v, run⟩ := allocationSize_dead sound dead nonnull
    exact ⟨_, run, denied_iff_none v⟩
  · by_cases nothing : size = 0
    · subst nothing
      rcases reallocateFor_zero sound bound nonnull ownership with
        ⟨v, run, -, -⟩ | ⟨x, p', mem, live, -⟩
      · exact ⟨_, _, run, denied_iff_none v⟩
      · exact absurd live (dead x mem)
    · obtain ⟨v, run, -⟩ := reallocateFor_dead sound bound nonnull nothing ownership dead
      exact ⟨_, _, run, denied_iff_none v⟩
  · rw [isValidRange_dead sound dead nonnull length]
    simp

end Pool

namespace Session

variable {s : Session}

theorem vouches_iff_granted (reach : s.Reachable) :
    (∀ ptr : Pointer, ptr.isNull = false → s.pool.Vouches ptr (s.ledger ptr)) ∧
      ∀ length, s.pool.isValidRange .null length = .ok (decide (length = 0)) := by
  obtain ⟨n, cells, lists, bound, sound⟩ := reach.sound
  constructor
  · intro ptr nonnull
    cases granted : s.ledger ptr with
    | none => exact sound.pool.vouches_dead bound nonnull ((sound.book.none_iff ptr).mp granted)
    | some size =>
      obtain ⟨x, mem, rfl, rfl⟩ := (sound.book ptr size).mp granted
      exact sound.pool.vouches_live bound mem
  · intro length
    rfl

/-- After a resize that moved: the old pointer, the new one, and one inside the other block. -/
theorem vouches_iff_granted_sample : ∃ s,
    Construction.whole.session? (.filled 256 0x10)
        [.allocate 24, .allocate 24, .reallocate ⟨8⟩ 60] = some s ∧
      s.pool.Vouches ⟨8⟩ none ∧ s.pool.Vouches ⟨72⟩ (some 64) ∧ s.pool.Vouches ⟨48⟩ none := by
  have made : ((Construction.whole.session? (.filled 256 0x10)
      [.allocate 24, .allocate 24, .reallocate ⟨8⟩ 60]).map
        fun s => (s.ledger ⟨8⟩, s.ledger ⟨72⟩, s.ledger ⟨48⟩)) = some (none, some 64, none) := by
    decide +kernel
  obtain ⟨s, session, entries⟩ := Option.map_eq_some_iff.mp made
  obtain ⟨moved, target, inside⟩ : s.ledger ⟨8⟩ = none ∧ s.ledger ⟨72⟩ = some 64 ∧
      s.ledger ⟨48⟩ = none := by simpa using entries
  have small : (Buffer.filled 256 0x10).size < 2 ^ 31 := by decide +kernel
  have proper : Construction.whole.Proper := trivial
  have reach : s.Reachable := reachable_of_session? small proper (by decide) session
  obtain ⟨accepted, -⟩ := vouches_iff_granted reach
  refine ⟨s, session, ?_, ?_, ?_⟩
  · exact moved ▸ accepted ⟨8⟩ rfl
  · exact target ▸ accepted ⟨72⟩ rfl
  · exact inside ▸ accepted ⟨48⟩ rfl

end Session

end Tlsf
