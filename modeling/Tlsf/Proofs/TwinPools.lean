import Tlsf.Proofs.FreshPool
import Tlsf.Proofs.Twins

/-!
Two pools over different bytes, call by call. Twin pools have twin arenas, the
same layout and the same tally; they share a registry if `shared` holds, and
need not have one otherwise. Each call ends the same way in both: with the same
answer and twins again, or with the same fault. So nothing has to be known
about how far the counters have come.
-/

namespace Tlsf

open Dimensions Buffer

/-- Two computations that both give results, which are related, or stop at the same fault. -/
inductive Checked.Both {α β : Type} (R : α → β → Prop) : Checked α → Checked β → Prop where
  | ok {a : α} {b : β} (related : R a b) : Both R (.ok a) (.ok b)
  | error (f : Fault) : Both R (.error f) (.error f)

namespace Checked.Both

variable {α β γ δ : Type} {R : α → β → Prop} {S : γ → δ → Prop}

theorem bind {x : Checked α} {y : Checked β} {f : α → Checked γ} {g : β → Checked δ}
    (both : Both R x y) (each : ∀ a b, R a b → Both S (f a) (g b)) : Both S (x >>= f) (y >>= g) := by
  cases both with
  | ok related => exact each _ _ related
  | error f => exact .error f

theorem common (x : Checked α) {f : α → Checked γ} {g : α → Checked δ}
    (each : ∀ a, Both S (f a) (g a)) : Both S (x >>= f) (x >>= g) := by
  cases x with
  | ok a => exact each a
  | error f => exact .error f

theorem of_ok {a : α} {y : Checked β} (both : Both R (.ok a) y) : ∃ b, y = .ok b ∧ R a b := by
  cases both with
  | ok related => exact ⟨_, rfl, related⟩

theorem mono {R' : α → β → Prop} {x : Checked α} {y : Checked β} (both : Both R x y)
    (weaker : ∀ a b, R a b → R' a b) : Both R' x y := by
  cases both with
  | ok related => exact .ok (weaker _ _ related)
  | error f => exact .error f

end Checked.Both

/-- A tally for which some blocks were handed out and nothing else was done. -/
def Tally.holding (used : List Cell) : Tally :=
  { usedPayload := payloadSum used, active := used.length, allocate := ⟨used.length, used.length, 0⟩ }

theorem Tally.holding_counts (used : List Cell) : (holding used).Counts used.length used := by
  constructor <;> simp [holding]

namespace Pool

/-- What a pool needs for its calls to be told by its cells and lists; its counters may be any. -/
def Stands (p : Pool) (cells : List Cell) (lists : SizeClass → List Nat) : Prop :=
  p.arena.Fills p.layout cells lists

structure Twins (shared : Prop) (p p' : Pool) (cells : List Cell) (lists : SizeClass → List Nat) :
    Prop where
  left : p.Stands cells lists
  right : p'.Stands cells lists
  layout : p'.layout = p.layout
  tally : p'.tally = p.tally
  registry : shared → p'.registry = p.registry

/-- The pool without a registry and as if nothing had been done but what its blocks tell. Pointer
checks and reads of a pool do not see the difference. -/
def bare (p : Pool) (cells : List Cell) : Pool :=
  { p with registry := none, tally := .holding (usedCells cells) }

section Stands

variable {p : Pool} {cells : List Cell} {lists : SizeClass → List Nat} {x : Cell} {ptr : Pointer}

theorem Stands.bare (stands : p.Stands cells lists) :
    (p.bare cells).Sound (usedCells cells).length cells lists :=
  ⟨stands.stable, stands.start, stands.inside, stands.region, stands.low, Tally.holding_counts _,
    fun _ mem => nomatch mem⟩

theorem Stands.header_live (stands : p.Stands cells lists) (mem : x ∈ usedCells cells) :
    p.header x.pointer = .ok (.ok x.header) := by
  have seen := Pool.header_live stands.bare mem
  exact seen

theorem Stands.header_refused (stands : p.Stands cells lists)
    (dead : ∀ x ∈ usedCells cells, x.pointer ≠ ptr) :
    p.header ptr = .ok (.error (.safety (p.refusal ptr))) := by
  have seen := Pool.header_refused stands.bare dead
  exact seen

theorem Stands.allocationSize_live (stands : p.Stands cells lists) (mem : x ∈ usedCells cells) :
    p.allocationSize x.pointer = .ok (.ok x.size) := by
  have seen := Pool.allocationSize_live stands.bare mem
  exact seen

theorem Stands.allocationSize_refused (stands : p.Stands cells lists) (nonnull : ptr.isNull = false)
    (dead : ∀ x ∈ usedCells cells, x.pointer ≠ ptr) :
    p.allocationSize ptr = .ok (.error (.safety (p.refusal ptr))) := by
  simp only [allocationSize, nonnull, stands.header_refused dead, Checked.ok_bind, Checked.pure_eq,
    Bool.false_eq_true, if_false]

structure Contained (change : Nat → Nat → Buffer → Checked Buffer) : Prop where
  idle : ∀ b, change 0 0 b = .ok b
  touches : ∀ start size (b : Buffer), start + size ≤ b.size →
    ∃ b', change start size b = .ok b' ∧ OnlyTouches b b' (Set.Ico start (start + size))

theorem contained_update (contents : Nat → UInt8) :
    Contained fun start size b => pure (Buffer.update contents start size b) :=
  ⟨fun _ => rfl, fun start size b _ => ⟨_, rfl, .update b contents start size⟩⟩

theorem contained_fill (value : UInt8) : Contained fun start size b => b.fill start size value :=
  ⟨fun b => if_pos (Nat.zero_le b.size),
    fun start size b inside => ⟨_, if_pos inside, .update b (fun _ => value) start size⟩⟩

theorem Stands.editPayload (stands : p.Stands cells lists) (ptr : Pointer)
    {change : Nat → Nat → Buffer → Checked Buffer} (contained : Contained change) :
    ∃ found a, p.allocationSize ptr = .ok found ∧
      p.editPayload ptr change = .ok (found, { p with arena := a }) ∧
      a.Fills p.layout cells lists := by
  rcases pointer_cases cells ptr with null | ⟨nonnull, ⟨x, mem, rfl⟩ | dead⟩
  · have zero : ptr.offset = 0 := by
      rw [Pointer.offset, eq_of_beq null]
      rfl
    have idle : change ptr.offset 0 p.buffer = .ok p.buffer := zero ▸ contained.idle p.buffer
    exact ⟨_, p.arena, allocationSize_null null, editPayload_null null idle, stands⟩
  · have holds := stands.stable.holds
    have found := stands.allocationSize_live mem
    have inside : x.header + 8 + x.size ≤ p.buffer.size := by
      have whole := payload_inside stands.bare mem
      exact Nat.le_of_add_right_le whole
    obtain ⟨b, changed, touched⟩ := contained.touches (x.header + 8) x.size p.buffer inside
    have edited : p.arena.edit (change x.pointer.offset x.size) = .ok { p.arena with buffer := b } := by
      rw [stands.bare.pointer_offset mem]
      exact Arena.edit_eq changed
    refine ⟨_, { p.arena with buffer := b }, found, ?_,
      stands.after ⟨holds.rewrite mem touched, stands.stable.settled⟩ touched⟩
    simp only [Pool.editPayload, found, edited, Checked.ok_bind, Checked.pure_eq]
  · have refused := stands.allocationSize_refused nonnull dead
    refine ⟨_, p.arena, refused, ?_, stands⟩
    simp only [Pool.editPayload, refused, Checked.ok_bind, Checked.pure_eq]

end Stands

def Akin (shared : Prop) (p p' : Pool) : Prop := ∃ cells lists, Twins shared p p' cells lists

def Paired {α : Type} (shared : Prop) (r r' : Except Error α × Pool) : Prop :=
  r.1 = r'.1 ∧ Akin shared r.2 r'.2

namespace Twins

variable {shared : Prop} {p p' : Pool} {cells cells' : List Cell} {lists lists' : SizeClass → List Nat}
  {x : Cell} {a a' : Arena} {size : Nat} {o o' : Option Ownership}

theorem symm (twins : Twins shared p p' cells lists) : Twins shared p' p cells lists :=
  ⟨twins.right, twins.left, twins.layout.symm, twins.tally.symm,
    fun common => (twins.registry common).symm⟩

variable (twins : Twins shared p p' cells lists)
include twins

theorem arena : Arena.Twins p.layout p.arena p'.arena cells lists :=
  ⟨twins.left, twins.layout ▸ twins.right⟩

theorem refusal (ptr : Pointer) : p'.refusal ptr = p.refusal ptr := by
  simp only [Pool.refusal, twins.layout]

theorem change {t t' : Tally} {r r' : Option Registry}
    (after : Arena.Twins p.layout a a' cells' lists') (tally : t' = t) (registry : shared → r' = r) :
    Akin shared { p with arena := a, registry := r, tally := t }
      { p' with arena := a', registry := r', tally := t' } := by
  have right : a'.Fills p'.layout cells' lists' := twins.layout.symm ▸ after.right
  exact ⟨cells', lists', after.left, right, twins.layout, tally, registry⟩

theorem count (t : Tally) : Akin shared { p with tally := t } { p' with tally := t } :=
  twins.change twins.arena rfl twins.registry

/-! Pointer checks -/

theorem header (ptr : Pointer) : p'.header ptr = p.header ptr := by
  rcases live_or_dead cells ptr with ⟨x, mem, rfl⟩ | dead
  · rw [twins.left.header_live mem, twins.right.header_live mem]
  · rw [twins.left.header_refused dead, twins.right.header_refused dead, twins.refusal]

theorem allocationSize (ptr : Pointer) : p'.allocationSize ptr = p.allocationSize ptr := by
  rcases pointer_cases cells ptr with null | ⟨nonnull, ⟨x, mem, rfl⟩ | dead⟩
  · rw [allocationSize_null null, allocationSize_null null]
  · rw [twins.left.allocationSize_live mem, twins.right.allocationSize_live mem]
  · rw [twins.left.allocationSize_refused nonnull dead,
      twins.right.allocationSize_refused nonnull dead, twins.refusal]

/-! Calls -/

theorem allocateFor (size : Nat) (same : shared → o = o') :
    Checked.Both (Paired shared) (p.allocateFor size o) (p'.allocateFor size o') := by
  by_cases nothing : size = 0
  · simp only [Pool.allocateFor, if_pos nothing, twins.tally]
    exact .common _ fun t => .ok ⟨rfl, twins.count t⟩
  · rcases twins.arena.allocate? size with ⟨none, none'⟩ | found
    · simp only [Pool.allocateFor, if_neg nothing, none, none', Checked.ok_bind, twins.tally]
      exact .common _ fun t => .ok ⟨rfl, twins.count t⟩
    · obtain ⟨g, b, b', cells₁, lists₁, run, run', after, perm⟩ := found
      have mem : g ∈ usedCells cells₁ := perm.symm.subset (List.mem_cons_self ..)
      simp only [Pool.allocateFor, if_neg nothing, run, run', after.left.stable.holds.size_used mem,
        after.right.stable.holds.size_used mem, Checked.ok_bind, twins.tally]
      refine .common _ fun t => .ok ⟨rfl, twins.change after rfl fun common => ?_⟩
      rw [same common, twins.registry common]

theorem free (ptr : Pointer) : Checked.Both (Paired shared) (p.free ptr) (p'.free ptr) := by
  rcases pointer_cases cells ptr with null | ⟨nonnull, ⟨x, mem, rfl⟩ | dead⟩
  · simp only [Pool.free, null, if_true, twins.tally]
    exact .common _ fun t => .ok ⟨rfl, twins.count t⟩
  · obtain ⟨b, b', cells₁, lists₁, run, run', after, -⟩ :=
      twins.arena.release mem p.stompFreed p'.stompFreed
    have size : Block.size p.buffer x.header = .ok x.size := twins.left.stable.holds.size_used mem
    have size' : Block.size p'.buffer x.header = .ok x.size := twins.right.stable.holds.size_used mem
    simp only [Pool.free, nonnull, twins.header, twins.left.header_live mem, size, size', run, run',
      Checked.ok_bind, twins.tally, Bool.false_eq_true, if_false]
    refine .common _ fun t => .ok ⟨rfl, twins.change after rfl fun common => ?_⟩
    rw [twins.registry common]
  · simp only [Pool.free, nonnull, twins.header, twins.left.header_refused dead, Checked.ok_bind,
      twins.tally, Bool.false_eq_true, if_false]
    exact .common _ fun t => .ok ⟨rfl, twins.count t⟩

theorem editPayload (ptr : Pointer) {change change' : Nat → Nat → Buffer → Checked Buffer}
    (contained : Contained change) (contained' : Contained change') :
    Checked.Both (Paired shared) (p.editPayload ptr change) (p'.editPayload ptr change') := by
  obtain ⟨found, a, size, run, after⟩ := twins.left.editPayload ptr contained
  obtain ⟨found', a', size', run', after'⟩ := twins.right.editPayload ptr contained'
  rw [twins.allocationSize, size] at size'
  cases size'
  rw [run, run']
  exact .ok ⟨rfl, twins.change ⟨after, twins.layout ▸ after'⟩ twins.tally twins.registry⟩

theorem freeAll (ptrs : List Pointer) :
    Checked.Both (Paired shared) (p.freeAll ptrs) (p'.freeAll ptrs) := by
  induction ptrs generalizing p p' cells lists with
  | nil => exact .ok ⟨rfl, cells, lists, twins⟩
  | cons ptr rest ih =>
    refine (twins.free ptr).bind ?_
    rintro ⟨answer, q⟩ ⟨_, q'⟩ ⟨rfl, cells₁, lists₁, twins₁⟩
    cases answer with
    | error e => exact .ok ⟨rfl, cells₁, lists₁, twins₁⟩
    | ok released =>
      refine (ih twins₁).bind ?_
      rintro ⟨answer, q⟩ ⟨_, q'⟩ ⟨rfl, akin⟩
      exact .ok ⟨rfl, akin⟩

theorem firstViolation? (ptrs : List Pointer) : p'.firstViolation? ptrs = p.firstViolation? ptrs := by
  induction ptrs with
  | nil => rfl
  | cons ptr rest ih => simp only [Pool.firstViolation?, twins.header, ih]

theorem freeRecursive (common : shared) (ptr : Pointer) :
    Checked.Both (Paired shared) (p.freeRecursive ptr) (p'.freeRecursive ptr) := by
  by_cases null : ptr.isNull = true
  · rw [freeRecursive_null null, freeRecursive_null null]
    exact .ok ⟨rfl, cells, lists, twins⟩
  · rw [Bool.not_eq_true] at null
    have below : p'.subtree ptr = p.subtree ptr := by
      simp only [subtree, twins.registry common]
    rw [freeRecursive_eq null, freeRecursive_eq null, below, twins.firstViolation?]
    refine .common _ fun found => ?_
    cases found with
    | none => exact twins.freeAll _
    | some e =>
      rw [twins.tally]
      exact .common _ fun t => .ok ⟨rfl, twins.count t⟩

theorem reallocateFor (ptr : Pointer) (size : Nat) (same : shared → o = o') :
    Checked.Both (Paired shared) (p.reallocateFor ptr size o) (p'.reallocateFor ptr size o') := by
  by_cases null : ptr.isNull = true
  · simp only [Pool.reallocateFor, null, if_true]
    exact twins.allocateFor size same
  · rw [Bool.not_eq_true] at null
    by_cases nothing : size = 0
    · simp only [Pool.reallocateFor, null, Bool.false_eq_true, if_false, if_pos nothing]
      refine (twins.free ptr).bind ?_
      rintro ⟨answer, q⟩ ⟨_, q'⟩ ⟨rfl, akin⟩
      exact .ok ⟨rfl, akin⟩
    · rcases live_or_dead cells ptr with ⟨x, mem, rfl⟩ | dead
      · simp only [Pool.reallocateFor, null, if_neg nothing, twins.header,
          twins.left.header_live mem, Checked.ok_bind, twins.tally, Bool.false_eq_true, if_false]
        rcases twins.arena.resize? mem size p.stompFreed p'.stompFreed with ⟨none, none'⟩ | found
        · simp only [none, none', Checked.ok_bind]
          exact .common _ fun t => .ok ⟨rfl, twins.count t⟩
        · obtain ⟨y, how, b, b', cells₁, lists₁, run, run', after, memy⟩ := found
          simp only [run, run', after.left.stable.holds.size_used memy,
            after.right.stable.holds.size_used memy, Checked.ok_bind]
          refine .common _ fun t => .ok ⟨rfl, twins.change after rfl fun common => ?_⟩
          rw [same common, twins.registry common]
      · simp only [Pool.reallocateFor, null, if_neg nothing, twins.header,
          twins.left.header_refused dead, Checked.ok_bind, twins.tally, Bool.false_eq_true, if_false]
        exact .common _ fun t => .ok ⟨rfl, twins.count t⟩

theorem allocateZeroed (size : Nat) :
    Checked.Both (Paired shared) (p.allocateZeroed size) (p'.allocateZeroed size) := by
  refine (twins.allocateFor size fun _ => rfl).bind ?_
  rintro ⟨answer, q⟩ ⟨_, q'⟩ ⟨rfl, cells₁, lists₁, twins₁⟩
  cases answer with
  | error e => exact .ok ⟨rfl, cells₁, lists₁, twins₁⟩
  | ok ptr =>
    refine (twins₁.editPayload ptr (contained_fill 0) (contained_fill 0)).bind ?_
    rintro ⟨cleared, q⟩ ⟨_, q'⟩ ⟨rfl, akin⟩
    exact .ok ⟨rfl, akin⟩

end Twins

end Pool

end Tlsf
