import Tlsf.Proofs.FrameLaw
import Tlsf.Proofs.Integrity
import Tlsf.Proofs.TwinPools

/-!
What contents cannot do. Two pools over the same region, built over any bytes
and with released payloads overwritten or not, are given the same requests;
between these the hosts write what they like into live payloads, and name other
owners or none. Then the answers are the same, down to the errors, and so is
all that the pools show of themselves: no stale, overwritten or client-written
byte has a say in where a block goes or whether a pointer is accepted.

Only a release of a whole subtree reads the registry. Where there is one, the
runs have to share theirs.
-/

namespace Tlsf

open Dimensions Buffer

/-- What two pools show alike. -/
structure Pool.Alike (p p' : Pool) : Prop where
  layout : p'.layout = p.layout
  index : p'.arena.index = p.arena.index
  live : p'.arena.live = p.arena.live
  blocks : ∃ blocks lists, p.walk = .ok blocks ∧ p'.walk = .ok blocks ∧
    p.Consistent blocks lists ∧ p'.Consistent blocks lists
  statistics : p'.statistics = p.statistics
  check : p.check = .ok (.ok ()) ∧ p'.check = .ok (.ok ())
  allocationSize : ∀ ptr, ∃ found, p.allocationSize ptr = .ok found ∧ p'.allocationSize ptr = .ok found
  isValidRange : ∀ ptr length, ∃ found, p.isValidRange ptr length = .ok found ∧
    p'.isValidRange ptr length = .ok found
  payload : ∀ ptr, ∃ found found', p.payload ptr = .ok found ∧ p'.payload ptr = .ok found' ∧
    found.map ByteArray.size = found'.map ByteArray.size
  rewritePayload : ∀ ptr contents contents', ∃ found q q',
    p.rewritePayload ptr contents = .ok (found, q) ∧ p'.rewritePayload ptr contents' = .ok (found, q')

namespace Pool

section Stands

variable {p : Pool} {cells : List Cell} {lists : SizeClass → List Nat} {x : Cell} {ptr : Pointer}
  (stands : p.Stands cells lists)
include stands

theorem Stands.walk : p.walk = .ok (cells.map Cell.info) := by
  have seen := stands.bare.walk
  exact seen

theorem Stands.consistent : p.Consistent (cells.map Cell.info) lists := by
  have seen := stands.bare.consistent
  exact ⟨seen.chained, seen.live, seen.listed, seen.once, seen.linked, seen.heads, seen.slots, seen.rows⟩

theorem Stands.check : p.check = .ok (.ok ()) := by
  have seen := stands.bare.bounded
  have bounded : p.Bounded := ⟨seen.aligned, seen.inside, seen.region, seen.low, seen.span, seen.blank⟩
  exact (check_eq_iff bounded).mpr ⟨_, lists, stands.consistent.vetted bounded⟩

theorem Stands.isValidRange_live (mem : x ∈ usedCells cells) (length : Nat) :
    p.isValidRange x.pointer length = .ok (decide (length ≤ x.size)) := by
  have seen := Pool.isValidRange_live stands.bare mem length
  exact seen

theorem Stands.isValidRange_dead (nonnull : ptr.isNull = false)
    (dead : ∀ x ∈ usedCells cells, x.pointer ≠ ptr) (length : Nat) :
    p.isValidRange ptr length = .ok false := by
  have seen := Pool.isValidRange_dead stands.bare dead nonnull length
  exact seen

theorem Stands.reads (mem : x ∈ usedCells cells) : p.Reads x.pointer x.size p.buffer.byteAt := by
  have seen := stands.bare.reads mem
  exact seen

theorem Stands.payload_refused (nonnull : ptr.isNull = false)
    (dead : ∀ x ∈ usedCells cells, x.pointer ≠ ptr) :
    p.payload ptr = .ok (.error (.safety (p.refusal ptr))) := by
  simp only [payload, stands.allocationSize_refused nonnull dead, Checked.ok_bind, Checked.pure_eq]

end Stands

namespace Twins

variable {shared : Prop} {p p' : Pool} {cells : List Cell} {lists : SizeClass → List Nat}
  (twins : Twins shared p p' cells lists)
include twins

theorem statistics : p'.statistics = p.statistics := by
  simp only [Pool.statistics, twins.tally, twins.left.walk, twins.right.walk]

theorem isValidRange (ptr : Pointer) (length : Nat) :
    ∃ found, p.isValidRange ptr length = .ok found ∧ p'.isValidRange ptr length = .ok found := by
  rcases pointer_cases cells ptr with null | ⟨nonnull, ⟨x, mem, rfl⟩ | dead⟩
  · refine ⟨length == 0, ?_, ?_⟩ <;> simp only [Pool.isValidRange, null, if_true, Checked.pure_eq]
  · exact ⟨_, twins.left.isValidRange_live mem length, twins.right.isValidRange_live mem length⟩
  · exact ⟨_, twins.left.isValidRange_dead nonnull dead length,
      twins.right.isValidRange_dead nonnull dead length⟩

theorem payload (ptr : Pointer) :
    ∃ found found', p.payload ptr = .ok found ∧ p'.payload ptr = .ok found' ∧
      found.map ByteArray.size = found'.map ByteArray.size := by
  rcases pointer_cases cells ptr with null | ⟨nonnull, ⟨x, mem, rfl⟩ | dead⟩
  · refine ⟨_, _, payload_null null, payload_null null, ?_⟩
    simp only [Except.map, ByteArray.size_extract, Nat.zero_min, Nat.sub_self]
  · obtain ⟨data, run, size, -⟩ := twins.left.reads mem
    obtain ⟨data', run', size', -⟩ := twins.right.reads mem
    exact ⟨_, _, run, run', by simp only [Except.map, size, size']⟩
  · refine ⟨_, _, twins.left.payload_refused nonnull dead,
      twins.right.payload_refused nonnull dead, ?_⟩
    rw [twins.refusal]

theorem alike : p.Alike p' where
  layout := twins.layout
  index := twins.arena.index.symm
  live := twins.arena.live.symm
  blocks := ⟨_, lists, twins.left.walk, twins.right.walk, twins.left.consistent, twins.right.consistent⟩
  statistics := twins.statistics
  check := ⟨twins.left.check, twins.right.check⟩
  allocationSize ptr := by
    obtain ⟨found, -, size, -⟩ := twins.left.editPayload ptr (contained_fill 0)
    exact ⟨found, size, (twins.allocationSize ptr).trans size⟩
  isValidRange := twins.isValidRange
  payload := twins.payload
  rewritePayload ptr contents contents' := by
    obtain ⟨found, a, size, run, -⟩ := twins.left.editPayload ptr (contained_update contents)
    obtain ⟨found', a', size', run', -⟩ := twins.right.editPayload ptr (contained_update contents')
    rw [twins.allocationSize, size] at size'
    cases size'
    exact ⟨found, _, _, run, run'⟩

end Twins

end Pool

/-! Runs -/

namespace Call

def allocateFor (size : Nat) : Option Pool.Ownership → Call
  | none => .allocate size
  | some o => .allocateOwned size o.owner o.parent

def reallocateFor (ptr : Pointer) (size : Nat) : Option Pool.Ownership → Call
  | none => .reallocate ptr size
  | some o => .reallocateOwned ptr size o.owner o.parent

/-- The same call in two runs; its owner may differ where the registry may. -/
inductive Alike (shared : Prop) : Call → Call → Prop where
  | same {call : Call} (whole : ∀ ptr, call = .freeRecursive ptr → shared) : Alike shared call call
  | allocate {size : Nat} {o o' : Option Pool.Ownership} (owned : shared → o = o') :
      Alike shared (allocateFor size o) (allocateFor size o')
  | reallocate {ptr : Pointer} {size : Nat} {o o' : Option Pool.Ownership} (owned : shared → o = o') :
      Alike shared (reallocateFor ptr size o) (reallocateFor ptr size o')

/-- What a host does in one run alone: it writes to a payload, or edits a registry of its own. -/
inductive Aside (shared : Prop) : Call → Prop where
  | rewrite (ptr : Pointer) (contents : Nat → UInt8) : Aside shared (.rewrite ptr contents)
  | editRegistry (edits : List Registry.Edit) (own : ¬ shared) : Aside shared (.editRegistry edits)

def isRequest : Call → Bool
  | .rewrite _ _ => false
  | .editRegistry _ => false
  | _ => true

theorem Alike.isRequest {shared : Prop} {call call' : Call} (alike : call.Alike shared call') :
    call'.isRequest = call.isRequest := by
  cases alike with
  | same => rfl
  | @allocate size o o' owned => cases o <;> cases o' <;> rfl
  | @reallocate ptr size o o' owned => cases o <;> cases o' <;> rfl

end Call

/-- Two runs with the same requests in the same order, and anything between them that a host may
do in one run alone. -/
inductive Parallel (shared : Prop) : List Call → List Call → Prop where
  | done : Parallel shared [] []
  | left {call : Call} {rest rest' : List Call} (aside : call.Aside shared)
      (later : Parallel shared rest rest') : Parallel shared (call :: rest) rest'
  | right {call : Call} {rest rest' : List Call} (aside : call.Aside shared)
      (later : Parallel shared rest rest') : Parallel shared rest (call :: rest')
  | both {call call' : Call} {rest rest' : List Call} (alike : call.Alike shared call')
      (later : Parallel shared rest rest') : Parallel shared (call :: rest) (call' :: rest')

namespace Pool

/-- What the requests of a run are answered, each with the pool after it, and the pool at the end. -/
def trace (p : Pool) : List Call → Checked (List (Except Error Answer × Pool) × Pool)
  | [] => pure ([], p)
  | call :: rest => do
    let (answer, q) ← call.run p
    let (later, last) ← q.trace rest
    pure (if call.isRequest then (answer, q) :: later else later, last)

section Runs

variable {shared : Prop} {p p' q : Pool} {cells : List Cell} {lists : SizeClass → List Nat}
  {call call' : Call} {calls calls' : List Call}

theorem paired_answer {α : Type} {wrap : α → Answer} {run run' : Checked (Except Error α × Pool)}
    (both : Checked.Both (Paired shared) run run') :
    Checked.Both (Paired shared) (Call.answer wrap run) (Call.answer wrap run') := by
  refine both.bind ?_
  rintro ⟨found, q⟩ ⟨_, q'⟩ ⟨rfl, akin⟩
  exact .ok ⟨rfl, akin⟩

theorem run_allocateFor (p : Pool) (size : Nat) (o : Option Ownership) :
    (Call.allocateFor size o).run p = Call.answer .pointer (p.allocateFor size o) := by
  cases o <;> rfl

theorem run_reallocateFor (p : Pool) (ptr : Pointer) (size : Nat) (o : Option Ownership) :
    (Call.reallocateFor ptr size o).run p = Call.answer .pointer (p.reallocateFor ptr size o) := by
  cases o <;> rfl

theorem Twins.run (twins : Twins shared p p' cells lists) (alike : call.Alike shared call') :
    Checked.Both (Paired shared) (call.run p) (call'.run p') := by
  cases alike with
  | allocate owned =>
    rw [run_allocateFor, run_allocateFor]
    exact paired_answer (twins.allocateFor _ owned)
  | reallocate owned =>
    rw [run_reallocateFor, run_reallocateFor]
    exact paired_answer (twins.reallocateFor _ _ owned)
  | same whole =>
    cases call with
    | allocate size => exact paired_answer (twins.allocateFor size fun _ => rfl)
    | allocateOwned size owner parent => exact paired_answer (twins.allocateFor size fun _ => rfl)
    | allocateZeroed size => exact paired_answer (twins.allocateZeroed size)
    | free ptr => exact paired_answer (twins.free ptr)
    | freeRecursive ptr => exact paired_answer (twins.freeRecursive (whole ptr rfl) ptr)
    | reallocate ptr size => exact paired_answer (twins.reallocateFor ptr size fun _ => rfl)
    | reallocateOwned ptr size owner parent =>
      exact paired_answer (twins.reallocateFor ptr size fun _ => rfl)
    | editRegistry edits =>
      refine .ok ⟨rfl, twins.change twins.arena twins.tally fun common => ?_⟩
      rw [twins.registry common]
    | rewrite ptr contents =>
      exact paired_answer (twins.editPayload ptr (contained_update contents) (contained_update contents))

theorem Twins.runAside (twins : Twins shared p p' cells lists) (aside : call.Aside shared) :
    ∃ answer q, call.run p = .ok (answer, q) ∧ Twins shared q p' cells lists := by
  cases aside with
  | rewrite ptr contents =>
    obtain ⟨found, a, -, run, after⟩ := twins.left.editPayload ptr (contained_update contents)
    have run : p.rewritePayload ptr contents = .ok (found, { p with arena := a }) := run
    refine ⟨found.map .count, { p with arena := a }, ?_, after, twins.right, twins.layout, twins.tally,
      twins.registry⟩
    simp only [Call.run, Call.answer, run, Checked.ok_bind, Checked.pure_eq]
  | editRegistry edits own =>
    exact ⟨_, _, rfl, twins.left, twins.right, twins.layout, twins.tally, fun common => absurd common own⟩

theorem trace_aside {answer : Except Error Answer} (aside : call.Aside shared)
    (run : call.run p = .ok (answer, q)) (rest : List Call) :
    p.trace (call :: rest) = q.trace rest := by
  have silent : call.isRequest = false := by cases aside <;> rfl
  simp only [trace, run, silent, Checked.ok_bind, Bool.false_eq_true, if_false]
  exact bind_pure _

theorem Akin.trace (akin : p.Akin shared p') (parallel : Parallel shared calls calls') :
    Checked.Both (fun r r' => List.Forall₂ (Paired shared) r.1 r'.1 ∧ r.2.Akin shared r'.2)
      (p.trace calls) (p'.trace calls') := by
  induction parallel generalizing p p' with
  | done => exact .ok ⟨.nil, akin⟩
  | left aside later ih =>
    obtain ⟨cells, lists, twins⟩ := akin
    obtain ⟨answer, q, run, after⟩ := twins.runAside aside
    rw [trace_aside aside run]
    exact ih ⟨cells, lists, after⟩
  | right aside later ih =>
    obtain ⟨cells, lists, twins⟩ := akin
    obtain ⟨answer, q', run, after⟩ := twins.symm.runAside aside
    rw [trace_aside aside run]
    exact ih ⟨cells, lists, after.symm⟩
  | @both call call' rest rest' alike later ih =>
    obtain ⟨cells, lists, twins⟩ := akin
    refine (twins.run alike).bind fun first first' paired => ?_
    refine (ih paired.2).bind ?_
    rintro ⟨answers, last⟩ ⟨answers', last'⟩ ⟨answered, akin⟩
    rw [alike.isRequest]
    cases call.isRequest with
    | false => exact .ok ⟨answered, akin⟩
    | true => exact .ok ⟨.cons paired answered, akin⟩

theorem trace_of_run {l : Ledger} {s : Session} (run : Session.run ⟨p, l⟩ calls = .ok s) :
    ∃ answers, p.trace calls = .ok (answers, s.pool) := by
  induction calls generalizing p l with
  | nil =>
    cases run
    exact ⟨[], rfl⟩
  | cons call rest ih =>
    obtain ⟨⟨answer, s₁⟩, stepped, run⟩ := Checked.of_bind run
    obtain ⟨⟨answer, q⟩, called, same⟩ := Checked.of_bind stepped
    cases same
    obtain ⟨answers, later⟩ := ih run
    refine ⟨if call.isRequest then (answer, q) :: answers else answers, ?_⟩
    simp only [trace, called, later, Checked.ok_bind, Checked.pure_eq]

end Runs

end Pool

/-! New pools -/

namespace Construction

def span : Construction → Nat × Option Nat
  | .whole => (0, none)
  | .region start size _ => (start, size)
  | .config c => (c.regionStart.toNat, c.regionSize.map UInt64.toNat)

theorem laid {b : Buffer} {k : Construction} {p : Pool}
    (built : k.build b = .ok (.ok p)) :
    p.layout = .ofRegion k.span.1 (k.span.2.getD (b.size - k.span.1)) ∧ p.tally = {} ∧
      ∃ lists, p.Stands [p.layout.block] lists := by
  -- every construction comes down to one over a region
  have create : ∀ {start size registry q}, Pool.create b start size registry = .ok (.ok q) →
      q.layout = .ofRegion start (size.getD (b.size - start)) ∧ q.tally = {} ∧
        ∃ lists, q.Stands [q.layout.block] lists := by
    intro start size registry q made
    rcases Pool.create_laid b start size registry with
      ⟨e, refused⟩ | ⟨-, wrapped⟩ | ⟨a, l, lists, made', layout, stable, first, last, region, low, -⟩
    · rw [made] at refused
      cases refused
    · rw [made] at wrapped
      cases wrapped
    · rw [made] at made'
      cases made'
      exact ⟨layout, rfl, lists, stable, first, last, region, low⟩
  cases k with
  | whole => exact create built
  | region start size registry => exact create built
  | config c =>
    simp only [build, Pool.ofConfig] at built
    cases resolved : c.resolve b.size with
    | error e =>
      rw [resolved] at built
      cases built
    | ok found =>
      obtain ⟨start, size⟩ := found
      rw [resolved] at built
      obtain ⟨made, run, built⟩ := Checked.of_bind built
      cases made with
      | error e => cases built
      | ok q =>
        cases built
        obtain ⟨layout, tally, lists, stands⟩ := create run
        obtain ⟨rfl, rfl⟩ := Config.resolve_eq resolved
        exact ⟨layout, tally, lists, stands⟩

theorem twins {b b' : Buffer} {k k' : Construction} {p p' : Pool} {shared : Prop}
    (length : b'.size = b.size) (span : k'.span = k.span)
    (built : k.build b = .ok (.ok p)) (built' : k'.build b' = .ok (.ok p'))
    (registry : shared → p'.registry = p.registry) : p.Akin shared p' := by
  obtain ⟨layout, tally, lists, stands⟩ := laid built
  obtain ⟨layout', tally', lists', stands'⟩ := laid built'
  have same : p'.layout = p.layout := by rw [layout, layout', span, length]
  have right : p'.arena.Fills p.layout [p.layout.block] lists' := by
    rw [← same]
    exact stands'
  obtain rfl := stands.stable.holds.lists_unique right.stable.holds
  exact ⟨_, lists', stands, same ▸ right, same, tally'.trans tally.symm, registry⟩

/-- Contents, owners and the treatment of released payloads do not interfere: parallel runs on
pools over the same region give the same answers and leave pools that look alike, or both stop at
the same fault, and they do not stop within `2 ^ 63` calls. -/
theorem runs_alike {b b' : Buffer} {k k' : Construction} {p p' : Pool} {shared : Prop}
    {calls calls' : List Call} (small : b.size < 2 ^ 31) (length : b'.size = b.size)
    (span : k'.span = k.span) (built : k.build b = .ok (.ok p)) (built' : k'.build b' = .ok (.ok p'))
    (registry : shared → p'.registry = p.registry) (parallel : Parallel shared calls calls') :
    p.Alike p' ∧
      Checked.Both (fun r r' => List.Forall₂ (fun s s' => s.1 = s'.1 ∧ s.2.Alike s'.2) r.1 r'.1 ∧
        r.2.Alike r'.2) (p.trace calls) (p'.trace calls') ∧
      (k.Proper → calls.length < 2 ^ 63 → ∃ answers q, p.trace calls = .ok (answers, q)) := by
  have akin := twins length span built built' registry
  have alike : ∀ {q q' : Pool}, q.Akin shared q' → q.Alike q' := fun ⟨_, _, twins⟩ => twins.alike
  refine ⟨alike akin, (akin.trace parallel).mono ?_, fun proper few => ?_⟩
  · rintro ⟨answers, q⟩ ⟨answers', q'⟩ ⟨answered, last⟩
    exact ⟨answered.imp fun _ _ ⟨same, after⟩ => ⟨same, alike after⟩, alike last⟩
  · obtain ⟨s, -, -, run, -⟩ := Session.runs_sound small proper built calls few
    obtain ⟨answers, traced⟩ := Pool.trace_of_run run
    exact ⟨answers, s.pool, traced⟩

theorem runs_alike_sample : ∃ p p' answers answers' q q',
    (Construction.region 5 (some 200) (some .empty)).build (.filled 256 0xEE) = .ok (.ok p) ∧
      (Construction.config { regionStart := 5, regionSize := some 200, stompFreed := false }).build
        (.filled 256 0x11) = .ok (.ok p') ∧
      p.trace [.allocateOwned 40 ⟨7⟩ none, .rewrite ⟨16⟩ (fun _ => 0xA1), .allocate 24, .free ⟨16⟩,
        .reallocate ⟨64⟩ 130] = .ok (answers, q) ∧
      p'.trace [.allocateOwned 40 ⟨9⟩ (some ⟨64⟩), .allocate 24, .rewrite ⟨64⟩ (fun i => .ofNat i),
        .free ⟨16⟩, .reallocate ⟨64⟩ 130] = .ok (answers', q') ∧
      List.Forall₂ (fun s s' => s.1 = s'.1 ∧ s.2.Alike s'.2) answers answers' ∧ q.Alike q' := by
  let k := Construction.region 5 (some 200) (some .empty)
  let k' := Construction.config { regionStart := 5, regionSize := some 200, stompFreed := false }
  have made : (k.session? (.filled 256 0xEE) []).isSome = true := by decide +kernel
  have made' : (k'.session? (.filled 256 0x11) []).isSome = true := by decide +kernel
  obtain ⟨s, session⟩ := Option.isSome_iff_exists.mp made
  obtain ⟨s', session'⟩ := Option.isSome_iff_exists.mp made'
  obtain ⟨p, built, -⟩ := of_session? session
  obtain ⟨p', built', -⟩ := of_session? session'
  have small : (Buffer.filled 256 0xEE).size < 2 ^ 31 := by decide +kernel
  have length : (Buffer.filled 256 0x11).size = (Buffer.filled 256 0xEE).size := by decide +kernel
  have span : k'.span = k.span := by decide +kernel
  have proper : k.Proper := proper_empty 5 (some 200)
  have parallel : Parallel False
      [.allocateOwned 40 ⟨7⟩ none, .rewrite ⟨16⟩ (fun _ => 0xA1), .allocate 24, .free ⟨16⟩,
        .reallocate ⟨64⟩ 130]
      [.allocateOwned 40 ⟨9⟩ (some ⟨64⟩), .allocate 24, .rewrite ⟨64⟩ (fun i => .ofNat i),
        .free ⟨16⟩, .reallocate ⟨64⟩ 130] := by
    refine .both (@Call.Alike.allocate False 40 (some ⟨⟨7⟩, none⟩) (some ⟨⟨9⟩, some ⟨64⟩⟩) False.elim) ?_
    refine .left (.rewrite _ _) (.both (.same ?_) (.right (.rewrite _ _) (.both (.same ?_)
      (.both (.same ?_) .done))))
    all_goals
      intro ptr recursive
      cases recursive
  obtain ⟨-, both, goes⟩ := runs_alike small length span built built' False.elim parallel
  obtain ⟨answers, q, traced⟩ := goes proper (by decide)
  rw [traced] at both
  obtain ⟨⟨answers', q'⟩, traced', answered, last⟩ := both.of_ok
  exact ⟨p, p', answers, answers', q, q', built, built', traced, traced', answered, last⟩

end Construction

end Tlsf
