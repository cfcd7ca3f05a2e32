import Tlsf.Proofs.ClassSearch
import Tlsf.Proofs.Grants

/-!
When a request is met, and what it is granted. There is room for a request when
the largest free block, as the statistics show it, reaches the floor of the class
where the search for the rounded request starts: a condition that a host can
compute. A request is met exactly then, in a block that was free and is apart
from all other allocations; with owners and with cleared payloads alike.
-/

namespace Tlsf

open Dimensions Buffer

/-- Whether the largest free block reaches the class where a search for `size` bytes starts. -/
def Pool.hasRoom (p : Pool) (size : Nat) : Checked Bool :=
  match payloadFor? size with
  | none => pure false
  | some payload => do
    let least ← (← SizeClass.roundUp payload).lowerBound
    pure (decide (least ≤ (← p.statistics).largestFree))

inductive Call.Requests (size : Nat) : Call → Prop where
  | plain (o : Option Pool.Ownership) : Requests size (.allocateFor size o)
  | zeroed : Requests size (.allocateZeroed size)

/-- A request for `size` bytes, `payload` when rounded, was met with the pointer `ptr`. -/
structure Session.Grants (s s' : Session) (size payload : Nat) (ptr : Pointer) (granted : Nat) :
    Prop where
  nonnull : ptr.isNull = false
  aligned : ptr.offset % alignment = 0
  fresh : s.ledger ptr = none
  carved : ∃ blocks, s.pool.walk = .ok blocks ∧
    ∃ i ∈ blocks, i.pointer = ptr ∧ i.isFree = true ∧ payload ≤ i.size
  reported : s'.pool.allocationSize ptr = .ok (.ok granted)
  enough : size ≤ granted
  close : granted = payload ∨ granted = payload + 8 ∨ granted = payload + 16
  inside : s.pool.layout.firstBlock + headerSize ≤ ptr.offset ∧
    ptr.offset + granted ≤ s.pool.layout.sentinel
  apart : ∀ q m, s.ledger q = some m → ∀ i ∈ Set.Ico ptr.offset (ptr.offset + granted),
    i ∉ Set.Ico q.offset (q.offset + m)
  ledger : s'.ledger = Function.update s.ledger ptr (some granted)

section Largest

variable {cells : List Cell}

theorem mem_blockSizes_free {m : Nat} :
    m ∈ blockSizes true (cells.map Cell.info) ↔ ∃ x ∈ cells, x.isFree = true ∧ x.size = m := by
  simp [blockSizes, Cell.info, and_assoc]

theorem le_largest_iff {least : Nat} (some_ : 0 < least) :
    least ≤ (blockSizes true (cells.map Cell.info)).max?.getD 0 ↔
      ∃ x ∈ cells, x.isFree = true ∧ least ≤ x.size := by
  cases largest : (blockSizes true (cells.map Cell.info)).max? with
  | none =>
    rw [List.max?_eq_none_iff] at largest
    have unfree : ∀ x ∈ cells, x.isFree = true → False := by
      intro x mem free
      have size : x.size ∈ blockSizes true (cells.map Cell.info) :=
        mem_blockSizes_free.mpr ⟨x, mem, free, rfl⟩
      rw [largest] at size
      cases size
    rw [Option.getD_none]
    constructor
    · omega
    · rintro ⟨x, mem, free, -⟩
      exact (unfree x mem free).elim
  | some m =>
    obtain ⟨mem, most⟩ := List.max?_eq_some_iff.mp largest
    rw [Option.getD_some]
    constructor
    · intro le
      obtain ⟨x, memx, free, rfl⟩ := mem_blockSizes_free.mp mem
      exact ⟨x, memx, free, le⟩
    · rintro ⟨x, memx, free, le⟩
      exact Nat.le_trans le (most x.size (mem_blockSizes_free.mpr ⟨x, memx, free, rfl⟩))

end Largest

namespace Pool

variable {p p' : Pool} {n : Nat} {cells pre post : List Cell} {lists : SizeClass → List Nat} {x : Cell}
  {size payload : Nat} {o : Option Ownership}

theorem Sound.hasRoom_iff (sound : p.Sound n cells lists) (request : payloadFor? size = some payload)
    {c : SizeClass} (rounded : SizeClass.roundUp payload = .ok c) :
    ∃ room, p.hasRoom size = .ok room ∧
      (room = true ↔ ∃ x ∈ cells, x.status = .filed ∧ c.floor ≤ x.size) := by
  obtain ⟨-, least, granular, small⟩ := payloadFor?_eq_some request
  obtain ⟨c', rounded', slot, reach⟩ := SizeClass.roundUp_eq small granular
  obtain rfl : c = c' := Except.ok.inj (rounded.symm.trans rounded')
  have row := SizeClass.roundUp_row_le small rounded
  have bound := SizeClass.lowerBound_eq (Nat.le_trans row (by decide)) slot
  have positive : 0 < c.floor := by
    simp only [minPayload] at least
    omega
  refine ⟨decide (c.floor ≤ (blockSizes true (cells.map Cell.info)).max?.getD 0), ?_, ?_⟩
  · simp only [hasRoom, request, rounded, bound, sound.statistics_eq, Checked.ok_bind, Checked.pure_eq]
  · rw [decide_eq_true_eq, le_largest_iff positive]
    refine exists_congr fun x => and_congr_right fun mem => and_congr_left fun _ => ?_
    rw [Cell.isFree_iff]
    rcases Cell.used_or_filed (sound.stable.settled.filed x mem) with used | filed
    · simp [used]
    · simp [filed]

theorem Sound.hasRoom_spec (sound : p.Sound n cells lists) (size : Nat) :
    (p.arena.allocate? size = .ok none ∧ p.hasRoom size = .ok false) ∨
      (∃ taken, p.arena.allocate? size = .ok (some taken)) ∧ p.hasRoom size = .ok true := by
  cases request : payloadFor? size with
  | none => exact .inl (by simp only [Arena.allocate?, hasRoom, request, Checked.pure_eq, and_self])
  | some payload =>
    obtain ⟨-, -, granular, small⟩ := payloadFor?_eq_some request
    obtain ⟨c, rounded, -, -⟩ := SizeClass.roundUp_eq small granular
    obtain ⟨room, computed, exact_⟩ := sound.hasRoom_iff request rounded
    obtain ⟨given, run⟩ : ∃ given, p.arena.allocate? size = .ok given := by
      rcases Arena.allocate?_spec sound.stable size with none | ⟨_, _, _, _, _, _, _, _, _, _, run, _⟩
      · exact ⟨_, none⟩
      · exact ⟨_, run⟩
    -- the block that the arena takes is the candidate of its index
    have candidate := Arena.allocate?_found request run
    rcases sound.holds.candidate_spec rounded with ⟨none, short⟩ | ⟨x, mem, found, filed, reach⟩
    · rw [none] at candidate
      obtain rfl : given = Option.none := Option.map_eq_none_iff.mp (Except.ok.inj candidate).symm
      refine .inl ⟨run, computed.trans (congrArg _ (Bool.eq_false_of_not_eq_true fun enough => ?_))⟩
      obtain ⟨x, mem, filed, reach⟩ := exact_.mp enough
      exact Nat.not_lt.mpr reach (short x mem filed)
    · rw [found] at candidate
      obtain ⟨taken, rfl, -⟩ := Option.map_eq_some_iff.mp (Except.ok.inj candidate).symm
      exact .inr ⟨⟨taken, run⟩, computed.trans (congrArg _ (exact_.mpr ⟨x, mem, filed, reach⟩))⟩

theorem Sound.run_refused (sound : p.Sound n cells lists) (bound : n + 1 < UInt64.size)
    (asked : size ≠ 0) {call : Call} (requests : call.Requests size)
    (none : p.arena.allocate? size = .ok none) :
    call.run p = .ok (.error (.outOfMemory size), p.failAllocate) := by
  have refused : ∀ o, p.allocateFor size o = .ok (.error (.outOfMemory size), p.failAllocate) := by
    intro o
    rcases sound.allocateFor_carves bound asked o with ⟨-, run⟩ | ⟨_, _, _, _, _, _, _, found, _⟩
    · exact run
    · rw [none] at found
      cases found
  cases requests with
  | plain o =>
    rw [run_allocateFor, Call.answer, refused o]
    rfl
  | zeroed =>
    rw [Call.run, Call.answer, allocateZeroed, allocate, refused]
    rfl

end Pool

namespace Session

variable {s s' : Session} {n m size payload : Nat} {pre post : List Cell} {x : Cell}
  {lists lists' : SizeClass → List Nat} {o : Option Pool.Ownership} {call : Call} {p : Pool}

theorem Sound.grants (sound : s.Sound n (pre ++ x :: post) lists)
    (request : payloadFor? size = some payload)
    (carves : s.pool.Carves n pre x post lists payload o p)
    (after : s'.pool.Sound m (pre ++ (x.kept payload).turn .used :: trimRest x payload post) lists')
    (ledger : s'.ledger = s.ledger.grant s'.pool x.pointer) :
    s.Grants s' size payload x.pointer (x.kept payload).size := by
  have memx : x ∈ pre ++ x :: post := by simp
  obtain ⟨low, high, aligned, regular, stopx⟩ := sound.pool.holds.placed memx
  have offset : x.pointer.offset = x.header + 8 :=
    Cell.pointer_offset (sound.pool.holds.header_fits memx)
  have mem := carves.mem
  have pointer := x.kept_pointer payload .used
  have shorter := x.kept_size_le (n := payload)
  -- the ledger grants payloads of blocks that were used before, while `x` was free
  have apart : ∀ u ∈ usedCells (pre ++ x :: post), ∀ i ∈ u.payload, i ∉ Set.Ico x.header x.stop := by
    intro u memu i inside
    rw [usedCells_append, usedCells_free (by simp [carves.filed])] at memu
    exact sound.pool.holds.payload_off_block memu inside
  refine ⟨?_, ?_, ?_, ⟨_, sound.pool.walk, x.info, List.mem_map_of_mem memx, rfl,
    Cell.isFree_of_filed carves.filed, carves.enough⟩, ?_, ?_, carves.size_cases regular, ?_, ?_, ?_⟩
  · rw [← pointer]
    exact after.pointer_ne_null mem
  · rw [offset]
    simp only [alignment]
    omega
  · exact (sound.book.none_iff _).mpr carves.fresh
  · rw [← pointer]
    exact Pool.allocationSize_live after mem
  · exact Nat.le_trans (payloadFor?_eq_some request).1 (Cell.kept_size_ge carves.enough)
  · rw [offset, headerSize]
    omega
  · intro q k granted i own inside
    obtain ⟨u, memu, rfl, rfl⟩ := (sound.book q k).mp granted
    rw [← sound.pool.payload_eq_Ico memu] at inside
    rw [offset] at own
    refine apart u memu i inside ⟨?_, ?_⟩
    · exact Nat.le_trans (Nat.le_add_right ..) own.1
    · have stop := own.2
      omega
  · funext q
    rw [ledger, Ledger.grant, ← pointer, after.reported mem, pointer, Cell.turn_size,
      Function.update_apply]

theorem Sound.grants_plain (sound : s.Sound n (pre ++ x :: post) lists) (asked : size ≠ 0)
    (request : payloadFor? size = some payload)
    (run : s.pool.allocateFor size o = .ok (.ok x.pointer, p))
    (carves : s.pool.Carves n pre x post lists payload o p) :
    ∃ s', s.step (.allocateFor size o) = .ok (.ok (.pointer x.pointer), s') ∧
      s.Grants s' size payload x.pointer (x.kept payload).size := by
  exact ⟨_, step_allocateFor run,
    sound.grants request carves carves.sound (Ledger.after_allocateFor asked)⟩

theorem Sound.grants_zeroed (sound : s.Sound n (pre ++ x :: post) lists) (asked : size ≠ 0)
    (request : payloadFor? size = some payload)
    (run : s.pool.allocateFor size none = .ok (.ok x.pointer, p))
    (carves : s.pool.Carves n pre x post lists payload none p) :
    ∃ s', s.step (.allocateZeroed size) = .ok (.ok (.pointer x.pointer), s') ∧
      s.Grants s' size payload x.pointer (x.kept payload).size ∧
      s'.pool.Reads x.pointer (x.kept payload).size fun _ => 0 := by
  obtain ⟨p', cleared, bytes, after, -⟩ := Pool.fillPayload_live carves.sound carves.mem 0
  have inside := Pool.payload_inside carves.sound carves.mem
  have reads := after.reads carves.mem
  rw [Cell.kept_pointer] at cleared reads
  rw [Cell.turn_header, Cell.kept_header, Cell.turn_size] at inside
  have called : (Call.allocateZeroed size).run s.pool = .ok (.ok (.pointer x.pointer), p') := by
    simp only [Call.run, Call.answer, Pool.allocateZeroed, Pool.allocate, run, cleared,
      Checked.ok_bind, Checked.pure_eq]
    rfl
  have ledger : s.ledger.after s.pool p' (.allocateZeroed size) (.ok (.pointer x.pointer)) =
      s.ledger.grant p' x.pointer := by
    have asks : (Call.allocateZeroed size).asks ≠ 0 := asked
    exact (Ledger.after_asked asks).trans (congrArg (Ledger.grant · p' x.pointer) s.ledger.without_nil)
  refine ⟨_, step_eq called, sound.grants request carves after ledger, reads.congr fun j within => ?_⟩
  have offset := carves.sound.pointer_offset carves.mem
  rw [Cell.kept_pointer, Cell.turn_header, Cell.kept_header] at offset
  rw [offset] at within
  obtain ⟨low, high⟩ := within
  rw [Cell.turn_size] at high
  rw [bytes, byteAt_update, Cell.turn_header, Cell.kept_header, Cell.turn_size,
    if_pos ⟨low, high, by omega⟩]

/-- A request is met exactly if there is room for it, and otherwise answers that memory ran out. -/
theorem requests_met (reach : s.Reachable) (asked : size ≠ 0) (requests : call.Requests size) :
    ∃ room result s', s.pool.hasRoom size = .ok room ∧ s.step call = .ok (result, s') ∧
      (room = false → result = .error (.outOfMemory size)) ∧
      (room = true → ∃ payload ptr granted, payloadFor? size = some payload ∧
        result = .ok (.pointer ptr) ∧ s.Grants s' size payload ptr granted ∧
        (call = .allocateZeroed size → s'.pool.Reads ptr granted fun _ => 0)) := by
  obtain ⟨n, cells, lists, bound, sound⟩ := reach.sound
  rcases sound.pool.hasRoom_spec size with ⟨none, room⟩ | ⟨⟨taken, found⟩, room⟩
  · have refused := sound.pool.run_refused bound asked requests none
    exact ⟨false, _, _, room, step_eq refused, fun _ => rfl, fun enough => nomatch enough⟩
  · have carved : ∀ o, ∃ pre x post payload p, cells = pre ++ x :: post ∧
        payloadFor? size = some payload ∧ s.pool.allocateFor size o = .ok (.ok x.pointer, p) ∧
        s.pool.Carves n pre x post lists payload o p := by
      intro o
      rcases sound.pool.allocateFor_carves bound asked o with
        ⟨none, -⟩ | ⟨pre, x, post, payload, p, split, request, -, run, carves⟩
      · rw [found] at none
        cases none
      · exact ⟨pre, x, post, payload, p, split, request, run, carves⟩
    cases requests with
    | plain o =>
      obtain ⟨pre, x, post, payload, p, rfl, request, run, carves⟩ := carved o
      obtain ⟨s', step, grants⟩ := sound.grants_plain asked request run carves
      refine ⟨true, _, s', room, step, (fun less => nomatch less), fun _ => ⟨payload, x.pointer, _,
        request, rfl, grants, fun zeroed => ?_⟩⟩
      cases o <;> cases zeroed
    | zeroed =>
      obtain ⟨pre, x, post, payload, p, rfl, request, run, carves⟩ := carved none
      obtain ⟨s', step, grants, zeros⟩ := sound.grants_zeroed asked request run carves
      exact ⟨true, _, s', room, step, (fun less => nomatch less), fun _ => ⟨payload, x.pointer, _,
        request, rfl, grants, fun _ => zeros⟩⟩

theorem requests_met_sample : ∃ s s' granted,
    Construction.whole.session? (.filled 256 0x10)
        [.allocate 24, .allocate 40, .free ⟨8⟩, .allocate 130] = some s ∧
      s.pool.hasRoom 20 = .ok true ∧ s.pool.hasRoom 25 = .ok false ∧
      s.step (.allocateZeroed 20) = .ok (.ok (.pointer ⟨8⟩), s') ∧
      s.Grants s' 20 24 ⟨8⟩ granted ∧ s'.pool.Reads ⟨8⟩ granted fun _ => 0 := by
  have made : ((Construction.whole.session? (.filled 256 0x10)
      [.allocate 24, .allocate 40, .free ⟨8⟩, .allocate 130]).map fun s =>
        ((s.pool.hasRoom 20).toOption, (s.pool.hasRoom 25).toOption,
          (s.step (.allocateZeroed 20)).toOption.bind fun taken => taken.1.toOption)) =
      some (some true, some false, some (.pointer ⟨8⟩)) := by decide +kernel
  obtain ⟨s, session, entries⟩ := Option.map_eq_some_iff.mp made
  obtain ⟨enough, short, answer⟩ : (s.pool.hasRoom 20).toOption = some true ∧
      (s.pool.hasRoom 25).toOption = some false ∧
      ((s.step (.allocateZeroed 20)).toOption.bind fun taken => taken.1.toOption) =
        some (.pointer ⟨8⟩) := by simpa using entries
  have small : (Buffer.filled 256 0x10).size < 2 ^ 31 := by decide +kernel
  have proper : Construction.whole.Proper := trivial
  have reach : s.Reachable := reachable_of_session? small proper (by decide) session
  have cleared : Call.Requests 20 (.allocateZeroed 20) := .zeroed
  obtain ⟨room, result, s', computed, step, -, met⟩ := requests_met reach (by decide) cleared
  have enough := Checked.of_toOption enough
  obtain rfl : room = true := Except.ok.inj (computed.symm.trans enough)
  obtain ⟨payload, ptr, granted, request, rfl, grants, zeros⟩ := met rfl
  obtain rfl : 24 = payload := Option.some.inj request
  rw [step] at answer
  obtain rfl : ptr = ⟨8⟩ := Answer.pointer.inj (Option.some.inj answer)
  exact ⟨s, s', granted, session, enough, Checked.of_toOption short, step, grants, zeros rfl⟩

end Session

end Tlsf
