import Tlsf.Proofs.Atomicity
import Tlsf.Proofs.Integrity

/-!
No call faults. Of a pool that a host can have, every call answers with any
arguments, every query too, a walk and a check come to their end, and the
statistics can be taken. What the operations leave unchecked cannot go wrong
either: a search with every shift and lookup checked finds the same, and sums of
offsets and block sizes stay far below `2 ^ 64` whatever the bytes are.
-/

namespace Tlsf

open Dimensions Buffer

theorem roundUp_slot_lt {size : Nat} {c : SizeClass} (rounded : SizeClass.roundUp size = .ok c) :
    c.sl < slotCount := by
  unfold SizeClass.roundUp at rounded
  split at rounded
  · cases rounded
    exact SizeClass.ofSize_slot_lt size
  · obtain ⟨raised, -, rest⟩ := Checked.of_bind rounded
    cases rest
    exact SizeClass.ofSize_slot_lt _

theorem Block.sums_fit {b : Buffer} {h : Nat} {v : SizeWord} (small : b.size < payloadLimit)
    (read : Block.word b h = .ok v) (w : SizeWord) :
    h + headerSize + v.size + w.size + headerSize < UInt64.size := by
  have place := Block.inside_of_word read
  have sizev := v.size_lt
  have sizew := w.size_lt
  simp only [headerSize, payloadLimit, UInt32.size, UInt64.size] at *
  omega

theorem CallCounts.noops_eq {c : CallCounts} (kept : c.succeeded + c.failed ≤ c.calls) :
    c.noops = .ok (c.calls - c.succeeded - c.failed) := by
  simp only [noops, Checked.sub_eq_ok (show c.succeeded ≤ c.calls by omega), Checked.ok_bind,
    Checked.sub_eq_ok (show c.failed ≤ c.calls - c.succeeded by omega)]

def Statistics.counters (st : Statistics) : List CallCounts := [st.allocate, st.free, st.reallocate]

theorem foldl_countFree_counters (blocks : List BlockInfo) (st : Statistics) :
    (blocks.foldl Pool.countFree st).counters = st.counters := by
  induction blocks generalizing st with
  | nil => rfl
  | cons i rest ih =>
    have same : (Pool.countFree st i).counters = st.counters := by
      unfold Pool.countFree
      split <;> rfl
    rw [List.foldl_cons, ih, same]

theorem Chained.foldl_countFree_le {b : Buffer} {sentinel h : Nat} {prev : Option Nat}
    {blocks : List BlockInfo} (chain : Chained b sentinel prev h blocks) (st : Statistics) :
    (blocks.foldl Pool.countFree st).freePayload + (blocks.foldl Pool.countFree st).freeOverhead + h ≤
        st.freePayload + st.freeOverhead + sentinel ∧
      (blocks.foldl Pool.countFree st).freeBlocks + h ≤ st.freeBlocks + sentinel := by
  induction blocks generalizing prev h st with
  | nil =>
    obtain rfl := chain.1
    exact ⟨Nat.le_refl _, Nat.le_refl _⟩
  | cons i rest ih =>
    obtain ⟨payload, count⟩ := ih chain.2.2.2.2.2.2 (Pool.countFree st i)
    rw [List.foldl_cons]
    have more : (Pool.countFree st i).freePayload + (Pool.countFree st i).freeOverhead ≤
          st.freePayload + st.freeOverhead + (headerSize + i.size) ∧
        (Pool.countFree st i).freeBlocks ≤ st.freeBlocks + 1 := by
      unfold Pool.countFree
      split
      · simp only [headerSize]
        omega
      · omega
    simp only [headerSize] at payload count more
    omega

structure Pool.Faultless (p : Pool) : Prop where
  calls : ∀ call : Call, ∃ answer p', call.run p = .ok (answer, p')
  counts : ∀ (call : Call) n p', call.run p = .ok (.ok (.count n), p') → n < UInt64.size
  allocationSize : ∀ ptr, ∃ found, p.allocationSize ptr = .ok found
  isValidRange : ∀ ptr length, ∃ found, p.isValidRange ptr length = .ok found
  payload : ∀ ptr, ∃ found, p.payload ptr = .ok found
  fillPayload : ∀ ptr value, ∃ found p', p.fillPayload ptr value = .ok (found, p')
  usable : p.layout.firstBlock + headerSize ≤ p.layout.sentinel
  walk : ∃ blocks, p.walk = .ok blocks
  check : ∃ found, p.check = .ok found
  statistics : ∃ st, p.statistics = .ok st ∧ st.freePayload + st.freeOverhead < UInt64.size ∧
    st.freeBlocks < UInt64.size ∧ ∀ c ∈ st.counters, ∃ n, c.noops = .ok n
  search : ∀ size c, SizeClass.roundUp size = .ok c →
    c.sl < slotCount ∧ p.arena.index.firstFromArmed c = .ok (p.arena.index.firstFrom? c)
  sums : ∀ b : Buffer, b.size = p.buffer.size → ∀ h v, Block.word b h = .ok v →
    ∀ w : SizeWord, h + headerSize + v.size + w.size + headerSize < UInt64.size

namespace Pool

variable {p : Pool} {n : Nat} {cells : List Cell} {lists : SizeClass → List Nat} {ptr : Pointer}

theorem Sound.count_lt (sound : p.Sound n cells lists) (bound : n + 1 < UInt64.size) {call : Call}
    {k : Nat} {p' : Pool} (run : call.run p = .ok (.ok (.count k), p')) : k < UInt64.size := by
  have other : ∀ {α : Type} {wrap : α → Answer} {found : Checked (Except Error α × Pool)},
      (∀ a, wrap a ≠ .count k) → Call.answer wrap found ≠ .ok (.ok (.count k), p') := by
    intro α wrap found differs answered
    obtain ⟨result, -, same⟩ := Call.answer_eq answered
    cases result with
    | error e => cases same
    | ok a => exact differs a (Except.ok.inj same).symm
  cases call with
  | allocate size => exact absurd run (other fun _ => nofun)
  | allocateOwned size owner parent => exact absurd run (other fun _ => nofun)
  | allocateZeroed size => exact absurd run (other fun _ => nofun)
  | free ptr => exact absurd run (other fun _ => nofun)
  | reallocate ptr size => exact absurd run (other fun _ => nofun)
  | reallocateOwned ptr size owner parent => exact absurd run (other fun _ => nofun)
  | editRegistry edits => cases run
  | freeRecursive ptr =>
    obtain ⟨found, released, same⟩ := Call.answer_eq run
    by_cases null : ptr.isNull = true
    · rw [freeRecursive_null null] at released
      cases released
      cases same
      omega
    · rcases freeRecursive_spec sound bound (Bool.eq_false_of_not_eq_true null) with
        ⟨v, q, refused, -⟩ | ⟨gone, p₁, all, -, trades⟩
      · rw [refused] at released
        cases released
        cases same
      · rw [all] at released
        cases released
        cases same
        -- what was released had been handed out, and no more blocks are than the counters allow
        obtain ⟨-, -, others, -, old, -⟩ := trades
        have length := old.length_eq
        have active := sound.counts.active
        have calls := sound.counts.freeCalls
        rw [List.length_append] at length
        omega
  | rewrite ptr contents =>
    obtain ⟨found, written, same⟩ := Call.answer_eq run
    by_cases null : ptr.isNull = true
    · rw [rewritePayload, editPayload_null null rfl] at written
      cases written
      cases same
      omega
    · rcases live_or_dead cells ptr with ⟨x, mem, rfl⟩ | dead
      · obtain ⟨p₁, all, -⟩ := rewritePayload_live sound mem contents
        rw [all] at written
        cases written
        cases same
        have place := sound.holds.placed (mem_usedCells.mp mem).1
        have low := sound.holds.low
        have limit : UInt32.size < UInt64.size := by decide
        omega
      · obtain ⟨v, refused⟩ := editPayload_dead sound (Bool.eq_false_of_not_eq_true null) dead
          fun start size b => pure (Buffer.update contents start size b)
        rw [rewritePayload, refused] at written
        cases written
        cases same

theorem Sound.fillPayload (sound : p.Sound n cells lists) (ptr : Pointer) (value : UInt8) :
    ∃ found p', p.fillPayload ptr value = .ok (found, p') := by
  rcases pointer_cases cells ptr with null | ⟨nonnull, ⟨x, mem, rfl⟩ | dead⟩
  · have zero : ptr.word = 0 := eq_of_beq null
    refine ⟨_, _, editPayload_null null (if_pos ?_)⟩
    rw [Pointer.offset, zero]
    exact Nat.zero_le _
  · obtain ⟨p', run, -⟩ := fillPayload_live sound mem value
    exact ⟨_, p', run⟩
  · obtain ⟨v, run⟩ := editPayload_dead sound nonnull dead fun start size b => b.fill start size value
    exact ⟨_, _, run⟩

theorem Sound.queries (sound : p.Sound n cells lists) (ptr : Pointer) :
    (∃ found, p.allocationSize ptr = .ok found) ∧ (∃ found, p.payload ptr = .ok found) ∧
      ∀ length, ∃ found, p.isValidRange ptr length = .ok found := by
  rcases pointer_cases cells ptr with null | ⟨nonnull, ⟨x, mem, rfl⟩ | dead⟩
  · exact ⟨⟨_, allocationSize_null null⟩, ⟨_, payload_null null⟩, fun length => ⟨_, if_pos null⟩⟩
  · exact ⟨⟨_, allocationSize_live sound mem⟩, ⟨_, payload_live sound mem⟩,
      fun length => ⟨_, isValidRange_live sound mem length⟩⟩
  · obtain ⟨v, sized⟩ := allocationSize_dead sound dead nonnull
    obtain ⟨v', read⟩ := payload_dead sound dead nonnull
    exact ⟨⟨_, sized⟩, ⟨_, read⟩, fun length => ⟨_, isValidRange_dead sound dead nonnull length⟩⟩

theorem Sound.usable (sound : p.Sound n cells lists) (nonempty : cells ≠ []) :
    p.layout.firstBlock + headerSize ≤ p.layout.sentinel := by
  obtain ⟨x, mem⟩ := List.exists_mem_of_ne_nil cells nonempty
  have place := sound.holds.placed mem
  simp only [headerSize]
  omega

theorem Sound.statistics_fit (sound : p.Sound n cells lists) :
    ∃ st, p.statistics = .ok st ∧ st.freePayload + st.freeOverhead < UInt64.size ∧
      st.freeBlocks < UInt64.size ∧ ∀ c ∈ st.counters, ∃ n, c.noops = .ok n := by
  obtain ⟨payload, count⟩ := sound.consistent.chained.foldl_countFree_le
    { p.tally.snapshot with usedOverhead := p.tally.active * headerSize }
  have low := sound.holds.low
  have limit : UInt32.size < UInt64.size := by decide
  simp only [Tally.snapshot] at payload count
  refine ⟨_, sound.statistics, ?_, ?_, ?_⟩
  · simp only [Tally.snapshot]
    omega
  · simp only [Tally.snapshot]
    omega
  · rw [foldl_countFree_counters]
    have counts := sound.counts
    simp only [Statistics.counters, Tally.snapshot, List.forall_mem_cons]
    exact ⟨⟨_, CallCounts.noops_eq counts.allocate⟩, ⟨_, CallCounts.noops_eq counts.free⟩,
      ⟨_, CallCounts.noops_eq (Nat.le_of_eq counts.reallocate)⟩, fun c mem => nomatch mem⟩

end Pool

namespace Session

variable {s s' : Session} {n : Nat} {cells : List Cell} {lists : SizeClass → List Nat}

theorem Reachable.usable (reach : s.Reachable) :
    s.pool.layout.firstBlock + headerSize ≤ s.pool.layout.sentinel := by
  obtain ⟨n, few, b, k, p, calls, small, proper, built, rfl, run⟩ := reach
  have limit : UInt64.size = 18446744073709551616 := rfl
  obtain ⟨x, lists, -, start, -⟩ := Construction.opens small proper built
  obtain ⟨s', cells', lists', run', -, passes⟩ := start.toStands.run calls (by omega)
  rw [run] at run'
  cases run'
  rw [passes.layout]
  exact start.pool.usable (List.cons_ne_nil x [])

theorem reachable_faultless (reach : s.Reachable) : s.pool.Faultless := by
  obtain ⟨n, cells, lists, bound, sound⟩ := reach.sound
  have pool := sound.pool
  refine ⟨fun call => ?_, fun call k p' run => pool.count_lt bound run,
    fun ptr => (pool.queries ptr).1, fun ptr => (pool.queries ptr).2.2,
    fun ptr => (pool.queries ptr).2.1, pool.fillPayload, reach.usable, ⟨_, pool.walk⟩,
    ⟨_, pool.check⟩, pool.statistics_fit, fun size c rounded => ?_, fun b same h v read w => ?_⟩
  · obtain ⟨answer, p', run, -⟩ := call.ends pool bound
    exact ⟨answer, p', run⟩
  · have slot := roundUp_slot_lt rounded
    exact ⟨slot, (pool.holds.mirror.summarized.search c).armed slot⟩
  · have small := sound.small
    exact Block.sums_fit (same.symm ▸ small) read w

theorem reachable_faultless_sample : ∃ s,
    (Construction.region 5 (some 200) (some .empty)).session? (.filled 256 0xEE)
        [.allocateOwned 40 ⟨7⟩ none, .allocateOwned 3 ⟨8⟩ (some ⟨16⟩), .reallocate ⟨16⟩ 60,
          .freeRecursive ⟨9⟩] = some s ∧
      s.ledger ⟨88⟩ = some 64 ∧ s.pool.Faultless := by
  have made : ((Construction.region 5 (some 200) (some .empty)).session? (.filled 256 0xEE)
      [.allocateOwned 40 ⟨7⟩ none, .allocateOwned 3 ⟨8⟩ (some ⟨16⟩), .reallocate ⟨16⟩ 60,
        .freeRecursive ⟨9⟩]).map (fun s => s.ledger ⟨88⟩) = some (some 64) := by decide +kernel
  obtain ⟨s, session, granted⟩ := Option.map_eq_some_iff.mp made
  have small : (Buffer.filled 256 0xEE).size < 2 ^ 31 := by decide +kernel
  have proper := Construction.proper_empty 5 (some 200)
  exact ⟨s, session, granted,
    reachable_faultless (reachable_of_session? small proper (by decide) session)⟩

end Session

end Tlsf
