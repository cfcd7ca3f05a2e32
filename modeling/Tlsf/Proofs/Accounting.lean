import Mathlib.Data.List.Induction
import Tlsf.Proofs.Faultless
import Tlsf.Proofs.Peaks

/-!
The statistics as accounts. Whatever calls a host makes, the counters add up, the
used side agrees with the used blocks of a walk and the free side with the free
ones, the two sides with their headers fill the pool, and each peak is the
largest value that was shown between calls since the pool was made.
-/

namespace Tlsf

open Dimensions

def blockSizes (free : Bool) (blocks : List BlockInfo) : List Nat :=
  (blocks.filter fun i => i.isFree == free).map BlockInfo.size

/-- The statistics `st` of a pool with these blocks and `usable` bytes. -/
structure Statistics.Accounts (st : Statistics) (blocks : List BlockInfo) (usable : Nat) : Prop where
  active : st.active = (blockSizes false blocks).length
  balance : st.active + st.free.succeeded = st.allocate.succeeded
  usedPayload : st.usedPayload = (blockSizes false blocks).sum
  freeBlocks : st.freeBlocks = (blockSizes true blocks).length
  freePayload : st.freePayload = (blockSizes true blocks).sum
  largestFree : st.largestFree = (blockSizes true blocks).max?.getD 0
  whole : st.usedPayload + st.usedOverhead + st.freePayload + st.freeOverhead = usable + headerSize
  allocate : st.allocate.succeeded + st.allocate.failed ≤ st.allocate.calls
  free : st.free.succeeded + st.free.failed ≤ st.free.calls
  reallocate : st.reallocate.succeeded + st.reallocate.failed = st.reallocate.calls
  resizes : st.resizes.unchanged + st.resizes.shrunk + st.resizes.grown + st.resizes.moved =
    st.reallocate.succeeded

/-- The statistics that a session shows between the calls, from its start to its end. -/
def Session.Shows (s : Session) (calls : List Call) (st : Statistics) : Prop :=
  ∃ before s', before <+: calls ∧ s.run before = .ok s' ∧ s'.pool.statistics = .ok st

section Blocks

variable {x : Cell} {cells : List Cell} {free : Bool}

theorem blockSizes_cons (i : BlockInfo) (blocks : List BlockInfo) :
    blockSizes free (i :: blocks) =
      if i.isFree = free then i.size :: blockSizes free blocks else blockSizes free blocks := by
  by_cases same : i.isFree = free <;> simp [blockSizes, same]

theorem blockSizes_info_cons (x : Cell) (cells : List Cell) :
    blockSizes free ((x :: cells).map Cell.info) =
      if x.isFree = free then x.size :: blockSizes free (cells.map Cell.info)
      else blockSizes free (cells.map Cell.info) := blockSizes_cons x.info (cells.map Cell.info)

theorem blockSizes_used (cells : List Cell) :
    blockSizes false (cells.map Cell.info) = (usedCells cells).map Cell.size := by
  induction cells with
  | nil => rfl
  | cons x rest ih =>
    rw [blockSizes_info_cons, ih]
    by_cases used : x.status = .used
    · rw [usedCells_used used, if_pos (Cell.isFree_of_used used), List.map_cons]
    · rw [usedCells_free used, if_neg (by simpa using (Cell.isFree_iff x).mpr used)]

theorem Tiles.blockSizes_sum {lo hi : Nat} (tiles : Tiles lo cells hi) :
    lo + (payloadSum (usedCells cells) + (usedCells cells).length * headerSize +
      (blockSizes true (cells.map Cell.info)).sum +
      (blockSizes true (cells.map Cell.info)).length * headerSize) = hi := by
  induction cells generalizing lo with
  | nil => exact tiles
  | cons x rest ih =>
    have start := tiles.1
    have later := ih tiles.2.2
    rw [x.stop_eq] at later
    rw [blockSizes_info_cons]
    simp only [headerSize] at later ⊢
    by_cases used : x.status = .used
    · rw [usedCells_used used, if_neg (by simp [Cell.isFree_of_used used]), payloadSum_cons,
        List.length_cons]
      omega
    · rw [usedCells_free used, if_pos ((Cell.isFree_iff x).mpr used), List.sum_cons, List.length_cons]
      omega

theorem foldl_countFree_eq (blocks : List BlockInfo) (st : Statistics) :
    blocks.foldl Pool.countFree st =
      { st with
        freeBlocks := st.freeBlocks + (blockSizes true blocks).length
        freePayload := st.freePayload + (blockSizes true blocks).sum
        freeOverhead := st.freeOverhead + (blockSizes true blocks).length * headerSize
        largestFree := (blockSizes true blocks).foldl max st.largestFree } := by
  induction blocks generalizing st with
  | nil => simp [blockSizes]
  | cons i rest ih =>
    rw [List.foldl_cons, ih, blockSizes_cons]
    by_cases free : i.isFree = true
    · simp only [Pool.countFree, free, if_true, headerSize, List.length_cons, List.sum_cons,
        List.foldl_cons]
      congr 1 <;> omega
    · rw [Pool.countFree, if_neg free, if_neg free]

theorem foldl_max_zero (sizes : List Nat) : sizes.foldl max 0 = sizes.max?.getD 0 := by
  cases sizes with
  | nil => rfl
  | cons n rest => rw [List.foldl_cons, Nat.zero_max, List.max?_cons', Option.getD_some]

end Blocks

namespace Pool

variable {p : Pool} {n : Nat} {cells : List Cell} {lists : SizeClass → List Nat} {st : Statistics}

theorem Sound.statistics_eq (sound : p.Sound n cells lists) :
    p.statistics = .ok
      { p.tally.snapshot with
        usedOverhead := p.tally.active * headerSize
        freeBlocks := (blockSizes true (cells.map Cell.info)).length
        freePayload := (blockSizes true (cells.map Cell.info)).sum
        freeOverhead := (blockSizes true (cells.map Cell.info)).length * headerSize
        largestFree := (blockSizes true (cells.map Cell.info)).max?.getD 0 } := by
  rw [sound.statistics, foldl_countFree_eq, ← foldl_max_zero]
  simp only [Tally.snapshot, Nat.zero_add]

theorem Sound.shown (sound : p.Sound n cells lists) (shown : p.statistics = .ok st) :
    st.active = p.tally.active ∧ st.usedPayload = p.tally.usedPayload ∧
      st.peakActive = p.tally.peakActive ∧ st.peakUsedPayload = p.tally.peakUsedPayload := by
  rw [sound.statistics_eq] at shown
  cases shown
  exact ⟨rfl, rfl, rfl, rfl⟩

theorem Sound.accounts (sound : p.Sound n cells lists)
    (usable : p.layout.firstBlock + headerSize ≤ p.layout.sentinel) (shown : p.statistics = .ok st) :
    st.Accounts (cells.map Cell.info) p.usableSize := by
  have counts := sound.counts
  have filled := sound.holds.tiles.blockSizes_sum
  rw [sound.statistics_eq] at shown
  cases shown
  refine ⟨?_, counts.balance.symm, ?_, rfl, rfl, rfl, ?_, counts.allocate, counts.free,
    counts.reallocate, counts.resizes⟩
  · rw [blockSizes_used, List.length_map]
    exact counts.active
  · rw [blockSizes_used]
    exact counts.payload
  · simp only [Tally.snapshot, counts.payload, counts.active, usableSize] at filled usable ⊢
    omega

end Pool

namespace Session

variable {s s' : Session} {n : Nat} {cells : List Cell} {lists : SizeClass → List Nat}

theorem shows_concat {calls : List Call} {call : Call} {st : Statistics}
    (run : s.run (calls ++ [call]) = .ok s') (shown : s'.pool.statistics = .ok st) :
    {st | s.Shows (calls ++ [call]) st} = insert st {st | s.Shows calls st} := by
  ext st'
  rw [Set.mem_insert_iff]
  constructor
  · rintro ⟨before, s₁, early, run₁, shown₁⟩
    rcases List.prefix_concat_iff.mp early with rfl | earlier
    · rw [run] at run₁
      cases run₁
      rw [shown] at shown₁
      exact .inl (Except.ok.inj shown₁).symm
    · exact .inr ⟨before, s₁, earlier, run₁, shown₁⟩
  · rintro (rfl | ⟨before, s₁, earlier, run₁, shown₁⟩)
    · exact ⟨_, s', List.prefix_rfl, run, shown⟩
    · exact ⟨before, s₁, earlier.trans (List.prefix_append ..), run₁, shown₁⟩

theorem shows_nil {st : Statistics} (shown : s.pool.statistics = .ok st) :
    {st | s.Shows [] st} = {st} := by
  ext st'
  rw [Set.mem_singleton_iff]
  constructor
  · rintro ⟨before, s₁, early, run, shown₁⟩
    rw [List.prefix_nil.mp early] at run
    cases run
    rw [shown] at shown₁
    exact (Except.ok.inj shown₁).symm
  · rintro rfl
    exact ⟨[], s, List.prefix_rfl, rfl, shown⟩

theorem Sound.peaks (start : s.Sound 0 cells lists) (fresh : s.pool.tally = {}) (calls : List Call)
    (few : calls.length < UInt64.size) (run : s.run calls = .ok s') :
    s'.pool.tally.Peaked ∧
      IsGreatest (Statistics.active '' {st | s.Shows calls st}) s'.pool.tally.peakActive ∧
      IsGreatest (Statistics.usedPayload '' {st | s.Shows calls st})
        s'.pool.tally.peakUsedPayload := by
  -- from the last call back, since one call more adds one value to those that were shown
  induction calls using List.reverseRecOn generalizing s' with
  | nil =>
    obtain rfl : s = s' := Except.ok.inj run
    have shown := start.pool.statistics_eq
    rw [shows_nil shown, Set.image_singleton, Set.image_singleton]
    simp only [fresh, Tally.snapshot]
    exact ⟨⟨Nat.le_refl 0, Nat.le_refl 0⟩, isGreatest_singleton, isGreatest_singleton⟩
  | append_singleton calls call ih =>
    rw [List.length_append, List.length_singleton] at few
    obtain ⟨s₂, cells₂, lists₂, run₂, sound₂⟩ := start.run (calls ++ [call]) (by simpa using few)
    rw [run] at run₂
    cases run₂
    have shown := sound₂.pool.statistics_eq
    have whole := run
    rw [run_append] at run
    obtain ⟨s₁, run₁, last⟩ := Checked.of_bind run
    obtain ⟨⟨result, s₂⟩, step, same⟩ := Checked.of_bind last
    cases same
    obtain ⟨⟨result', p'⟩, called, same⟩ := Checked.of_bind step
    cases same
    obtain ⟨peaked, active, usedPayload⟩ := ih (by omega) run₁
    have raised := Call.raised peaked called
    rw [shows_concat whole shown, Set.image_insert_eq, Set.image_insert_eq]
    refine ⟨raised.peaked, ?_, ?_⟩
    · rw [raised.active, max_comm]
      exact active.insert _
    · rw [raised.usedPayload, max_comm]
      exact usedPayload.insert _

/-- After any run of calls the statistics add up, and their peaks are the largest values that were
shown on the way. -/
theorem runs_accounted {b : Buffer} {k : Construction} {p : Pool} (small : b.size < 2 ^ 31)
    (proper : k.Proper) (built : k.build b = .ok (.ok p)) (calls : List Call)
    (few : calls.length < 2 ^ 63) :
    ∃ s blocks st, Session.run ⟨p, .empty⟩ calls = .ok s ∧ s.pool.walk = .ok blocks ∧
      s.pool.statistics = .ok st ∧ st.Accounts blocks s.pool.usableSize ∧
      IsGreatest (Statistics.active '' {st | Session.Shows ⟨p, .empty⟩ calls st}) st.peakActive ∧
      IsGreatest (Statistics.usedPayload '' {st | Session.Shows ⟨p, .empty⟩ calls st})
        st.peakUsedPayload := by
  obtain ⟨s, cells, lists, run, sound⟩ := runs_sound small proper built calls few
  obtain ⟨x, lists₀, fresh, start, -⟩ := Construction.opens small proper built
  have limit : UInt64.size = 18446744073709551616 := rfl
  have shown := sound.pool.statistics_eq
  have reach : s.Reachable := ⟨calls.length, few, b, k, p, calls, small, proper, built, rfl, run⟩
  obtain ⟨-, active, usedPayload⟩ := start.peaks fresh calls (by omega) run
  exact ⟨s, _, _, run, sound.pool.walk, shown, sound.pool.accounts reach.usable shown, active,
    usedPayload⟩

theorem runs_accounted_sample : ∃ p s blocks st,
    Construction.whole.build (.filled 256 0x5A) = .ok (.ok p) ∧
      Session.run ⟨p, .empty⟩ [.allocate 40, .allocateZeroed 16, .reallocate ⟨56⟩ 60, .allocate 20,
        .reallocate ⟨8⟩ 200, .free ⟨56⟩, .free ⟨8⟩] = .ok s ∧
      s.pool.walk = .ok blocks ∧ s.pool.statistics = .ok st ∧
      st.Accounts blocks s.pool.usableSize ∧ st.active = 1 ∧ st.peakActive = 3 ∧
      st.usedPayload = 24 ∧ st.peakUsedPayload = 128 ∧
      IsGreatest (Statistics.active '' {st | Session.Shows ⟨p, .empty⟩ [.allocate 40,
        .allocateZeroed 16, .reallocate ⟨56⟩ 60, .allocate 20, .reallocate ⟨8⟩ 200, .free ⟨56⟩,
        .free ⟨8⟩] st}) 3 := by
  let calls : List Call := [.allocate 40, .allocateZeroed 16, .reallocate ⟨56⟩ 60, .allocate 20,
    .reallocate ⟨8⟩ 200, .free ⟨56⟩, .free ⟨8⟩]
  have made : ((Construction.whole.session? (.filled 256 0x5A) calls).map fun s =>
      s.pool.statistics.toOption.map fun st =>
        [st.active, st.peakActive, st.usedPayload, st.peakUsedPayload]) =
      some (some [1, 3, 24, 128]) := by decide +kernel
  obtain ⟨s, session, entries⟩ := Option.map_eq_some_iff.mp made
  obtain ⟨p, built, run⟩ := Construction.of_session? session
  have small : (Buffer.filled 256 0x5A).size < 2 ^ 31 := by decide +kernel
  have proper : Construction.whole.Proper := trivial
  obtain ⟨s', blocks, st, run', walk, shown, accounts, active, -⟩ :=
    runs_accounted small proper built calls (by decide)
  rw [run] at run'
  cases run'
  rw [shown] at entries
  have values : [st.active, st.peakActive, st.usedPayload, st.peakUsedPayload] = [1, 3, 24, 128] :=
    Option.some.inj entries
  simp only [List.cons.injEq, and_true] at values
  obtain ⟨now, most, bytes, mostBytes⟩ := values
  exact ⟨p, s, blocks, st, built, run, walk, shown, accounts, now, most, bytes, mostBytes,
    most ▸ active⟩

end Session

end Tlsf
