import Tlsf.Proofs.Consistency

/-!
What is left of a call that fails: one failure more under the operation that it
came down to, and nothing else. This says it in the statistics that a host can
see. They can always be taken of a sound pool, and a failure shows in them as
in the tally.
-/

namespace Tlsf

open Dimensions Buffer

def Statistics.fail (st : Statistics) : Option Counter → Statistics
  | none => st
  | some .allocate => { st with allocate := st.allocate.addFailure }
  | some .free => { st with free := st.free.addFailure }
  | some .reallocate => { st with reallocate := st.reallocate.addFailure }

/-- The pool `p'` is `p` after a failure, counted under `counter`. -/
structure Pool.FailedTo (p p' : Pool) (counter : Option Counter) : Prop where
  buffer : p'.buffer = p.buffer
  index : p'.arena.index = p.arena.index
  live : p'.arena.live = p.arena.live
  layout : p'.layout = p.layout
  registry : p'.registry = p.registry
  stompFreed : p'.stompFreed = p.stompFreed
  statistics : ∃ st, p.statistics = .ok st ∧ p'.statistics = .ok (st.fail counter)

section Statistics

variable {st : Statistics} {counter : Option Counter}

theorem Tally.snapshot_fail (t : Tally) : (t.fail counter).snapshot = t.snapshot.fail counter := by
  cases counter with
  | none => rfl
  | some counter => cases counter <;> rfl

theorem Tally.active_fail (t : Tally) : (t.fail counter).active = t.active := by
  cases counter with
  | none => rfl
  | some counter => cases counter <;> rfl

theorem Statistics.usedOverhead_fail (overhead : Nat) :
    { st.fail counter with usedOverhead := overhead } =
      ({ st with usedOverhead := overhead } : Statistics).fail counter := by
  cases counter with
  | none => rfl
  | some counter => cases counter <;> rfl

theorem countFree_fail (i : BlockInfo) :
    Pool.countFree (st.fail counter) i = (Pool.countFree st i).fail counter := by
  unfold Pool.countFree
  by_cases free : i.isFree = true
  · rw [if_pos free, if_pos free]
    cases counter with
    | none => rfl
    | some counter => cases counter <;> rfl
  · rw [if_neg free, if_neg free]

theorem foldl_countFree_fail (blocks : List BlockInfo) :
    blocks.foldl Pool.countFree (st.fail counter) =
      (blocks.foldl Pool.countFree st).fail counter := by
  induction blocks generalizing st with
  | nil => rfl
  | cons i rest ih => rw [List.foldl_cons, List.foldl_cons, countFree_fail, ih]

end Statistics

theorem Tiles.length_le {lo hi : Nat} {cells : List Cell} (tiles : Tiles lo cells hi) :
    lo + 24 * cells.length ≤ hi := by
  induction cells generalizing lo with
  | nil => exact Nat.le_of_eq tiles
  | cons x rest ih =>
    have header := tiles.1
    have least := tiles.2.1.minimum
    have later := ih tiles.2.2
    rw [x.stop_eq] at later
    rw [List.length_cons]
    omega

namespace Pool

variable {p : Pool} {n : Nat} {cells : List Cell} {lists : SizeClass → List Nat}

theorem Sound.used_few (sound : p.Sound n cells lists) :
    24 * (usedCells cells).length + 8 < UInt64.size := by
  have used : (usedCells cells).length ≤ cells.length := List.length_filter_le ..
  have all := sound.holds.tiles.length_le
  have low := sound.holds.low
  have limit : UInt32.size < UInt64.size := by decide
  omega

theorem Sound.overhead (sound : p.Sound n cells lists) :
    Checked.mul p.tally.active headerSize = .ok (p.tally.active * headerSize) := by
  have active := sound.counts.active
  have few := sound.used_few
  apply Checked.mul_eq_ok
  simp only [headerSize]
  omega

theorem Sound.statistics (sound : p.Sound n cells lists) :
    p.statistics = .ok ((cells.map Cell.info).foldl countFree
      { p.tally.snapshot with usedOverhead := p.tally.active * headerSize }) := by
  unfold Pool.statistics
  rw [sound.overhead, Checked.ok_bind, sound.walk, Checked.ok_bind, Checked.pure_eq]

theorem Sound.failedTo (sound : p.Sound n cells lists) (call : Call) :
    p.FailedTo (call.failed p) call.counter? := by
  refine ⟨rfl, rfl, rfl, rfl, rfl, rfl, _, sound.statistics, ?_⟩
  have overhead : Checked.mul (p.tally.fail call.counter?).active headerSize =
      .ok (p.tally.active * headerSize) := by
    rw [Tally.active_fail]
    exact sound.overhead
  have walk : (call.failed p).walk = .ok (cells.map Cell.info) := sound.walk
  unfold Pool.statistics
  change (Checked.mul (p.tally.fail call.counter?).active headerSize >>= _) = _
  rw [overhead, Checked.ok_bind, walk, Checked.ok_bind, Checked.pure_eq]
  change Except.ok ((cells.map Cell.info).foldl countFree
    { (p.tally.fail call.counter?).snapshot with usedOverhead := p.tally.active * headerSize }) = _
  rw [Tally.snapshot_fail, Statistics.usedOverhead_fail, foldl_countFree_fail]

end Pool

namespace Session

variable {s : Session}

theorem payload_fails (reach : s.Reachable) (ptr : Pointer) :
    (∃ found, s.pool.payload ptr = .ok found ∧ ∀ e, found = .error e → e.IsRefusal) ∧
      ∃ found, s.pool.allocationSize ptr = .ok found ∧ ∀ e, found = .error e → e.IsRefusal := by
  obtain ⟨n, cells, lists, bound, sound⟩ := reach.sound
  by_cases null : ptr.isNull = true
  · exact ⟨⟨_, Pool.payload_null null, fun e failed => nomatch failed⟩,
      ⟨_, Pool.allocationSize_null null, fun e failed => nomatch failed⟩⟩
  · rcases Pool.live_or_dead cells ptr with ⟨x, mem, rfl⟩ | dead
    · exact ⟨⟨_, Pool.payload_live sound.pool mem, fun e failed => nomatch failed⟩,
        ⟨_, Pool.allocationSize_live sound.pool mem, fun e failed => nomatch failed⟩⟩
    · have nonnull := Bool.eq_false_of_not_eq_true null
      obtain ⟨v, size⟩ := Pool.allocationSize_dead sound.pool dead nonnull
      obtain ⟨w, payload⟩ := Pool.payload_dead sound.pool dead nonnull
      refine ⟨⟨_, payload, fun e failed => ?_⟩, ⟨_, size, fun e failed => ?_⟩⟩
      · cases failed
        trivial
      · cases failed
        trivial

/-- A call that fails was refused, and only counts that. -/
theorem failures_atomic (reach : s.Reachable) :
    (∀ call : Call, ∃ result p', call.run s.pool = .ok (result, p') ∧
      ∀ e : Error, result = .error e → e.IsRefusal ∧ s.pool.FailedTo p' call.counter?) ∧
    ∀ ptr,
      (∃ found, s.pool.payload ptr = .ok found ∧ ∀ e, found = .error e → e.IsRefusal) ∧
      ∃ found, s.pool.allocationSize ptr = .ok found ∧ ∀ e, found = .error e → e.IsRefusal := by
  obtain ⟨n, cells, lists, bound, sound⟩ := reach.sound
  refine ⟨fun call => ?_, payload_fails reach⟩
  obtain ⟨result, p', run, ends⟩ := call.ends sound.pool bound
  refine ⟨result, p', run, fun e failed => ?_⟩
  cases ends with
  | refused kind trades =>
    cases failed
    exact ⟨kind, sound.pool.failedTo call⟩
  | kept gone silent returned trades => cases failed
  | granted asked large returned trades => cases failed
  | rewrote mem writes trades => cases failed

theorem failures_atomic_sample : ∃ s p p',
    Construction.whole.session? (.filled 96 1) [.allocate 24, .allocate 24] = some s ∧
      (Call.reallocate ⟨8⟩ 48).run s.pool = .ok (.error (.outOfMemory 48), p) ∧
      s.pool.FailedTo p (some .reallocate) ∧
      (Call.free ⟨48⟩).run s.pool = .ok (.error (.safety (.notLive ⟨48⟩)), p') ∧
      s.pool.FailedTo p' (some .free) := by
  have made : ((Construction.whole.session? (.filled 96 1) [.allocate 24, .allocate 24]).map
      fun s => (((Call.reallocate ⟨8⟩ 48).run s.pool).toOption.map Prod.fst,
        ((Call.free ⟨48⟩).run s.pool).toOption.map Prod.fst)) =
      some (some (.error (.outOfMemory 48)), some (.error (.safety (.notLive ⟨48⟩)))) := by
    decide +kernel
  obtain ⟨s, session, answers⟩ := Option.map_eq_some_iff.mp made
  have small : (Buffer.filled 96 1).size < 2 ^ 31 := by decide +kernel
  have proper : Construction.whole.Proper := trivial
  have reach : s.Reachable := reachable_of_session? small proper (by decide) session
  obtain ⟨failures, -⟩ := failures_atomic reach
  obtain ⟨result, p, run, failed⟩ := failures (.reallocate ⟨8⟩ 48)
  obtain ⟨result', p', run', failed'⟩ := failures (.free ⟨48⟩)
  rw [run, run'] at answers
  obtain ⟨first, second⟩ := Prod.mk.inj answers
  obtain rfl := Option.some.inj first
  obtain rfl := Option.some.inj second
  exact ⟨s, p, p', session, run, (failed _ rfl).2, run', (failed' _ rfl).2⟩

end Session

end Tlsf
