import Tlsf.Proofs.Consistency

/-!
The payload of a block that is taken back. It is overwritten before the block joins its
neighbours, and what joins them afterwards writes headers and links. The links of the
free block that results lie at its own start, which is that of the released block or
before it, so every released byte behind the links is left as the stomp has put it.
-/

namespace Tlsf

open Dimensions Buffer

/-- A release of the `size` bytes at `ptr`: they end up in one free block, overwritten or as
they were. -/
structure Pool.TakesBack (p p' : Pool) (ptr : Pointer) (size : Nat) : Prop where
  inside : ptr.offset + size ≤ p'.buffer.size
  joined : ∃ blocks, p'.walk = .ok blocks ∧ ∃ i ∈ blocks, i.isFree = true ∧
    i.pointer.offset ≤ ptr.offset ∧ ptr.offset + size ≤ i.pointer.offset + i.size
  stomped : p.stompFreed = true →
    ∀ i ∈ Set.Ico (ptr.offset + 8) (ptr.offset + size), p'.buffer.byteAt i = 0xDD
  kept : p.stompFreed = false →
    ∀ i ∈ Set.Ico (ptr.offset + 8) (ptr.offset + size), p'.buffer.byteAt i = p.buffer.byteAt i

namespace Arena

variable {a : Arena} {first stop : Nat} {pre post : List Cell} {x : Cell}
  {lists : SizeClass → List Nat}

theorem release_payload (stable : a.Stable first stop (pre ++ x :: post) lists)
    (used : x.status = .used) (stomp : Bool) :
    ∃ a', a.release x.header stomp = .ok a' ∧
      a'.Stable first stop (releasedCells pre x post) (releasedLists lists pre x post) ∧
      a'.buffer.size = a.buffer.size ∧ ∀ i ∈ Set.Ico (x.header + 16) x.stop,
        a'.buffer.byteAt i = if stomp then freedPattern else a.buffer.byteAt i := by
  obtain ⟨a', run, after, touched, stomped⟩ := release_spec stable used stomp
  refine ⟨a', run, after, touched.size, fun i inside => ?_⟩
  have spared := stable.holds.releaseArea_off used inside.1 inside.2
  cases stomp with
  | true => exact stomped i ⟨rfl, inside⟩
  | false =>
    have quiet : i ∉ stompArea x false := fun hit => nomatch hit.1
    exact touched.byte i fun hit => hit.elim quiet spared

end Arena

namespace Pool

variable {p : Pool} {n : Nat} {cells : List Cell} {lists : SizeClass → List Nat} {x : Cell}

theorem free_takesBack (sound : p.Sound n cells lists) (bound : n + 1 < UInt64.size)
    (mem : x ∈ usedCells cells) :
    ∃ p', p.free x.pointer = .ok (.ok true, p') ∧ p.TakesBack p' x.pointer x.size := by
  have offset := sound.pointer_offset mem
  have inside := payload_inside sound mem
  have stopx := x.stop_eq
  obtain ⟨memx, used⟩ := mem_usedCells.mp mem
  obtain ⟨pre, post, rfl⟩ := List.append_of_mem memx
  obtain ⟨a', run, after, size, bytes⟩ := Arena.release_payload sound.stable used p.stompFreed
  have perm : (usedCells (pre ++ x :: post)).Perm (x :: usedCells (releasedCells pre x post)) := by
    rw [usedCells_released sound.stable.settled]
    exact usedCells_perm used
  obtain ⟨t, counted, counts⟩ := (sound.counts.perm perm).freed_spec bound
  have sound' := sound.change after size counts (sound.unregister_forest x.pointer)
  have payload : Set.Ico (x.pointer.offset + 8) (x.pointer.offset + x.size) =
      Set.Ico (x.header + 16) x.stop := by
    rw [offset, stopx]
  refine ⟨_, free_eq sound mem run counted, ?_, ?_, fun on i hit => ?_, fun off i hit => ?_⟩
  · rw [offset]
    change _ ≤ a'.buffer.size
    have same : a'.buffer.size = p.buffer.size := size
    omega
  · obtain ⟨front, far⟩ := releasedBlock_place sound.holds.tiles
    have whole := (releasedBlock pre x post).stop_eq
    have here : (releasedBlock pre x post).turn .filed ∈ releasedCells pre x post := by
      simp [releasedCells]
    have start := Cell.pointer_offset (sound'.holds.header_fits here)
    refine ⟨_, sound'.walk, _, List.mem_map_of_mem here, rfl, ?_, ?_⟩
    · simp only [Cell.info, start, Cell.turn_header]
      omega
    · simp only [Cell.info, start, Cell.turn_header, Cell.turn_size]
      omega
  · rw [payload] at hit
    exact (bytes i hit).trans (if_pos on)
  · rw [payload] at hit
    refine (bytes i hit).trans (if_neg ?_)
    rw [off]
    exact Bool.false_ne_true

end Pool

namespace Session

variable {s : Session} {ptr : Pointer} {size : Nat}

theorem releases_stomp (reach : s.Reachable) (granted : s.ledger ptr = some size) :
    ∃ s', s.step (.free ptr) = .ok (.ok (.released true), s') ∧
      s.pool.TakesBack s'.pool ptr size := by
  obtain ⟨n, cells, lists, bound, sound⟩ := reach.sound
  obtain ⟨x, mem, rfl, rfl⟩ := (sound.book ptr size).mp granted
  obtain ⟨p', freed, back⟩ := Pool.free_takesBack sound.pool bound mem
  have called : (Call.free x.pointer).run s.pool = .ok (.ok (.released true), p') := by
    rw [Call.run, Call.answer, freed]
    rfl
  exact ⟨_, step_eq called, back⟩

theorem releases_stomp_sample :
    (∃ s s', Construction.whole.session? (.filled 144 0x44)
        [.allocate 16, .allocate 24, .allocate 16, .allocate 16, .free ⟨8⟩, .free ⟨64⟩] = some s ∧
      s.step (.free ⟨32⟩) = .ok (.ok (.released true), s') ∧
      ∀ i ∈ Set.Ico 40 56, s'.pool.buffer.byteAt i = 0xDD) ∧
    ∃ s s', (Construction.config { stompFreed := false }).session? (.filled 144 0x44)
        [.allocate 16, .allocate 24, .allocate 16, .allocate 16, .free ⟨8⟩, .free ⟨64⟩] = some s ∧
      s.step (.free ⟨32⟩) = .ok (.ok (.released true), s') ∧
      ∀ i ∈ Set.Ico 40 56, s'.pool.buffer.byteAt i = s.pool.buffer.byteAt i := by
  have small : (Buffer.filled 144 0x44).size < 2 ^ 31 := by decide +kernel
  constructor
  · have made : ((Construction.whole.session? (.filled 144 0x44)
        [.allocate 16, .allocate 24, .allocate 16, .allocate 16, .free ⟨8⟩, .free ⟨64⟩]).map
          fun s => (s.ledger ⟨32⟩, s.pool.stompFreed)) = some (some 24, true) := by decide +kernel
    obtain ⟨s, session, entries⟩ := Option.map_eq_some_iff.mp made
    obtain ⟨granted, on⟩ := Prod.mk.inj entries
    have proper : Construction.whole.Proper := trivial
    have reach : s.Reachable := reachable_of_session? small proper (by decide) session
    obtain ⟨s', freed, back⟩ := releases_stomp reach granted
    exact ⟨s, s', session, freed, back.stomped on⟩
  · have made : (((Construction.config { stompFreed := false }).session? (.filled 144 0x44)
        [.allocate 16, .allocate 24, .allocate 16, .allocate 16, .free ⟨8⟩, .free ⟨64⟩]).map
          fun s => (s.ledger ⟨32⟩, s.pool.stompFreed)) = some (some 24, false) := by decide +kernel
    obtain ⟨s, session, entries⟩ := Option.map_eq_some_iff.mp made
    obtain ⟨granted, off⟩ := Prod.mk.inj entries
    have proper : (Construction.config { stompFreed := false }).Proper := trivial
    have reach : s.Reachable := reachable_of_session? small proper (by decide) session
    obtain ⟨s', freed, back⟩ := releases_stomp reach granted
    exact ⟨s, s', session, freed, back.kept off⟩

end Session

end Tlsf
