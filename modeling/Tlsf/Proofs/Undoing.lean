import Tlsf.Proofs.Grants

/-!
An allocation that is given back at once. Carving cuts the tail off a block at the
front of its list; the release joins the tail to it again and puts it back in front,
so that the same blocks are on the same lists in the same order. These determine the
index and every byte of bookkeeping. What remains of the detour is in the payload of
the block that was carved, behind its links.
-/

namespace Tlsf

open Dimensions Buffer

/-- A pool after a detour over `ptr`, which lies in a free block of `p`. -/
structure Pool.Restored (p p' : Pool) (ptr : Pointer) : Prop where
  index : p'.arena.index = p.arena.index
  live : p'.arena.live = p.arena.live
  blocks : ∃ blocks lists, p.walk = .ok blocks ∧ p'.walk = .ok blocks ∧
    p.Consistent blocks lists ∧ p'.Consistent blocks lists ∧
    ∃ i ∈ blocks, i.pointer = ptr ∧ i.isFree = true ∧
      OnlyTouches p.buffer p'.buffer (Set.Ico (ptr.offset + 8) (ptr.offset + i.size))

/-! Cells and lists -/

section Lists

variable {lists : SizeClass → List Nat} {x : Cell}

theorem dropBlock_pushBlock (lists : SizeClass → List Nat) (x : Cell) :
    dropBlock (pushBlock lists x) x = lists := by
  simp [dropBlock, pushBlock]

theorem pushBlock_dropBlock (head : (lists (SizeClass.ofSize x.size)).head? = some x.header) :
    pushBlock (dropBlock lists x) x = lists := by
  obtain ⟨rest, split⟩ := List.head?_eq_some_iff.mp head
  simp only [pushBlock, dropBlock, Function.update_self, Function.update_idem]
  rw [split, List.erase_cons_head, ← split, Function.update_eq_self]

theorem allLinks_pushBlock (lists : SizeClass → List Nat) (x : Cell) :
    allLinks (pushBlock lists x) ⊆ allLinks lists ∪ Set.Ico (x.header + 8) (x.header + 16) := by
  rintro i ⟨c, h, mem, inside⟩
  by_cases same : c = SizeClass.ofSize x.size
  · subst same
    rw [pushBlock, Function.update_self] at mem
    rcases List.mem_cons.mp mem with rfl | old
    · exact .inr inside
    · exact .inl ⟨_, h, old, inside⟩
  · rw [pushBlock, Function.update_of_ne same] at mem
    exact .inl ⟨c, h, mem, inside⟩

end Lists

section Carved

variable {lists : SizeClass → List Nat} {pre post : List Cell} {x : Cell} {n : Nat}

theorem trimRest_cut (behind : ∀ z ∈ post.head?, z.status = .used) (cut : n + 24 ≤ x.size) :
    trimRest x n post = (x.tail n).turn .filed :: post := by
  rw [trimRest, if_pos cut, Cell.rest, joinNext_used behind]

theorem trimLists_cut (behind : ∀ z ∈ post.head?, z.status = .used) (cut : n + 24 ≤ x.size) :
    trimLists lists x n post = pushBlock lists (x.tail n) := by
  rw [trimLists, if_pos cut, Cell.rest, joinNext_used behind, dropFree_used behind]

theorem joinNext_carved (behind : ∀ z ∈ post.head?, z.status = .used) :
    joinNext (((x.kept n).turn .used).turn .loose) (trimRest x n post) = (x.turn .loose, post) := by
  by_cases cut : n + 24 ≤ x.size
  · rw [trimRest_cut behind cut, joinNext_filed rfl, Cell.kept, if_pos cut]
    have whole : n + (x.size - (n + 8)) + 8 = x.size := by omega
    simp [Cell.join, Cell.turn, Cell.front, Cell.tail, whole]
  · rw [trimRest, if_neg cut, Cell.kept, if_neg cut, joinNext_used behind]
    rfl

theorem dropFree_carved (behind : ∀ z ∈ post.head?, z.status = .used) :
    dropFree (trimLists lists x n post) (trimRest x n post).head? = lists := by
  by_cases cut : n + 24 ≤ x.size
  · rw [trimRest_cut behind cut, trimLists_cut behind cut, List.head?_cons, dropFree_filed rfl]
    exact dropBlock_pushBlock lists (x.tail n)
  · rw [trimRest, if_neg cut, trimLists, if_neg cut, dropFree_used behind]

theorem allLinks_trimLists (behind : ∀ z ∈ post.head?, z.status = .used) :
    allLinks (trimLists lists x n post) ⊆ allLinks lists ∪ Set.Ico (x.header + 4) (x.stop + 8) := by
  by_cases cut : n + 24 ≤ x.size
  · rw [trimLists_cut behind cut]
    refine (allLinks_pushBlock lists (x.tail n)).trans (Set.union_subset_union_right _ ?_)
    have stopx := x.stop_eq
    rw [Cell.tail_header]
    exact Set.Ico_subset_Ico (by omega) (by omega)
  · rw [trimLists, if_neg cut]
    exact Set.subset_union_left

variable (settled : Settled (pre ++ x :: post)) (filed : x.status = .filed)
include settled filed

theorem releasedBlock_carved :
    releasedBlock pre ((x.kept n).turn .used) (trimRest x n post) = x.turn .loose := by
  obtain ⟨left, behind⟩ := settled.neighbours (by simp [filed])
  rw [releasedBlock, joinPrev_used left, joinNext_carved behind]

theorem releasedCells_carved :
    releasedCells pre ((x.kept n).turn .used) (trimRest x n post) = pre ++ x :: post := by
  obtain ⟨left, behind⟩ := settled.neighbours (by simp [filed])
  rw [releasedCells, releasedBlock_carved settled filed, joinPrev_used left, joinNext_carved behind]
  exact congrArg (pre ++ · :: post) (Cell.turn_self filed)

theorem releasedLists_carved (head : (lists (SizeClass.ofSize x.size)).head? = some x.header) :
    releasedLists (trimLists (dropBlock lists x) x n post) pre ((x.kept n).turn .used)
      (trimRest x n post) = lists := by
  obtain ⟨left, behind⟩ := settled.neighbours (by simp [filed])
  rw [releasedLists, releasedBlock_carved settled filed, dropFree_used left, dropFree_carved behind]
  exact pushBlock_dropBlock head

theorem releaseArea_carved (stomp : Bool) :
    stompArea ((x.kept n).turn .used) stomp ∪
      releaseArea (trimLists (dropBlock lists x) x n post) pre ((x.kept n).turn .used)
        (trimRest x n post) ⊆ allLinks lists ∪ Set.Ico (x.header + 4) (x.stop + 8) := by
  have behind := (settled.neighbours (by simp [filed])).2
  have links : allLinks (trimLists (dropBlock lists x) x n post) ⊆
      allLinks lists ∪ Set.Ico (x.header + 4) (x.stop + 8) :=
    (allLinks_trimLists behind).trans (Set.union_subset_union_left _ (allLinks_dropBlock lists x))
  have shorter := x.kept_stop_le (n := n)
  have start := (x.kept n).stop_eq
  rw [Cell.kept_header] at start
  simp only [releaseArea, releasedBlock_carved settled filed, stompArea, Cell.turn_header,
    Cell.turn_stop, Cell.kept_header]
  rintro i (⟨-, low, high⟩ | (((link | own) | size) | next) | last)
  · exact .inr ⟨by omega, by omega⟩
  · exact links link
  · exact .inr ⟨own.1, by have := own.2; omega⟩
  · exact .inr ⟨size.1, by have := size.2; omega⟩
  · exact .inr ⟨by have := next.1; omega, by have := next.2; omega⟩
  · exact .inr ⟨by have := last.1; omega, by have := last.2; omega⟩

end Carved

namespace Arena

variable {a a' a₁ : Arena} {first stop n : Nat} {pre post : List Cell} {x : Cell}
  {lists : SizeClass → List Nat}

/-- The tags around a free block, and all links, are determined by the cells and the lists. -/
theorem Holds.bytes_unique (holds : a.Holds first stop (pre ++ x :: post) lists)
    (holds' : a'.Holds first stop (pre ++ x :: post) lists) (free : x.isFree = true) :
    ∀ i ∈ allLinks lists ∪ (Set.Ico (x.header + 4) (x.header + 8) ∪ Set.Ico x.stop (x.stop + 8)),
      a'.buffer.byteAt i = a.buffer.byteAt i := by
  obtain ⟨y, rest, follow, next, tagx, tagy, -⟩ := holds.seam
  obtain ⟨y', rest', follow', -, tagx', tagy', -⟩ := holds'.seam
  obtain ⟨rfl, rfl⟩ := List.cons.inj (follow.symm.trans follow')
  have known : x.freeHeader? = some x.header := if_pos free
  rw [known] at tagy tagy'
  rintro i (⟨c, link⟩ | own | behind)
  · exact (holds.links c).bytes_unique (holds'.links c) i link
  · exact tagx.sized.bytes_unique tagx'.sized i own
  · rw [← next] at behind
    exact tagy.bytes_unique tagy' i behind

theorem release_carved (stable : a.Stable first stop (pre ++ x :: post) lists)
    (filed : x.status = .filed) (head : (lists (SizeClass.ofSize x.size)).head? = some x.header)
    (stable₁ : a₁.Stable first stop (pre ++ (x.kept n).turn .used :: trimRest x n post)
      (trimLists (dropBlock lists x) x n post))
    (touched₁ : OnlyTouches a.buffer a₁.buffer (allLinks lists ∪ Set.Ico (x.header + 4) (x.stop + 8)))
    (stomp : Bool) :
    ∃ a', a₁.release x.header stomp = .ok a' ∧ a'.Stable first stop (pre ++ x :: post) lists ∧
      OnlyTouches a.buffer a'.buffer (Set.Ico (x.header + 16) x.stop) := by
  obtain ⟨a', run, after, touched, -⟩ := release_spec stable₁ rfl stomp
  rw [releasedCells_carved stable.settled filed, releasedLists_carved stable.settled filed head] at after
  rw [Cell.turn_header, Cell.kept_header] at run
  have stopx := x.stop_eq
  have least := (stable.holds.placed (x := x) (by simp)).2.2.2.1.minimum
  have listed : x.header ∈ lists (SizeClass.ofSize x.size) := List.mem_of_mem_head? head
  have both := (touched₁.trans touched).mono
    (Set.union_subset subset_rfl (releaseArea_carved stable.settled filed stomp))
  refine ⟨a', run, after, both.size, fun i out => ?_⟩
  by_cases hit : i ∈ allLinks lists ∪ Set.Ico (x.header + 4) (x.stop + 8)
  · -- what was written and is no payload is bookkeeping, which is as it was
    refine stable.holds.bytes_unique after.holds (Cell.isFree_of_filed filed) i ?_
    rcases hit with link | ⟨low, high⟩
    · exact .inl link
    · by_cases size : i < x.header + 8
      · exact .inr (.inl ⟨low, size⟩)
      · by_cases own : i < x.header + 16
        · exact .inl ⟨_, _, listed, Nat.not_lt.mp size, own⟩
        · exact .inr (.inr ⟨Nat.not_lt.mp fun inside => out ⟨Nat.not_lt.mp own, inside⟩, high⟩)
  · exact both.byte i hit

end Arena

namespace Pool

variable {p p' : Pool} {n payload : Nat} {pre post : List Cell} {x : Cell}
  {lists : SizeClass → List Nat} {o : Option Ownership}

theorem Carves.undone (sound : p.Sound n (pre ++ x :: post) lists) (bound : n + 2 < UInt64.size)
    (carves : p.Carves n pre x post lists payload o p') :
    ∃ p'', p'.free x.pointer = .ok (.ok true, p'') ∧ p''.layout = p.layout ∧
      p''.Sound (n + 1) (pre ++ x :: post) lists ∧
      OnlyTouches p.buffer p''.buffer (Set.Ico (x.header + 16) x.stop) := by
  have stable := carves.sound.stable
  rw [carves.layout] at stable
  obtain ⟨a, run, after, touched⟩ := Arena.release_carved sound.stable carves.filed carves.head stable
    carves.touched p'.stompFreed
  obtain ⟨t, counted, counts⟩ := (carves.sound.counts.perm carves.used).freed_spec bound
  have header : ((x.kept payload).turn .used).header = x.header := Cell.kept_header
  have answer := free_eq carves.sound carves.mem (header.symm ▸ run) counted
  rw [Cell.kept_pointer] at answer
  refine ⟨_, answer, carves.layout, ?_, touched⟩
  rw [← carves.layout] at after
  exact carves.sound.change after (touched.size.trans carves.touched.size.symm) counts
    (carves.sound.unregister_forest x.pointer)

theorem Sound.restored {m : Nat} (sound : p.Sound n (pre ++ x :: post) lists)
    (sound' : p'.Sound m (pre ++ x :: post) lists) (layout : p'.layout = p.layout)
    (free : x.isFree = true)
    (touched : OnlyTouches p.buffer p'.buffer (Set.Ico (x.header + 16) x.stop)) :
    p.Restored p' x.pointer := by
  have memx : x ∈ pre ++ x :: post := by simp
  have offset := Cell.pointer_offset (sound.holds.header_fits memx)
  have holds' := sound'.holds
  rw [layout] at holds'
  refine ⟨holds'.mirror.unique sound.holds.mirror, Std.ExtTreeSet.ext_mem fun h => ?_, _, lists,
    sound.walk, sound'.walk, sound.consistent, sound'.consistent, x.info, List.mem_map_of_mem memx, rfl,
    free, ?_⟩
  · rw [holds'.live h, sound.holds.live h]
  · rw [offset]
    exact touched

end Pool

namespace Session

variable {s s₁ : Session} {size : Nat} {ptr : Pointer} {o : Option Pool.Ownership}

/-- An allocation that is released at once leaves the pool as it was, but for the payload. -/
theorem allocation_undone (reach : s.Reachable) (asked : size ≠ 0)
    (run : s.step (.allocateFor size o) = .ok (.ok (.pointer ptr), s₁)) :
    ∃ s₂, s₁.step (.free ptr) = .ok (.ok (.released true), s₂) ∧ s₂.ledger = s.ledger ∧
      s.pool.Restored s₂.pool ptr := by
  obtain ⟨n, few, after⟩ := reach
  have limit : UInt64.size = 18446744073709551616 := rfl
  obtain ⟨cells, lists, sound⟩ := after.sound few
  obtain ⟨allocated, ledger⟩ := of_step_allocateFor asked run
  rcases sound.pool.allocateFor_carves (by omega) asked o with
    ⟨-, failed⟩ | ⟨pre, x, post, payload, p, rfl, -, -, carved, carves⟩
  · rw [failed] at allocated
    cases allocated
  · rw [carved] at allocated
    cases allocated
    obtain ⟨p, freed, layout, sound₂, touched⟩ := carves.undone sound.pool (by omega)
    have called : (Call.free x.pointer).run s₁.pool = .ok (.ok (.released true), p) := by
      rw [Call.run, Call.answer, freed]
      rfl
    have fresh := (sound.book.none_iff _).mpr carves.fresh
    refine ⟨_, step_eq called, ?_,
      sound.pool.restored sound₂ layout (Cell.isFree_of_filed carves.filed) touched⟩
    funext q
    rw [ledger]
    by_cases same : q = x.pointer
    · rw [same, fresh]
      simp [Ledger.after, Ledger.without, Call.returns]
    · simp [Ledger.after, Ledger.without, Ledger.grant, Call.returns, same]

theorem allocation_undone_sample : ∃ s s₁ s₂,
    Construction.whole.session? (.filled 256 0x44)
        [.allocate 64, .allocate 24, .free ⟨8⟩] = some s ∧
      s.step (.allocate 20) = .ok (.ok (.pointer ⟨8⟩), s₁) ∧
      s₁.step (.free ⟨8⟩) = .ok (.ok (.released true), s₂) ∧ s.pool.Restored s₂.pool ⟨8⟩ := by
  have made : ((Construction.whole.session? (.filled 256 0x44)
      [.allocate 64, .allocate 24, .free ⟨8⟩]).bind fun s =>
        (s.step (.allocate 20)).toOption.map fun taken => taken.1.toOption) =
      some (some (.pointer ⟨8⟩)) := by decide +kernel
  obtain ⟨s, session, taken⟩ := Option.bind_eq_some_iff.mp made
  obtain ⟨⟨result, s₁⟩, step, answer⟩ := Option.map_eq_some_iff.mp taken
  have step := Checked.of_toOption step
  have small : (Buffer.filled 256 0x44).size < 2 ^ 31 := by decide +kernel
  have proper : Construction.whole.Proper := trivial
  have reach : s.Reachable := reachable_of_session? small proper (by decide) session
  cases result with
  | error e => cases answer
  | ok found =>
    obtain rfl : found = .pointer ⟨8⟩ := Option.some.inj answer
    have taken : s.step (.allocateFor 20 none) = .ok (.ok (.pointer ⟨8⟩), s₁) := step
    obtain ⟨s₂, freed, -, restored⟩ := allocation_undone reach (by decide) taken
    exact ⟨s, s₁, s₂, session, step, freed, restored⟩

end Session

end Tlsf
