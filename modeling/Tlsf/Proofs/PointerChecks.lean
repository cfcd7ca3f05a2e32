import Tlsf.Proofs.DamagedPools
import Tlsf.Proofs.FrameLaw

/-!
Pointer checks of a damaged pool. The header that a pointer leads to may say anything.
Each check is made before the read that depends on it: the pointer lies in the pool, so its
header can be read; the size that it tells stays before the sentinel, so the next header can
be read, and there is one as the size is not zero. `Certifies` collects what the checks ask
for, and they pass exactly then: with a payload inside the pool, whoever wrote its size.
-/

namespace Tlsf

open Dimensions Buffer

namespace Pool

structure Refuses (p : Pool) (ptr : Pointer) (v : Violation) : Prop where
  allocationSize : p.allocationSize ptr = .ok (.error (.safety v))
  payload : p.payload ptr = .ok (.error (.safety v))
  rewritePayload : ∀ contents, p.rewritePayload ptr contents = .ok (.error (.safety v), p)
  isValidRange : ∀ length, p.isValidRange ptr length = .ok false

structure Admits (p : Pool) (ptr : Pointer) (size : Nat) : Prop where
  allocationSize : p.allocationSize ptr = .ok (.ok size)
  payload : p.Reads ptr size p.buffer.byteAt
  rewritePayload : ∀ contents, p.rewritePayload ptr contents = .ok (.ok size, { p with
    arena := { p.arena with buffer := Buffer.update contents ptr.offset size p.buffer } })
  isValidRange : ∀ length, p.isValidRange ptr length = .ok (decide (length ≤ size))

/-- A payload of `size` bytes at `ptr`, told by the layout, the blocks that are handed out, the header
before the payload and the one behind it. -/
structure Certifies (p : Pool) (ptr : Pointer) (size : Nat) : Prop where
  low : p.layout.firstBlock + 8 ≤ ptr.offset
  high : ptr.offset + size ≤ p.layout.sentinel
  aligned : ptr.offset % 8 = 0
  least : 16 ≤ size
  granular : size % 8 = 0
  live : ptr.offset - 8 ∈ p.arena.live
  sized : Block.size p.buffer (ptr.offset - 8) = .ok size
  used : Block.isFree p.buffer (ptr.offset - 8) = .ok false
  tag : Block.isPrevFree p.buffer (ptr.offset + size) = .ok false

variable {p : Pool} {ptr : Pointer} {v : Violation} {size : Nat}

theorem Certifies.passes (c : p.Certifies ptr size) : p.violation? ptr = .ok none := by
  have low := c.low
  have high := c.high
  have least := c.least
  have outside : ¬ (ptr.offset < p.layout.firstBlock + headerSize ∨ p.layout.sentinel ≤ ptr.offset) := by
    simp only [headerSize]
    omega
  have even : ¬ ptr.offset % alignment ≠ 0 := not_not.mpr c.aligned
  have here : Block.headerOf ptr.offset = .ok (ptr.offset - 8) := Checked.sub_eq_ok (by omega)
  obtain ⟨w, read, sized⟩ := Checked.of_bind c.sized
  obtain rfl : w.size = size := Except.ok.inj sized
  have used : w.isFree = false := by
    have free := c.used
    rw [Block.isFree, read] at free
    exact Except.ok.inj free
  have regular : ¬ (w.size < minPayload ∨ w.size % alignment ≠ 0 ∨
      p.layout.sentinel < ptr.offset + w.size) := by
    have granular := c.granular
    simp only [minPayload, alignment]
    omega
  have next : Block.nextPhysical p.buffer (ptr.offset - 8) = .ok (ptr.offset + w.size) := by
    rw [nextPhysical_of_word read (by omega), headerSize, Nat.sub_add_cancel (by omega)]
  simp only [violation?, if_neg outside, if_neg even, here, c.live, not_true_eq_false, read,
    if_neg regular, used, next, c.tag, Bool.false_eq_true, if_false, Checked.ok_bind, Checked.pure_eq]

/-- The checks come to an end on any bytes, and what passes is certified. -/
theorem violation?_answers (bounded : p.Bounded) (ptr : Pointer) :
    (∃ v, p.violation? ptr = .ok (some v)) ∨ ∃ size, p.Certifies ptr size := by
  have last := bounded.inside
  have region := bounded.region
  unfold violation?
  by_cases outside : ptr.offset < p.layout.firstBlock + headerSize ∨ p.layout.sentinel ≤ ptr.offset
  · exact .inl ⟨.outside ptr, if_pos outside⟩
  by_cases odd : ptr.offset % alignment ≠ 0
  · exact .inl ⟨.misaligned ptr, by simp only [if_neg outside, if_pos odd, Checked.pure_eq]⟩
  simp only [headerSize, alignment] at outside odd
  have above : 8 ≤ ptr.offset := by omega
  have here : Block.headerOf ptr.offset = .ok (ptr.offset - 8) := Checked.sub_eq_ok above
  by_cases live : ptr.offset - 8 ∈ p.arena.live
  swap
  · exact .inl ⟨.notLive ptr, by simp only [headerSize, alignment, if_neg outside, if_neg odd, here,
      live, not_false_eq_true, if_true, Checked.ok_bind, Checked.pure_eq]⟩
  obtain ⟨w, read⟩ := word_inside (p := p) (h := ptr.offset - 8) (by simp only [headerSize]; omega)
  simp only [headerSize, minPayload, alignment, if_neg outside, if_neg odd, here, live,
    not_true_eq_false, if_false, read, Checked.ok_bind]
  by_cases irregular : w.size < 16 ∨ w.size % 8 ≠ 0 ∨ p.layout.sentinel < ptr.offset + w.size
  · exact .inl ⟨.badHeader ptr w.size, if_pos irregular⟩
  by_cases free : w.isFree = true
  · exact .inl ⟨.notAllocated ptr, by simp only [if_neg irregular, if_pos free, Checked.pure_eq]⟩
  -- the size is not zero and ends before the sentinel, so there is a next header inside the region
  have next : Block.nextPhysical p.buffer (ptr.offset - 8) = .ok (ptr.offset + w.size) := by
    rw [nextPhysical_of_word read (by omega), headerSize, Nat.sub_add_cancel above]
  obtain ⟨y, behind⟩ := word_inside (p := p) (h := ptr.offset + w.size)
    (by simp only [headerSize]; omega)
  have tag : Block.isPrevFree p.buffer (ptr.offset + w.size) = .ok y.isPrevFree := by
    rw [Block.isPrevFree, behind, Checked.ok_bind, Checked.pure_eq]
  simp only [if_neg irregular, if_neg free, next, tag, Checked.ok_bind]
  cases told : y.isPrevFree with
  | true => exact .inl ⟨.boundaryTag ptr, rfl⟩
  | false =>
    refine .inr ⟨w.size, by omega, by omega, by omega, by omega, by omega, live, ?_, ?_, ?_⟩
    · rw [Block.size, read, Checked.ok_bind, Checked.pure_eq]
    · rw [Block.isFree, read, Checked.ok_bind, Checked.pure_eq, Bool.eq_false_iff.mpr free]
    · rw [tag, told]

theorem refuses (nonnull : ptr.isNull = false) (refused : p.violation? ptr = .ok (some v)) :
    p.Refuses ptr v := by
  have size : p.allocationSize ptr = .ok (.error (.safety v)) := by
    simp only [allocationSize, nonnull, header, refused, Checked.ok_bind, Checked.pure_eq,
      Bool.false_eq_true, if_false]
  refine ⟨size, ?_, fun contents => ?_, fun length => ?_⟩
  · simp only [payload, size, Checked.ok_bind, Checked.pure_eq]
  · simp only [rewritePayload, editPayload, size, Checked.ok_bind, Checked.pure_eq]
  · simp only [isValidRange, nonnull, refused, Checked.ok_bind, Checked.pure_eq,
      Bool.false_eq_true, if_false]

theorem admits (bounded : p.Bounded) (nonnull : ptr.isNull = false) (c : p.Certifies ptr size) :
    p.Admits ptr size := by
  have inside : ptr.offset + size ≤ p.buffer.size := by
    have high := c.high
    have last := bounded.inside
    have region := bounded.region
    omega
  have above : headerSize ≤ ptr.offset := Nat.le_trans (Nat.le_add_left ..) c.low
  have here : Block.headerOf ptr.offset = .ok (ptr.offset - 8) := Checked.sub_eq_ok above
  have answer : p.allocationSize ptr = .ok (.ok size) := by
    simp only [allocationSize, nonnull, header, c.passes, here, c.sized, Checked.ok_bind,
      Checked.pure_eq, Bool.false_eq_true, if_false]
  have slice : p.buffer.slice ptr.offset size =
      .ok (p.buffer.bytes.extract ptr.offset (ptr.offset + size)) := if_pos inside
  have data : p.payload ptr =
      .ok (.ok (p.buffer.bytes.extract ptr.offset (ptr.offset + size))) := by
    simp only [payload, answer, slice, Checked.ok_bind, Checked.pure_eq]
  refine ⟨answer, ⟨_, data, size_extract_eq inside, fun i h => getElem_extract_eq inside h⟩,
    fun contents => ?_, fun length => ?_⟩
  · simp only [rewritePayload, editPayload, answer, Checked.ok_bind]
    rfl
  · simp only [isValidRange, nonnull, c.passes, here, c.sized, Checked.ok_bind, Checked.pure_eq,
      Bool.false_eq_true, if_false]

theorem admits_null (null : ptr.isNull = true) : p.Admits ptr 0 := by
  have size : (p.buffer.bytes.extract 0 0).size = 0 := by simp
  refine ⟨allocationSize_null null, ⟨_, payload_null null, size, fun i h => ?_⟩,
    fun contents => ?_, fun length => ?_⟩
  · rw [size] at h
    exact absurd h (Nat.not_lt_zero i)
  · have idle : p.rewritePayload ptr contents = .ok (.ok 0, p) := editPayload_null null rfl
    exact idle
  · simp only [isValidRange, null, if_true, Checked.pure_eq, Nat.le_zero]
    rfl

end Pool

namespace Session

variable {s : Session} {p : Pool}

/-- Whatever the bytes of a pool have become, its checks answer for every pointer: null has the empty
payload, and any other is admitted with the size that is certified for it, or refused if none is. No
sum of a pointer and a size reaches the word size. -/
theorem pointer_checks_total (reach : s.Reachable) (bytes : s.pool.Scribbled p) (ptr : Pointer) :
    (ptr.isNull = true → p.Admits ptr 0) ∧
      (ptr.isNull = false →
        ((∃ v, p.Refuses ptr v) ∧ ∀ size, ¬ p.Certifies ptr size) ∨
          ∃ size, p.Admits ptr size ∧ p.Certifies ptr size) ∧
      p.layout.firstBlock + headerSize < UInt64.size ∧
      ∀ w : SizeWord, ptr.offset + w.size + headerSize < UInt64.size := by
  obtain ⟨n, cells, lists, -, sound⟩ := reach.sound
  have bounded := bytes.bounded sound.pool.bounded
  have usable : p.layout.firstBlock + headerSize ≤ p.layout.sentinel := by
    obtain ⟨b, -, rfl⟩ := bytes
    exact reach.usable
  have last := bounded.inside
  have region := bounded.region
  have low := bounded.low
  have words : UInt32.size + UInt32.size + headerSize < UInt64.size := by decide
  refine ⟨Pool.admits_null, fun nonnull => ?_, by omega, fun w => ?_⟩
  · rcases Pool.violation?_answers bounded ptr with ⟨v, refused⟩ | ⟨size, certified⟩
    · refine .inl ⟨⟨v, Pool.refuses nonnull refused⟩, fun size certified => ?_⟩
      cases refused.symm.trans certified.passes
    · exact .inr ⟨size, Pool.admits bounded nonnull certified, certified⟩
  · have offset : ptr.offset < UInt32.size := ptr.word.toNat_lt
    have size := w.size_lt
    omega

/-- A size that swallows the next block, and one that leads out of the buffer. -/
theorem pointer_checks_total_sample : ∃ s p,
    Construction.whole.session? (.filled 256 0) [.allocate 48, .allocate 24] = some s ∧
      s.pool.overwriteAll [(4, ⟨#[0x50, 0, 0, 0]⟩), (60, ⟨#[0xF8, 0xFF, 0xFF, 0xFF]⟩)] = .ok p ∧
      p.Admits ⟨8⟩ 80 ∧ p.Refuses ⟨64⟩ (.badHeader ⟨64⟩ 4294967288) ∧ p.Admits .null 0 := by
  have made : ((Construction.whole.session? (.filled 256 0) [.allocate 48, .allocate 24]).bind fun s =>
      (s.pool.overwriteAll [(4, ⟨#[0x50, 0, 0, 0]⟩), (60, ⟨#[0xF8, 0xFF, 0xFF, 0xFF]⟩)]).toOption.map
        fun p => (p.allocationSize ⟨8⟩, p.allocationSize ⟨64⟩)) =
      some (.ok (.ok 80), .ok (.error (.safety (.badHeader ⟨64⟩ 4294967288)))) := by decide +kernel
  obtain ⟨s, session, rest⟩ := Option.bind_eq_some_iff.mp made
  obtain ⟨p, written, found⟩ := Option.map_eq_some_iff.mp rest
  obtain ⟨first, second⟩ := Prod.mk.inj found
  have written := Checked.of_toOption written
  have small : (Buffer.filled 256 0).size < 2 ^ 31 := by decide +kernel
  have proper : Construction.whole.Proper := trivial
  have reach : s.Reachable := reachable_of_session? small proper (by decide) session
  have checks := pointer_checks_total reach (Pool.overwriteAll_scribbled written)
  refine ⟨s, p, session, written, ?_, ?_, (checks .null).1 rfl⟩
  · rcases (checks ⟨8⟩).2.1 rfl with ⟨⟨v, refused⟩, -⟩ | ⟨size, admitted, -⟩
    · cases first.symm.trans refused.allocationSize
    · cases first.symm.trans admitted.allocationSize
      exact admitted
  · rcases (checks ⟨64⟩).2.1 rfl with ⟨⟨v, refused⟩, -⟩ | ⟨size, admitted, -⟩
    · cases second.symm.trans refused.allocationSize
      exact refused
    · cases second.symm.trans admitted.allocationSize

end Session

end Tlsf
