import Tlsf.Pool.Operations
import Tlsf.Proofs.Descendants
import Tlsf.Proofs.Effects
import Tlsf.Proofs.Tallies

/-!
A pool and what it stands for: a stable arena between its first block and its
sentinel, inside its region, with a tally that counts the used blocks and a
registry that is a forest. `n` bounds the number of calls so far.

The pointer checks of a sound pool accept exactly the payload offsets of used
blocks, and none of them faults.
-/

namespace Tlsf

open Dimensions Buffer

section Arena

variable {a : Arena} {first stop : Nat} {cells : List Cell} {lists : SizeClass → List Nat} {x : Cell}

theorem Arena.Holds.header_fits (holds : a.Holds first stop cells lists) (mem : x ∈ cells) :
    x.header + 8 < UInt32.size := by
  have place := holds.placed mem
  have low := holds.low
  omega

theorem Tiles.payloadSum_le {lo hi : Nat} (tiles : Tiles lo cells hi) :
    lo + payloadSum (usedCells cells) ≤ hi := by
  induction cells generalizing lo with
  | nil => exact Nat.le_of_eq tiles
  | cons x rest ih =>
    have header := tiles.1
    have later := ih tiles.2.2
    rw [x.stop_eq] at later
    by_cases used : x.status = .used
    · rw [usedCells_used used, payloadSum_cons]
      omega
    · rw [usedCells_free used]
      omega

theorem Arena.Holds.payloadSum_lt (holds : a.Holds first stop cells lists) :
    payloadSum (usedCells cells) < UInt64.size := by
  have inside := holds.tiles.payloadSum_le
  have low := holds.low
  have limit : UInt32.size < UInt64.size := by decide
  omega

end Arena

structure Pool.Sound (p : Pool) (n : Nat) (cells : List Cell) (lists : SizeClass → List Nat) :
    Prop where
  stable : p.arena.Stable p.layout.firstBlock p.layout.sentinel cells lists
  start : p.layout.regionStart ≤ p.layout.firstBlock
  inside : p.layout.sentinel + 8 ≤ p.layout.regionEnd
  region : p.layout.regionEnd ≤ p.buffer.size
  low : p.layout.regionEnd < UInt32.size
  counts : p.tally.Counts n (usedCells cells)
  forest : ∀ r ∈ p.registry, r.Forest

def Cell.pointer (x : Cell) : Pointer := Pool.pointerOf x.header

theorem Cell.pointer_offset {x : Cell} (fits : x.header + 8 < UInt32.size) :
    x.pointer.offset = x.header + 8 := by
  simp only [Cell.pointer, Pool.pointerOf, Pointer.ofOffset, Pointer.offset, headerSize,
    UInt32.toNat_ofNat', Nat.mod_eq_of_lt fits]

namespace Pool

variable {p : Pool} {n : Nat} {cells : List Cell} {lists : SizeClass → List Nat} {x : Cell}
  {ptr : Pointer}

theorem Sound.holds (sound : p.Sound n cells lists) :
    p.arena.Holds p.layout.firstBlock p.layout.sentinel cells lists := sound.stable.holds

theorem Sound.mono {m : Nat} (sound : p.Sound n cells lists) (le : n ≤ m) : p.Sound m cells lists :=
  { sound with counts := sound.counts.mono le }

theorem Sound.pointer_offset (sound : p.Sound n cells lists) (mem : x ∈ usedCells cells) :
    x.pointer.offset = x.header + 8 :=
  Cell.pointer_offset (sound.holds.header_fits (mem_usedCells.mp mem).1)

theorem Sound.pointer_ne_null (sound : p.Sound n cells lists) (mem : x ∈ usedCells cells) :
    x.pointer.isNull = false := by
  have offset := sound.pointer_offset mem
  unfold Pointer.isNull
  refine beq_eq_false_iff_ne.mpr fun zero => ?_
  rw [Pointer.offset, zero] at offset
  simp at offset

theorem Sound.pointer_injective (sound : p.Sound n cells lists) {y : Cell} (memx : x ∈ usedCells cells)
    (memy : y ∈ usedCells cells) (same : x.pointer = y.pointer) : x = y := by
  have offsets := congrArg Pointer.offset same
  rw [sound.pointer_offset memx, sound.pointer_offset memy] at offsets
  exact sound.holds.tiles.eq_of_header_eq (mem_usedCells.mp memx).1 (mem_usedCells.mp memy).1
    (Nat.add_right_cancel offsets)

theorem eq_pointer_of_offset {h : Nat} (offset : ptr.offset = h + 8) : ptr = pointerOf h := by
  obtain ⟨word⟩ := ptr
  have value : word.toNat = h + 8 := offset
  simp only [pointerOf, Pointer.ofOffset, headerSize, ← value, UInt32.ofNat_toNat]

section Live

variable (sound : p.Sound n cells lists) (mem : x ∈ usedCells cells)
include sound mem

theorem violation?_live : p.violation? x.pointer = .ok none := by
  have holds := sound.holds
  obtain ⟨memx, used⟩ := mem_usedCells.mp mem
  obtain ⟨low, high, aligned, regular, stopx⟩ := holds.placed memx
  have least := regular.minimum
  have granular := regular.granular
  have live : x.header ∈ p.arena.live := (holds.live _).mpr ⟨x, memx, rfl, used⟩
  obtain ⟨pre, post, rfl⟩ := List.append_of_mem memx
  obtain ⟨y, rest, -, next, tagx, tagy, -⟩ := holds.seam
  have behind : x.freeHeader? = none := by simp [Cell.freeHeader?, Cell.isFree_of_used used]
  rw [behind] at tagy
  have here : Block.headerOf (x.header + 8) = .ok x.header :=
    Checked.sub_eq_ok (Nat.le_add_left ..)
  have inside : ¬ (x.header + 8 < p.layout.firstBlock + headerSize ∨
      p.layout.sentinel ≤ x.header + 8) := by
    simp only [headerSize]
    omega
  have even : ¬ (x.header + 8) % alignment ≠ 0 := by
    simp only [alignment]
    omega
  have regularHeader : ¬ (x.size < minPayload ∨ x.size % alignment ≠ 0 ∨
      p.layout.sentinel < x.header + 8 + x.size) := by
    simp only [minPayload, alignment]
    omega
  -- the header behind is read as well: its tag has to say that the payload is in use
  have after : Block.nextPhysical p.buffer x.header = .ok y.header := by
    rw [next]
    exact tagx.sized.nextPhysical_eq (by omega)
  have words := SizeWord.size_ofParts x.isFree (lastFree? none pre).isSome tagx.sized.fits
    tagx.sized.granular
  have frees := SizeWord.isFree_ofParts x.isFree (lastFree? none pre).isSome tagx.sized.fits
    tagx.sized.granular
  simp only [violation?, sound.pointer_offset mem, if_neg inside, if_neg even, here, live,
    not_true_eq_false, if_false, Checked.ok_bind]
  change (Block.word p.arena.buffer x.header >>= _) = _
  rw [tagx.sized.word_eq, Checked.ok_bind, words, frees, if_neg regularHeader,
    Cell.isFree_of_used used, if_neg Bool.false_ne_true, after, Checked.ok_bind]
  change (Block.isPrevFree p.arena.buffer y.header >>= _) = _
  rw [tagy.sized.isPrevFree_eq]
  rfl

theorem header_live : p.header x.pointer = .ok (.ok x.header) := by
  have here : Block.headerOf (x.header + 8) = .ok x.header :=
    Checked.sub_eq_ok (Nat.le_add_left ..)
  simp only [header, violation?_live sound mem, sound.pointer_offset mem, here, Checked.ok_bind,
    Checked.pure_eq]

theorem size_live : Block.size p.buffer x.header = .ok x.size := sound.holds.size_used mem

theorem allocationSize_live : p.allocationSize x.pointer = .ok (.ok x.size) := by
  simp only [allocationSize, sound.pointer_ne_null mem, header_live sound mem, size_live sound mem,
    Checked.ok_bind, Checked.pure_eq, Bool.false_eq_true, if_false]

theorem isValidRange_live (length : Nat) :
    p.isValidRange x.pointer length = .ok (decide (length ≤ x.size)) := by
  have here : Block.headerOf (x.header + 8) = .ok x.header :=
    Checked.sub_eq_ok (Nat.le_add_left ..)
  simp only [isValidRange, sound.pointer_ne_null mem, violation?_live sound mem,
    sound.pointer_offset mem, here, size_live sound mem, Checked.ok_bind, Checked.pure_eq,
    Bool.false_eq_true, if_false]

theorem payload_inside : x.header + 8 + x.size + 8 ≤ p.buffer.size := by
  have place := sound.holds.placed (mem_usedCells.mp mem).1
  have room := sound.holds.room
  unfold buffer
  omega

theorem payload_live : p.payload x.pointer =
    .ok (.ok (p.buffer.bytes.extract (x.header + 8) (x.header + 8 + x.size))) := by
  have inside := payload_inside sound mem
  have slice : p.buffer.slice (x.header + 8) x.size =
      .ok (p.buffer.bytes.extract (x.header + 8) (x.header + 8 + x.size)) := if_pos (by omega)
  simp only [payload, allocationSize_live sound mem, sound.pointer_offset mem, slice,
    Checked.ok_bind, Checked.pure_eq]

end Live

theorem allocationSize_null (null : ptr.isNull = true) : p.allocationSize ptr = .ok (.ok 0) := by
  simp only [allocationSize, null, if_true, Checked.pure_eq]

theorem payload_null (null : ptr.isNull = true) :
    p.payload ptr = .ok (.ok (p.buffer.bytes.extract 0 0)) := by
  have zero : ptr.word = 0 := eq_of_beq null
  have slice : p.buffer.slice ptr.offset 0 = .ok (p.buffer.bytes.extract 0 0) := by
    rw [Pointer.offset, zero]
    exact if_pos (Nat.zero_le _)
  simp only [payload, allocationSize_null null, slice, Checked.ok_bind, Checked.pure_eq]

section Dead

/-- What is held against a pointer to no used block: it lies where no payload can start, or
where none does. -/
def refusal (p : Pool) (ptr : Pointer) : Violation :=
  if ptr.offset < p.layout.firstBlock + headerSize ∨ p.layout.sentinel ≤ ptr.offset then .outside ptr
  else if ptr.offset % alignment ≠ 0 then .misaligned ptr
  else .notLive ptr

variable (sound : p.Sound n cells lists) (dead : ∀ x ∈ usedCells cells, x.pointer ≠ ptr)
include sound dead

theorem violation?_refused : p.violation? ptr = .ok (some (p.refusal ptr)) := by
  by_cases outside : ptr.offset < p.layout.firstBlock + headerSize ∨ p.layout.sentinel ≤ ptr.offset
  · simp only [violation?, refusal, if_pos outside, Checked.pure_eq]
  · by_cases odd : ptr.offset % alignment ≠ 0
    · simp only [violation?, refusal, if_neg outside, if_pos odd, Checked.pure_eq]
    · have above : headerSize ≤ ptr.offset := by omega
      have here : Block.headerOf ptr.offset = .ok (ptr.offset - headerSize) := Checked.sub_eq_ok above
      have unused : ptr.offset - headerSize ∉ p.arena.live := by
        intro live
        obtain ⟨x, memx, header, used⟩ := (sound.holds.live _).mp live
        refine dead x (mem_usedCells.mpr ⟨memx, used⟩) ?_
        refine (eq_pointer_of_offset ?_).symm
        simp only [headerSize] at header above
        omega
      simp only [violation?, refusal, if_neg outside, if_neg odd, here, unused, not_false_eq_true,
        if_true, Checked.ok_bind, Checked.pure_eq]

theorem violation?_dead : ∃ v, p.violation? ptr = .ok (some v) :=
  ⟨_, violation?_refused sound dead⟩

theorem header_refused : p.header ptr = .ok (.error (.safety (p.refusal ptr))) := by
  simp only [header, violation?_refused sound dead, Checked.ok_bind, Checked.pure_eq]

theorem header_dead : ∃ v, p.header ptr = .ok (.error (.safety v)) :=
  ⟨_, header_refused sound dead⟩

theorem isValidRange_dead (nonnull : ptr.isNull = false) (length : Nat) :
    p.isValidRange ptr length = .ok false := by
  obtain ⟨v, refused⟩ := violation?_dead sound dead
  simp only [isValidRange, nonnull, refused, Checked.ok_bind, Checked.pure_eq, Bool.false_eq_true,
    if_false]

theorem allocationSize_dead (nonnull : ptr.isNull = false) :
    ∃ v, p.allocationSize ptr = .ok (.error (.safety v)) := by
  obtain ⟨v, refused⟩ := header_dead sound dead
  refine ⟨v, ?_⟩
  simp only [allocationSize, nonnull, refused, Checked.ok_bind, Checked.pure_eq, Bool.false_eq_true,
    if_false]

theorem payload_dead (nonnull : ptr.isNull = false) :
    ∃ v, p.payload ptr = .ok (.error (.safety v)) := by
  obtain ⟨v, refused⟩ := allocationSize_dead sound dead nonnull
  exact ⟨v, by simp only [payload, refused, Checked.ok_bind, Checked.pure_eq]⟩

end Dead

theorem live_or_dead (cells : List Cell) (ptr : Pointer) :
    (∃ x ∈ usedCells cells, x.pointer = ptr) ∨ ∀ x ∈ usedCells cells, x.pointer ≠ ptr := by
  by_cases live : ∃ x ∈ usedCells cells, x.pointer = ptr
  · exact .inl live
  · push Not at live
    exact .inr live

theorem pointer_cases (cells : List Cell) (ptr : Pointer) :
    ptr.isNull = true ∨ ptr.isNull = false ∧
      ((∃ x ∈ usedCells cells, x.pointer = ptr) ∨ ∀ x ∈ usedCells cells, x.pointer ≠ ptr) := by
  cases null : ptr.isNull with
  | true => exact .inl rfl
  | false => exact .inr ⟨rfl, live_or_dead cells ptr⟩

end Pool

end Tlsf
