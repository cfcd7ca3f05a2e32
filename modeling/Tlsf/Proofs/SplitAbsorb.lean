import Mathlib.Algebra.Group.Nat.Defs
import Tlsf.Proofs.BlockEdits

/-!
Splitting a free block and joining it again. Whatever bytes a header has, it is a cell with a tag,
so the statements about edits of cells apply to any buffer. A split gives two free blocks, one
behind the other. Joining them writes the size of the first and the back pointer behind the second
as they were; these words have one spelling, so that only the header in between stays.
-/

namespace Tlsf

open Dimensions Buffer

theorem SizeWord.ofParts_self (w : SizeWord) : ofParts w.size w.isFree w.isPrevFree = w := by
  have bound := w.raw.toNat_lt
  have low : w.isFree.toNat = w.raw.toNat % 2 := by
    rcases Nat.mod_two_eq_zero_or_one w.raw.toNat with even | odd
    · simp [isFree, even]
    · simp [isFree, odd]
  have high : w.isPrevFree.toNat = w.raw.toNat / 2 % 2 := by
    rcases Nat.mod_two_eq_zero_or_one (w.raw.toNat / 2) with even | odd
    · simp [isPrevFree, even]
    · simp [isPrevFree, odd]
  have parts := toNat_ofParts w.isFree w.isPrevFree w.size_lt w.size_mod_four
  rw [low, high, size] at parts
  have same : (ofParts w.size w.isFree w.isPrevFree).raw = w.raw := by
    apply UInt32.toNat_inj.mp
    rw [size]
    omega
  exact congrArg mk same

namespace Block

/-- A free block of `whole` bytes at `h`, whose successor's header at `next` lies in the buffer and
points back at it. -/
structure FreeBlock (b : Buffer) (h whole next : Nat) : Prop where
  free : isFree b h = .ok true
  size : Block.size b h = .ok whole
  behind : nextPhysical b h = .ok next
  inside : next + headerSize ≤ b.size
  tag : isPrevFree b next = .ok true
  back : prevPhysical b next = .ok h

section Headers

variable {b : Buffer} {h : Nat}

/-- The size word at a header, whatever its bytes are. -/
def wordAt (b : Buffer) (h : Nat) : SizeWord := ⟨b.wordAt (h + 4)⟩

def cellAt (b : Buffer) (h : Nat) : Cell :=
  ⟨h, (wordAt b h).size, if (wordAt b h).isFree then .loose else .used⟩

def backAt (b : Buffer) (h : Nat) : Option Nat :=
  if (wordAt b h).isPrevFree then some (b.wordAt h).toNat else none

theorem tagged_cellAt (inside : h + 8 ≤ b.size) : Tagged b (cellAt b h) (backAt b h) := by
  have free : (cellAt b h).isFree = (wordAt b h).isFree := by
    cases said : (wordAt b h).isFree <;> simp [cellAt, Cell.isFree, said]
  have prevFree : (backAt b h).isSome = (wordAt b h).isPrevFree := by
    cases said : (wordAt b h).isPrevFree <;> simp [backAt, said]
  refine ⟨⟨inside, SizeWord.size_lt _, SizeWord.size_mod_four _, ?_⟩, ?_⟩
  · rw [free, prevFree]
    exact congrArg SizeWord.raw (SizeWord.ofParts_self (wordAt b h)).symm
  · intro q mem
    obtain ⟨-, same⟩ := Option.ite_none_right_eq_some.mp (Option.mem_def.mp mem)
    rw [← Option.some.inj same]
    exact (UInt32.ofNat_toNat ..).symm

theorem backAt_lt {q : Nat} (known : backAt b h = some q) : q < UInt32.size := by
  obtain ⟨-, same⟩ := Option.ite_none_right_eq_some.mp known
  rw [← Option.some.inj same]
  exact (b.wordAt h).toNat_lt

end Headers

variable {b : Buffer} {h whole next size : Nat}

theorem of_nextPhysical (run : nextPhysical b h = .ok next) (sized : Block.size b h = .ok whole) :
    whole ≠ 0 ∧ next = h + 8 + whole := by
  simp only [nextPhysical, isLast, sized, Checked.ok_bind, Checked.pure_eq] at run
  obtain ⟨_, more, place⟩ := Checked.of_bind run
  refine ⟨?_, (Except.ok.inj place).symm⟩
  intro zero
  subst zero
  cases more

theorem of_canSplit (room : canSplit b h size = .ok true) (sized : Block.size b h = .ok whole) :
    size + 24 ≤ whole := by
  rw [canSplit, sized, Checked.ok_bind] at room
  obtain ⟨needed, sum, fits⟩ := Checked.of_bind room
  have enough := of_decide_eq_true (Except.ok.inj fits)
  unfold Checked.add at sum
  split at sum
  · cases sum
    exact enough
  · cases sum

theorem FreeBlock.tags (block : FreeBlock b h whole next) : ∃ x y p,
    x.header = h ∧ x.size = whole ∧ x.isFree = true ∧ whole ≠ 0 ∧ y.header = next ∧
      y.header = x.stop ∧ Tagged b x p ∧ Tagged b y (some h) := by
  obtain ⟨nonempty, place⟩ := of_nextPhysical block.behind block.size
  have inside : next + 8 ≤ b.size := block.inside
  have tx : Tagged b (cellAt b h) (backAt b h) := tagged_cellAt (by omega)
  have ty : Tagged b (cellAt b next) (backAt b next) := tagged_cellAt inside
  have sized : (cellAt b h).size = whole := Except.ok.inj (tx.sized.size_eq.symm.trans block.size)
  have free : (cellAt b h).isFree = true := Except.ok.inj (tx.sized.isFree_eq.symm.trans block.free)
  have known : backAt b next = some h := by
    have tag := Except.ok.inj (ty.sized.isPrevFree_eq.symm.trans block.tag)
    obtain ⟨q, known⟩ := Option.isSome_iff_exists.mp tag
    rw [known] at ty
    have back := ty.prevPhysical_eq (backAt_lt known)
    rw [known, Except.ok.inj (back.symm.trans block.back)]
  rw [known] at ty
  refine ⟨_, _, _, rfl, sized, free, nonempty, rfl, ?_, tx, ty⟩
  rw [Cell.stop_eq, sized]
  exact place

theorem FreeBlock.of_tags {x y : Cell} {p : Option Nat} (tx : Tagged b x p)
    (ty : Tagged b y (some x.header)) (next : y.header = x.stop) (free : x.isFree = true)
    (nonempty : x.size ≠ 0) (fits : x.header < UInt32.size) :
    FreeBlock b x.header x.size y.header where
  free := by rw [tx.sized.isFree_eq, free]
  size := tx.sized.size_eq
  behind := by rw [tx.sized.nextPhysical_eq nonempty, next]
  inside := ty.sized.inside
  tag := ty.sized.isPrevFree_eq
  back := ty.prevPhysical_eq fits

theorem front_join_tail {x : Cell} (cut : size + 8 ≤ x.size) : (x.front size).join (x.tail size) = x := by
  have sum : size + (x.size - (size + 8)) + 8 = x.size := by omega
  simp [Cell.join, Cell.front, sum]

/-- A free block that is cut in two and joined again is as it was, but for the header that stood in
between. -/
theorem absorb_split (small : b.size < 2 ^ 31) (block : FreeBlock b h whole next) (positive : 0 < size)
    (granular : size % 4 = 0) (room : canSplit b h size = .ok true) :
    ∃ b₁ b₂, split b h size = .ok (h + 8 + size, b₁) ∧ FreeBlock b₁ h size (h + 8 + size) ∧
      FreeBlock b₁ (h + 8 + size) (whole - size - 8) next ∧
      absorb b₁ h (h + 8 + size) = .ok b₂ ∧
      OnlyTouches b b₂ (Set.Ico (h + 8 + size) (h + 8 + size + 8)) := by
  obtain ⟨x, y, p, rfl, rfl, free, -, rfl, behind, tx, ty⟩ := block.tags
  have cut := of_canSplit room block.size
  have inside := ty.sized.inside
  have stop := x.stop_eq
  have limit : UInt32.size = 2 ^ 32 := rfl
  have tail : (x.tail size).header = x.header + 8 + size := rfl
  obtain ⟨b₁, run₁, front, rest, last, touched₁⟩ := split_spec tx ty behind cut granular
  have known : (x.front size).freeHeader? = some x.header := if_pos free
  have finish : y.header = (x.tail size).stop := by rw [behind, Cell.tail_stop (by omega)]
  have nonempty : (x.front size).size ≠ 0 := Nat.pos_iff_ne_zero.mp positive
  have fits : (x.front size).size + (x.tail size).size + 8 < UInt32.size := by
    rw [Cell.front_size, Cell.tail_size]
    omega
  obtain ⟨b₂, run₂, joined, last₂, touched₂⟩ := absorb_spec front rest last rfl finish nonempty fits
  rw [front_join_tail (by omega)] at joined
  rw [known] at rest
  refine ⟨b₁, b₂, run₁, FreeBlock.of_tags front rest rfl free nonempty (by rw [Cell.front_header]; omega),
    ?_, run₂, ?_⟩
  · have remainder := FreeBlock.of_tags rest last finish rfl (by rw [Cell.tail_size]; omega) (by omega)
    rwa [Cell.tail_size, Nat.sub_add_eq] at remainder
  · have touched := touched₁.trans touched₂
    refine ⟨touched.size, fun i out => ?_⟩
    -- the size word and the header behind were written, with what they said before
    by_cases own : i ∈ Set.Ico (x.header + 4) (x.header + 8)
    · exact tx.sized.bytes_unique joined.sized i own
    · by_cases far : i ∈ Set.Ico y.header (y.header + 8)
      · exact ty.bytes_unique last₂ i far
      · refine touched.byte i ?_
        simp only [Cell.front_header, tail, Set.mem_union, Set.mem_Ico] at *
        omega

/-- A header that is not aligned, with both flags set, and the least size that leaves exactly the
room of one more block. -/
theorem absorb_split_sample : ∃ b b₁ b₂ : Buffer,
    b = ((Buffer.filled 49 0xAB).setWord 9 31 |>.setWord 41 5 |>.setWord 45 2) ∧
      FreeBlock b 5 28 41 ∧ canSplit b 5 4 = .ok true ∧ split b 5 4 = .ok (17, b₁) ∧
      FreeBlock b₁ 5 4 17 ∧ FreeBlock b₁ 17 16 41 ∧ absorb b₁ 5 17 = .ok b₂ ∧
      OnlyTouches b b₂ (Set.Ico 17 25) := by
  have block : FreeBlock ((Buffer.filled 49 0xAB).setWord 9 31 |>.setWord 41 5 |>.setWord 45 2) 5 28 41 := by
    constructor <;> decide +kernel
  have room : canSplit ((Buffer.filled 49 0xAB).setWord 9 31 |>.setWord 41 5 |>.setWord 45 2) 5 4 =
      .ok true := by decide +kernel
  have small : ((Buffer.filled 49 0xAB).setWord 9 31 |>.setWord 41 5 |>.setWord 45 2).size < 2 ^ 31 := by
    decide +kernel
  obtain ⟨b₁, b₂, restored⟩ := absorb_split small block (by decide) (by decide) room
  exact ⟨_, b₁, b₂, rfl, block, room, restored⟩

end Block

end Tlsf
