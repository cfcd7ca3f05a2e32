import Mathlib.Order.Bounds.Basic
import Tlsf.Proofs.Consistency

/-!
Which regions a pool can be made over. Below 2 GiB a construction never runs into the limits
of 32-bit offsets: what remains is whether the region lies in the buffer, and whether it has
room for the padding, two headers and the smallest payload. Everything that is left over is
payload, rounded down once.
-/

namespace Tlsf

open Dimensions Buffer

section Layout

variable {b : Buffer} {start length : Nat}

theorem alignUp_padding (small : b.size < 2 ^ 31) (within : ¬ OutOfBounds b start length) :
    alignUp start alignment = .ok (start + padding start) := by
  have limit : UInt64.size = 18446744073709551616 := rfl
  unfold OutOfBounds at within
  rw [start_add_padding]
  exact alignUp_alignment (by omega)

theorem Layout.usable_isGreatest (room : padding start + 32 ≤ length) :
    IsGreatest {n | 8 ∣ n ∧ n ≤ length - padding start - 16}
      ((Layout.ofRegion start length).sentinel - ((Layout.ofRegion start length).firstBlock + 8)) := by
  have first := start_add_padding start
  simp only [Layout.ofRegion, alignment, poolOverhead] at first ⊢
  refine ⟨⟨by omega, by omega⟩, fun n fits => ?_⟩
  obtain ⟨granular, low⟩ := fits
  omega

end Layout

namespace Pool

/-- A new pool over `length` bytes from `start` on: one free block, as large as the region allows. -/
structure Covers (p : Pool) (start length : Nat) : Prop where
  region : p.layout.regionStart = start ∧ p.layout.regionEnd = start + length
  firstBlock : p.layout.firstBlock = start + padding start
  largest : IsGreatest {n | 8 ∣ n ∧ n ≤ length - padding start - 16} p.usableSize
  walk : p.walk = .ok [⟨pointerOf p.layout.firstBlock, p.usableSize, true⟩]
  consistent : ∃ lists, p.Consistent [⟨pointerOf p.layout.firstBlock, p.usableSize, true⟩] lists
  within : p.layout.sentinel + 8 ≤ p.layout.regionEnd
  close : p.layout.regionEnd ≤ p.layout.sentinel + 8 + 7

/-- What a construction over `length` bytes from `start` on answers: the first error that applies,
and otherwise a pool. -/
structure Opens (b : Buffer) (start length : Nat) (found : Except Error Pool) : Prop where
  aligned : ¬ OutOfBounds b start length → alignUp start alignment = .ok (start + padding start)
  outOfBounds : found =
      .error (.regionOutOfBounds start (min (start + length) (UInt64.size - 1)) b.size) ↔
    OutOfBounds b start length
  tooSmall : found = .error (.regionTooSmall length (padding start + 32)) ↔
    ¬ OutOfBounds b start length ∧ length < padding start + 32
  made : (∃ p, found = .ok p) ↔ ¬ OutOfBounds b start length ∧ padding start + 32 ≤ length
  covers : ∀ p, found = .ok p → p.Covers start length

variable {b : Buffer} {start length : Nat} {a : Arena} {registry : Option Registry}
  {lists : SizeClass → List Nat}

theorem covers_of_stable (room : padding start + 32 ≤ length)
    (stable : a.Stable (Layout.ofRegion start length).firstBlock (Layout.ofRegion start length).sentinel
      [(Layout.ofRegion start length).block] lists)
    (inside : start + length ≤ a.buffer.size) (low : start + length < UInt32.size) :
    Covers ⟨a, .ofRegion start length, registry, true, {}⟩ start length := by
  have first := start_add_padding start
  -- nothing below depends on the registry, which need not be a forest here
  have sound : Pool.Sound ⟨a, .ofRegion start length, none, true, {}⟩ 0
      [(Layout.ofRegion start length).block] lists := by
    refine ⟨stable, ?_, ?_, inside, low, .initial, by simp⟩
    all_goals
      simp only [Layout.ofRegion, alignment, poolOverhead] at first ⊢
      omega
  refine ⟨⟨rfl, rfl⟩, first.symm, Layout.usable_isGreatest room, sound.walk,
    ⟨lists, { sound.consistent with }⟩, sound.inside, ?_⟩
  simp only [Layout.ofRegion, alignment, poolOverhead] at first ⊢
  omega

theorem create_opens (b : Buffer) (small : b.size < 2 ^ 31) (start : Nat) (size : Option Nat)
    (registry : Option Registry) :
    ∃ found, create b start size registry = .ok found ∧
      Opens b start (size.getD (b.size - start)) found := by
  have limit : UInt32.size = 4294967296 := rfl
  have ends := create_ends b start size registry
  generalize size.getD (b.size - start) = length at ends ⊢
  rcases ends with ⟨e, run, refused⟩ | ⟨big, -⟩ |
    ⟨a, l, lists, run, rfl, stable, -, last, inside, low, touched⟩
  · cases refused with
    | outside out =>
      exact ⟨_, run, fun within => absurd out within, by simp [out], by simp [out], by simp [out],
        fun p made => nomatch made⟩
    | narrow within tight =>
      have few : ¬ padding start + 32 ≤ length := Nat.not_le.mpr tight
      exact ⟨_, run, alignUp_padding small, by simp [within], by simp [within, tight], by simp [few],
        fun p made => nomatch made⟩
    | far within excess =>
      unfold OutOfBounds at within
      omega
    | large within excess =>
      unfold OutOfBounds at within
      simp only [payloadLimit] at excess
      omega
  · omega
  · have size := touched.size
    have first := start_add_padding start
    have least := (stable.holds.placed (List.mem_singleton_self _)).2.2.2.1.minimum
    have within : ¬ OutOfBounds b start length := by
      have words : UInt64.size = 18446744073709551616 := rfl
      unfold OutOfBounds
      simp only [Layout.ofRegion] at inside low
      omega
    have room : padding start + 32 ≤ length := by
      simp only [Layout.ofRegion, Layout.block, alignment, poolOverhead] at first last least
      omega
    have enough : ¬ length < padding start + 32 := Nat.not_lt.mpr room
    refine ⟨_, run, alignUp_padding small, by simp [within], by simp [enough], by simp [within, room],
      fun p made => ?_⟩
    cases made
    exact covers_of_stable room stable inside low

/-- A region with padding at both ends, one a byte too small for it, and one behind the buffer. -/
theorem create_opens_sample : ∃ p,
    create (.filled 256 0) 5 (some 250) none = .ok (.ok p) ∧ p.Covers 5 250 ∧ p.usableSize = 224 ∧
      create (.filled 256 0) 5 (some 34) none = .ok (.error (.regionTooSmall 34 35)) ∧
      create (.filled 256 0) 300 none none = .ok (.error (.regionOutOfBounds 300 300 256)) := by
  have size : (Buffer.filled 256 0).size = 256 := by decide +kernel
  have small : (Buffer.filled 256 0).size < 2 ^ 31 := by omega
  obtain ⟨found, run, opens⟩ := create_opens (.filled 256 0) small 5 (some 250) none
  obtain ⟨narrow, refused, tight⟩ := create_opens (.filled 256 0) small 5 (some 34) none
  obtain ⟨beyond, missed, outside⟩ := create_opens (.filled 256 0) small 300 none none
  obtain ⟨p, rfl⟩ := opens.made.mpr ⟨by decide +kernel, by decide⟩
  obtain rfl := tight.tooSmall.mpr ⟨by decide +kernel, by decide⟩
  obtain rfl := outside.outOfBounds.mpr (by decide +kernel)
  rw [size] at missed
  have covers := opens.covers p rfl
  have greatest : IsGreatest {n | 8 ∣ n ∧ n ≤ 250 - padding 5 - 16} 224 := by
    refine ⟨by decide, fun n fits => ?_⟩
    obtain ⟨granular, low⟩ := fits
    have pad : padding 5 = 3 := rfl
    omega
  exact ⟨p, run, covers, covers.largest.unique greatest, refused, missed⟩

end Pool

end Tlsf
