import Tlsf.Proofs.Accounting
import Tlsf.Proofs.Twins

/-!
When a search finds a block. From the class where it starts, a search misses no
list that is not empty, so it fails exactly when every free block is below the
floor of that class. The class may lie one row past the last one; then no block
can reach it, and the arithmetic of the floor still fits a word.
-/

namespace Tlsf

open Dimensions Buffer

namespace SizeClass

variable {size : Nat} {c : SizeClass}

theorem roundUp_row_le (bound : size < payloadLimit) (rounded : roundUp size = .ok c) :
    c.fl ≤ rowCount := by
  unfold roundUp at rounded
  split at rounded
  · cases rounded
    exact ofSize_row_le (Nat.lt_trans bound (by decide))
  · rename_i large
    obtain ⟨raised, sum, rest⟩ := Checked.of_bind rounded
    cases rest
    have unit := (log2_bounds (Nat.not_lt.mp large)).2.1
    have value := Checked.of_add sum
    rw [Nat.one_shiftLeft] at value
    refine ofSize_row_le ?_
    change raised - 1 < 4294967296
    simp only [slotBits, payloadLimit] at *
    omega

end SizeClass

/-- The block that a search for `payload` bytes takes reaches the floor of the class where the
search starts; where there is none, no free block does. -/
theorem Arena.Holds.candidate_spec {a : Arena} {first stop : Nat} {cells : List Cell}
    {lists : SizeClass → List Nat} (holds : a.Holds first stop cells lists) {payload : Nat}
    {c : SizeClass} (rounded : SizeClass.roundUp payload = .ok c) :
    (a.index.candidate payload = .ok none ∧ ∀ x ∈ cells, x.status = .filed → x.size < c.floor) ∨
      ∃ x ∈ cells, a.index.candidate payload = .ok (some x.header) ∧ x.status = .filed ∧
        c.floor ≤ x.size := by
  have slot := roundUp_slot_lt rounded
  simp only [FreeIndex.candidate, rounded, Checked.ok_bind]
  cases search : a.index.firstFrom? c with
  | none =>
    refine .inl ⟨rfl, fun x mem filed => Nat.lt_of_not_le fun reach => ?_⟩
    obtain ⟨pre, post, rfl⟩ := List.append_of_mem mem
    have above := (SizeClass.le_ofSize_iff slot x.size).mpr reach
    have listed : x.header ∈ lists (SizeClass.ofSize x.size) :=
      (holds.listed _ _).mpr ⟨x, mem, rfl, filed, rfl⟩
    rw [holds.mirror.firstFrom?_none search above (Arena.class_inside holds)] at listed
    cases listed
  | some d =>
    obtain ⟨above, inside, found⟩ := holds.mirror.firstFrom?_some search
    obtain ⟨h, head⟩ := Option.isSome_iff_exists.mp found
    obtain ⟨x, mem, rfl, filed, rfl⟩ := (holds.listed d h).mp (List.mem_of_head? head)
    refine .inr ⟨x, mem, ?_, filed, (SizeClass.le_ofSize_iff slot x.size).mp above⟩
    simp only [holds.mirror.head_eq inside, head]

end Tlsf
