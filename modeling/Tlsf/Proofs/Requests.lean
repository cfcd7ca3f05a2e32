import Mathlib.Order.Closure
import Mathlib.Order.WithBot
import Tlsf.Proofs.Rounding

/-!
What is reserved for a request: the least payload that holds it. Past the largest payload there is
none, and with that as the top of the sizes, reserving is a closure operator. Its closed sizes are
the payloads, and each of them has a list in the index.
-/

namespace Tlsf.Dimensions

variable {size payload : Nat}

structure Payload (size : Nat) : Prop where
  granular : 8 ∣ size
  minimum : 16 ≤ size
  bound : size < payloadLimit

theorem Payload.of_request (request : payloadFor? size = some payload) : Payload payload := by
  obtain ⟨-, minimum, granular, bound⟩ := payloadFor?_eq_some request
  exact ⟨Nat.dvd_of_mod_eq_zero granular, minimum, bound⟩

theorem Payload.holds (proper : Payload payload) (fits : size ≤ payload) :
    ∃ reserved, payloadFor? size = some reserved ∧ reserved ≤ payload := by
  obtain ⟨granular, minimum, bound⟩ := proper
  have least : (size + (alignment - 1)) / alignment * alignment ≤ payload := by
    simp only [alignment]
    omega
  exact ⟨_, if_pos (Nat.lt_of_le_of_lt least bound), Nat.max_le.mpr ⟨least, minimum⟩⟩

theorem Payload.last : Payload (2 ^ 31 - 8) := ⟨by decide, by decide, by decide⟩

theorem Payload.le_last (proper : Payload payload) : payload ≤ 2 ^ 31 - 8 := by
  obtain ⟨granular, -, bound⟩ := proper
  simp only [payloadLimit] at bound
  omega

/-! Reserving as a closure operator -/

/-- What is reserved for a request. The top stands for no payload. -/
def reserved : WithTop Nat → WithTop Nat
  | ⊤ => ⊤
  | .some size => payloadFor? size

def Reservable : WithTop Nat → Prop
  | ⊤ => True
  | .some size => Payload size

theorem le_reserved (request : WithTop Nat) : request ≤ reserved request := by
  cases request with
  | top => exact le_rfl
  | coe size =>
    change WithTop.some size ≤ payloadFor? size
    cases met : payloadFor? size with
    | none => exact le_top
    | some payload => exact WithTop.coe_le_coe.mpr (payloadFor?_eq_some met).1

theorem reservable_reserved (request : WithTop Nat) : Reservable (reserved request) := by
  cases request with
  | top => trivial
  | coe size =>
    change Reservable (payloadFor? size)
    cases met : payloadFor? size with
    | none => trivial
    | some payload => exact Payload.of_request met

theorem reserved_le {request bound : WithTop Nat} (le : request ≤ bound)
    (closed : Reservable bound) : reserved request ≤ bound := by
  cases bound with
  | top => exact le_top
  | coe payload =>
    cases request with
    | top => exact le
    | coe size =>
      obtain ⟨least, met, small⟩ := Payload.holds closed (WithTop.coe_le_coe.mp le)
      have value : reserved (.some size) = .some least := met
      rw [value]
      exact WithTop.coe_le_coe.mpr small

def reserve : ClosureOperator (WithTop Nat) :=
  .ofPred reserved Reservable le_reserved reservable_reserved fun _ _ => reserved_le

theorem reserve_some (size : Nat) : reserve (.some size) = payloadFor? size := rfl

/-! The limit -/

theorem payloadFor?_isLeast (met : payloadFor? size = some payload) :
    IsLeast {m | 8 ∣ m ∧ max size 16 ≤ m} payload := by
  have proper := Payload.of_request met
  refine ⟨⟨proper.granular, Nat.max_le.mpr ⟨(payloadFor?_eq_some met).1, proper.minimum⟩⟩,
    fun m ⟨granular, large⟩ => ?_⟩
  obtain ⟨fits, minimum⟩ := Nat.max_le.mp large
  rcases Nat.lt_or_ge m payloadLimit with small | past
  · obtain ⟨least, again, le⟩ := Payload.holds ⟨granular, minimum, small⟩ fits
    cases met.symm.trans again
    exact le
  · exact Nat.le_trans (Nat.le_of_lt proper.bound) past

theorem payloadFor?_eq_none : payloadFor? size = none ↔ 2 ^ 31 - 8 < size := by
  constructor
  · intro refused
    by_contra fits
    obtain ⟨least, met, -⟩ := Payload.last.holds (Nat.not_lt.mp fits)
    cases refused.symm.trans met
  · intro past
    cases met : payloadFor? size with
    | none => rfl
    | some payload =>
      have large := (payloadFor?_eq_some met).1
      have small := (Payload.of_request met).le_last
      omega

/-- The last request that is met gets the largest payload, and needs no rounding. -/
example : payloadFor? (2 ^ 31 - 8) = some (2 ^ 31 - 8) ∧ payloadFor? (2 ^ 31 - 7) = none := by decide

/-! Reserving in machine arithmetic -/

/-- The payload for a request with a check wherever 64-bit arithmetic needs one. A request so large
that raising it leaves the word is no fault: it has no payload. -/
def payloadForArmed? (size : Nat) : Checked (Option Nat) := do
  let below ← Checked.sub alignment 1
  match Checked.add size below with
  | .error _ => pure none
  | .ok raised =>
    let aligned ← alignDown raised alignment
    pure (if payloadLimit ≤ aligned then none else some (max aligned minPayload))

theorem payloadForArmed?_eq (size : Nat) : payloadForArmed? size = .ok (payloadFor? size) := by
  have below : Checked.sub alignment 1 = .ok 7 := rfl
  unfold payloadForArmed?
  rw [below, Checked.ok_bind]
  by_cases fits : size + 7 < UInt64.size
  · rw [Checked.add_eq_ok fits]
    simp only [alignDown_alignment fits, Checked.ok_bind, Checked.pure_eq, ← Nat.not_lt, ite_not]
    rfl
  · have refused : payloadFor? size = none := by
      simp only [UInt64.size] at fits
      exact payloadFor?_eq_none.mpr (by omega)
    rw [Checked.add, if_neg fits, refused]
    rfl

/-! Blocks for the payload -/

theorem Payload.searched (proper : Payload payload) : ∃ c,
    SizeClass.roundUp payload = .ok c ∧ SizeClass.roundUpArmed payload = .ok c := by
  have word : payload < UInt64.size := Nat.lt_trans proper.bound (by decide)
  obtain ⟨c, rounded, -, -⟩ :=
    SizeClass.roundUp_eq proper.bound (Nat.mod_eq_zero_of_dvd proper.granular)
  exact ⟨c, rounded, (SizeClass.roundUpArmed_eq word).trans rounded⟩

theorem Payload.filed (proper : Payload payload) :
    SizeClass.ofSizeArmed payload = .ok (SizeClass.ofSize payload) ∧
      (SizeClass.ofSize payload).Inside :=
  ⟨SizeClass.ofSizeArmed_eq (Nat.lt_trans proper.bound (by decide)),
    SizeClass.ofSize_inside proper.bound⟩

/-- How a request is met: within the limit with the least payload that holds it, past the limit not
at all, and always with a size for which there is a search and a list. -/
structure Met (size : Nat) : Prop where
  runs : payloadForArmed? size = .ok (payloadFor? size)
  least : size ≤ 2 ^ 31 - 8 → ∃ payload, payloadFor? size = some payload ∧
    IsLeast {m | 8 ∣ m ∧ max size 16 ≤ m} payload
  refused : payloadFor? size = none ↔ 2 ^ 31 - 8 < size
  closure : reserve (.some size) = payloadFor? size
  monotone : ∀ larger, size ≤ larger → reserve (.some size) ≤ reserve (.some larger)
  again : ∀ payload, payloadFor? size = some payload → payloadFor? payload = some payload
  searched : ∀ payload, payloadFor? size = some payload → ∃ c,
    SizeClass.roundUp payload = .ok c ∧ SizeClass.roundUpArmed payload = .ok c
  filed : ∀ payload, payloadFor? size = some payload →
    SizeClass.ofSizeArmed payload = .ok (SizeClass.ofSize payload) ∧
      (SizeClass.ofSize payload).Inside

/-- Reserving is a closure operator with an exact limit, and runs without a fault. -/
theorem reserving_closes (size : Nat) : Met size where
  runs := payloadForArmed?_eq size
  least fits := by
    obtain ⟨payload, met, -⟩ := Payload.last.holds fits
    exact ⟨payload, met, payloadFor?_isLeast met⟩
  refused := payloadFor?_eq_none
  closure := reserve_some size
  monotone _ le := reserve.monotone (WithTop.coe_le_coe.mpr le)
  again payload met := by
    have closed : reserve.IsClosed (.some payload) := Payload.of_request met
    exact closed.closure_eq
  searched _ met := (Payload.of_request met).searched
  filed _ met := (Payload.of_request met).filed

end Tlsf.Dimensions
