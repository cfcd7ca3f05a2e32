/-!
Faults and 64-bit arithmetic. Sizes, offsets and counters are natural numbers;
every place where the pool could leave the range of a 64-bit word, reach past
the end of its buffer or break the precondition of one of its own operations
is an explicit `Fault`. A fault is not an error of the caller: no answer and
no later state is meaningful after it.
-/

namespace Tlsf

inductive Fault where
  /-- A read or write past the end of the buffer or of the free index. -/
  | outOfBounds
  /-- A result below zero or at least `2 ^ 64`. -/
  | overflow
  /-- A block operation applied where its precondition does not hold. -/
  | contract
deriving DecidableEq, Repr

/-- A computation that either yields a value or faults. -/
abbrev Checked (α : Type) : Type := Except Fault α

namespace Checked

def add (a b : Nat) : Checked Nat :=
  if a + b < UInt64.size then .ok (a + b) else .error .overflow

def sub (a b : Nat) : Checked Nat :=
  if b ≤ a then .ok (a - b) else .error .overflow

def mul (a b : Nat) : Checked Nat :=
  if a * b < UInt64.size then .ok (a * b) else .error .overflow

def require (p : Prop) [Decidable p] : Checked Unit :=
  if p then .ok () else .error .contract

def ofOption {α : Type} : Option α → Checked α
  | some a => .ok a
  | none => .error .outOfBounds

@[simp] theorem ok_bind {α β : Type} (a : α) (f : α → Checked β) : (Except.ok a >>= f) = f a := rfl

@[simp] theorem error_bind {α β : Type} (e : Fault) (f : α → Checked β) :
    ((Except.error e : Checked α) >>= f) = .error e := rfl

@[simp] theorem pure_eq {α : Type} (a : α) : (pure a : Checked α) = .ok a := rfl

theorem of_bind {α β : Type} {x : Checked α} {f : α → Checked β} {r : β} (run : x >>= f = .ok r) :
    ∃ a, x = .ok a ∧ f a = .ok r := by
  cases x with
  | error e => cases run
  | ok a => exact ⟨a, rfl, run⟩

theorem of_guarded {α β δ : Type} {x : Checked (Except δ α)}
    {f : Except δ α → Checked (Except δ β)} {r : β} (run : x >>= f = .ok (.ok r))
    (answers : ∀ d, f (.error d) = .ok (.error d)) : ∃ a, x = .ok (.ok a) ∧ f (.ok a) = .ok (.ok r) := by
  obtain ⟨found, ran, rest⟩ := of_bind run
  cases found with
  | error d =>
    rw [answers d] at rest
    cases rest
  | ok a => exact ⟨a, ran, rest⟩

theorem of_ofOption {α : Type} {x : Option α} {a : α} (run : ofOption x = .ok a) : x = some a := by
  cases x with
  | none => cases run
  | some b => exact congrArg some (Except.ok.inj run)

theorem of_toOption {α : Type} {x : Checked α} {a : α} (run : x.toOption = some a) : x = .ok a := by
  cases x with
  | error e => cases run
  | ok b => exact congrArg Except.ok (Option.some.inj run)

theorem add_eq_ok {a b : Nat} (h : a + b < UInt64.size) : add a b = .ok (a + b) := if_pos h

theorem sub_eq_ok {a b : Nat} (h : b ≤ a) : sub a b = .ok (a - b) := if_pos h

theorem mul_eq_ok {a b : Nat} (h : a * b < UInt64.size) : mul a b = .ok (a * b) := if_pos h

theorem require_eq_ok {p : Prop} [Decidable p] (h : p) : require p = .ok () := if_pos h

end Checked

end Tlsf
