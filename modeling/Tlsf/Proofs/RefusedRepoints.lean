import Tlsf.Proofs.Survivors

/-!
A repoint that is refused. `repoint` answers whether the old pointer was tracked, but it
looks for it only after it has dropped the new one. So a refusal costs the new pointer
its registration: the others keep their owners and their ancestors, and nothing has
changed exactly if the new pointer was not tracked in the first place.
-/

namespace Tlsf.Registry

variable {r : Registry} {old new : Pointer}

/-- What is left when a repoint of `old` to `new` is refused. -/
structure RefusesRepoint (r : Registry) (old new : Pointer) : Prop where
  untracked : r.contains old = false
  drops : r.repoint old new = (false, r.unregister new)
  loses : r.Loses (r.repoint old new).2 new
  unchanged_iff : (r.repoint old new).2 = r ↔ r.contains new = false

theorem node?_eq_none_iff {p : Pointer} : r.node? p = none ↔ r.contains p = false := by
  rw [← Bool.not_eq_true, contains_iff, ← Option.isSome_iff_exists, Bool.not_eq_true,
    Option.isSome_eq_false_iff, Option.isNone_iff_eq_none]

theorem unregister_contains {x p : Pointer} (f : r.Forest) (other : x ≠ p) :
    (r.unregister p).contains x = r.contains x := by
  rw [Bool.eq_iff_iff, (unregister_loses f p).tracked x, and_iff_left other]

/-- The answer tells whether there was anything to move; dropping the new pointer does not
change that. -/
theorem repoint_fst (f : r.Forest) (old new : Pointer) : (r.repoint old new).1 = r.contains old := by
  by_cases same : old = new
  · rw [repoint, if_pos same]
  · rw [← unregister_contains f same]
    cases node : (r.unregister new).node? old with
    | none => rw [repoint_untracked same node, node?_eq_none_iff.mp node]
    | some n =>
      obtain ⟨s, run, -⟩ := repoint_eq f same node
      rw [run, contains_iff.mpr ⟨n, node⟩]

theorem unregister_eq_self_iff (f : r.Forest) (p : Pointer) : r.unregister p = r ↔ r.contains p = false := by
  constructor
  · intro same
    have gone := node?_eq_none_iff.mp (f.unregister_self p)
    rw [← gone, same]
  · intro untracked
    exact unregister_untracked (node?_eq_none_iff.mpr untracked)

theorem Forest.refusesRepoint (f : r.Forest) (untracked : r.contains old = false) :
    r.RefusesRepoint old new := by
  have drops : r.repoint old new = (false, r.unregister new) := by
    by_cases same : old = new
    · have nothing := unregister_untracked (node?_eq_none_iff.mpr untracked)
      rw [Registry.repoint, if_pos same, untracked, ← same, nothing]
    · have gone := (unregister_contains f same).trans untracked
      exact repoint_untracked same (node?_eq_none_iff.mpr gone)
  refine ⟨untracked, drops, ?_, ?_⟩
  · rw [drops]
    exact unregister_loses f new
  · rw [drops]
    exact unregister_eq_self_iff f new

/-- A refused repoint drops the new pointer, and has no effect exactly if that was not tracked. -/
theorem repoint_refused (edits : List Edit) {old new : Pointer}
    (refused : ((empty.edited edits).repoint old new).1 = false) :
    (empty.edited edits).RefusesRepoint old new := by
  have f := forest_empty.edited edits
  rw [repoint_fst f] at refused
  exact f.refusesRepoint refused

theorem repoint_refused_sample : ∃ r, r = empty.edited [.register ⟨8⟩ ⟨7⟩ none,
      .register ⟨40⟩ ⟨8⟩ (some ⟨8⟩), .register ⟨80⟩ ⟨9⟩ (some ⟨40⟩)] ∧
    r.repoint ⟨200⟩ ⟨40⟩ = (false, r.unregister ⟨40⟩) ∧ r.repoint ⟨200⟩ ⟨300⟩ = (false, r) := by
  let edits : List Edit := [.register ⟨8⟩ ⟨7⟩ none, .register ⟨40⟩ ⟨8⟩ (some ⟨8⟩),
    .register ⟨80⟩ ⟨9⟩ (some ⟨40⟩)]
  have onto : ((empty.edited edits).repoint ⟨200⟩ ⟨40⟩).1 = false := by decide +kernel
  have aside : ((empty.edited edits).repoint ⟨200⟩ ⟨300⟩).1 = false := by decide +kernel
  have untracked : (empty.edited edits).contains ⟨300⟩ = false := by decide +kernel
  have kept := repoint_refused edits aside
  exact ⟨_, rfl, (repoint_refused edits onto).drops,
    Prod.ext aside (kept.unchanged_iff.mpr untracked)⟩

theorem repoint_refused_drops : ∃ r, r = empty.edited [.register ⟨8⟩ ⟨7⟩ none,
      .register ⟨40⟩ ⟨8⟩ (some ⟨8⟩), .register ⟨80⟩ ⟨9⟩ (some ⟨40⟩)] ∧
    (r.repoint ⟨200⟩ ⟨40⟩).1 = false ∧ (r.repoint ⟨200⟩ ⟨40⟩).2 ≠ r ∧
    r.allocations = [(⟨8⟩, ⟨7⟩), (⟨40⟩, ⟨8⟩), (⟨80⟩, ⟨9⟩)] ∧ r.children ⟨8⟩ = [⟨40⟩] ∧
    (r.repoint ⟨200⟩ ⟨40⟩).2.allocations = [(⟨8⟩, ⟨7⟩), (⟨80⟩, ⟨9⟩)] ∧
    (r.repoint ⟨200⟩ ⟨40⟩).2.children ⟨8⟩ = [⟨80⟩] := by
  refine ⟨_, rfl, by decide +kernel, fun same => ?_, by decide +kernel, by decide +kernel,
    by decide +kernel, by decide +kernel⟩
  have sizes := congrArg Registry.size same
  revert sizes
  decide +kernel

end Tlsf.Registry
