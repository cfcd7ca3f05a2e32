import Tlsf.Proofs.Ancestry
import Tlsf.Proofs.ReleaseOrder

/-!
What a registry keeps when a pointer is dropped. Its children go to its parent, so a
chain of parents that led through the pointer leaves it out and leads on; between the
pointers that stay, who is above whom is as before. Two pointers can be dropped in
either order.
-/

namespace Tlsf.Registry

variable {r : Registry} {p x a b : Pointer}

/-- The registry `s` is `r` without `p`, as far as tracking, owners and ancestry go. -/
structure Loses (r s : Registry) (p : Pointer) : Prop where
  tracked : ∀ x, s.contains x = true ↔ r.contains x = true ∧ x ≠ p
  owners : ∀ x, x ≠ p → s.owner? x = r.owner? x
  ancestry : ∀ a b, a ≠ p → b ≠ p → (s.Below b a ↔ r.Below b a)

theorem below_of_link (f : r.Forest) (link : (r.unregister p).parent? x = some a) : r.Below x a := by
  rw [unregister_parent? f] at link
  by_cases same : x = p
  · rw [if_pos same] at link
    cases link
  · rw [if_neg same] at link
    by_cases child : r.parent? x = some p
    · rw [if_pos child] at link
      exact .head child (.single link)
    · rw [if_neg child] at link
      exact .single link

theorem below_of_unregister (f : r.Forest) (below : (r.unregister p).Below b a) : r.Below b a := by
  induction below with
  | single link => exact below_of_link f link
  | tail _ link ih => exact ih.trans (below_of_link f link)

theorem unregister_below (f : r.Forest) (stays : a ≠ p) (below : r.Below x a) :
    (x ≠ p → (r.unregister p).Below x a) ∧
      (x = p → ∀ c, r.parent? c = some p → (r.unregister p).Below c a) := by
  have kept : ∀ {x q}, x ≠ p → q ≠ p → r.parent? x = some q → (r.unregister p).parent? x = some q := by
    intro x q stays above link
    rw [unregister_parent? f, if_neg stays, link, if_neg fun same => above (Option.some.inj same)]
  have inherited : ∀ {c q}, r.parent? c = some p → r.parent? p = some q →
      (r.unregister p).parent? c = some q := by
    intro c q child link
    have other : c ≠ p := fun same => f.parent?_ne p (same ▸ child)
    rw [unregister_parent? f, if_neg other, if_pos child, link]
  -- from the lower end: a chain that starts at `p` itself is one that its children have afterwards
  induction below using Relation.TransGen.head_induction_on with
  | single link =>
    refine ⟨fun other => .single (kept other stays link), ?_⟩
    rintro rfl c child
    exact .single (inherited child link)
  | @head x y link _ ih =>
    refine ⟨fun other => ?_, ?_⟩
    · by_cases through : y = p
      · exact ih.2 through x (through ▸ link)
      · exact .head (kept other through link) (ih.1 through)
    · rintro rfl c child
      have other : y ≠ x := fun same => f.parent?_ne x (same ▸ link)
      exact .head (inherited child link) (ih.1 other)

theorem unregister_loses (f : r.Forest) (p : Pointer) : r.Loses (r.unregister p) p where
  tracked x := by
    rw [contains_iff_owner?, contains_iff_owner?, unregister_owner? f]
    by_cases same : x = p <;> simp [same]
  owners x other := by rw [unregister_owner? f, if_neg other]
  ancestry _ _ staysa staysb :=
    ⟨below_of_unregister f, fun below => (unregister_below f staysa below).1 staysb⟩

/-- Whichever pointer is dropped from the registry of a host, the others keep their owners and
their ancestors, and two pointers are dropped in either order. -/
theorem drops_keep_ancestry (edits : List Edit) :
    (∀ p, (empty.edited edits).Loses ((empty.edited edits).unregister p) p) ∧
      ∀ p q, ((empty.edited edits).unregister p).unregister q =
        ((empty.edited edits).unregister q).unregister p := by
  have f := forest_empty.edited edits
  exact ⟨unregister_loses f, unregister_comm f⟩

end Tlsf.Registry
