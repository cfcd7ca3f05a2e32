import Tlsf.Proofs.Descendants

/-!
Parents, children and roots agree. `Forest` tells all links from the parent
links; here the two ends of each link are told by the nodes that record them,
as a host reads them, and the chain of parents of every tracked pointer ends in
a root. A host can make no registry for which this fails, whichever pointers it
names in its changes and in whatever order.
-/

namespace Tlsf.Registry

variable {r : Registry} {p q c : Pointer} {n : Registration}

/-- `q` is a parent, or a parent of a parent and so on, of `p`. -/
def Below (r : Registry) (p q : Pointer) : Prop :=
  Relation.TransGen (fun x q => r.parent? x = some q) p q

structure WellLinked (r : Registry) : Prop where
  parents : ∀ p n q, r.node? p = some n → n.parent = some q →
    ∃ m, r.node? q = some m ∧ p ∈ m.children
  children : ∀ p n c, r.node? p = some n → c ∈ n.children →
    ∃ m, r.node? c = some m ∧ m.parent = some p
  roots : ∀ p, p ∈ r.roots ↔ ∃ n, r.node? p = some n ∧ n.parent = none
  acyclic : ∀ p, ¬ r.Below p p
  rooted : ∀ p n, r.node? p = some n → ∃ root ∈ r.roots, r.AtOrBelow p root

namespace Forest

theorem parent_links (f : r.Forest) (node : r.node? p = some n) (up : n.parent = some q) :
    ∃ m, r.node? q = some m ∧ p ∈ m.children := by
  have link : r.parent? p = some q := (parent?_eq node).trans up
  obtain ⟨m, above⟩ := f.closed p q link
  exact ⟨m, above, (f.children q m above p).mpr link⟩

theorem child_links (f : r.Forest) (node : r.node? p = some n) (child : c ∈ n.children) :
    ∃ m, r.node? c = some m ∧ m.parent = some p := by
  have link := (f.children p n node c).mp child
  obtain ⟨m, below⟩ := tracked_of_parent? link
  exact ⟨m, below, (parent?_eq below).symm.trans link⟩

theorem root_iff (f : r.Forest) (p : Pointer) :
    p ∈ r.roots ↔ ∃ n, r.node? p = some n ∧ n.parent = none := by
  rw [f.roots p]
  constructor
  · rintro ⟨⟨n, node⟩, top⟩
    exact ⟨n, node, (parent?_eq node).symm.trans top⟩
  · rintro ⟨n, node, top⟩
    exact ⟨⟨n, node⟩, (parent?_eq node).trans top⟩

theorem not_below_self (f : r.Forest) (p : Pointer) : ¬ r.Below p p := by
  intro cycle
  obtain ⟨rank, falls⟩ := f.acyclic
  obtain ⟨q, link, chain⟩ := Relation.TransGen.head'_iff.mp cycle
  have up := falls p q link
  have back := rank_le falls chain
  omega

theorem exists_root (f : r.Forest) (node : r.node? p = some n) :
    ∃ root ∈ r.roots, r.AtOrBelow p root := by
  obtain ⟨rank, falls⟩ := f.acyclic
  -- the rank falls along the chain of parents
  induction h : rank p using Nat.strongRecOn generalizing p n with
  | ind k ih =>
    cases link : r.parent? p with
    | none => exact ⟨p, (f.roots p).mpr ⟨⟨n, node⟩, link⟩, .refl⟩
    | some q =>
      obtain ⟨m, above⟩ := f.closed p q link
      obtain ⟨root, top, chain⟩ := ih (rank q) (h ▸ falls p q link) above rfl
      exact ⟨root, top, chain.head link⟩

theorem wellLinked (f : r.Forest) : r.WellLinked where
  parents _ _ _ := f.parent_links
  children _ _ _ := f.child_links
  roots := f.root_iff
  acyclic := f.not_below_self
  rooted _ _ := f.exists_root

end Forest

theorem edited_wellLinked (edits : List Edit) : (empty.edited edits).WellLinked :=
  (forest_empty.edited edits).wellLinked

end Tlsf.Registry
