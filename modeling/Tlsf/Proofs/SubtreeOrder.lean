import Tlsf.Proofs.Descendants

/-!
The order of a subtree. The traversal below a pointer ends, whatever forest a host
has made, and it has then listed what the recursion over children lists: every
descendant once and after its own descendants, and of two siblings the whole subtree
of the one with the lower offset first.
-/

namespace Tlsf

theorem Pointer.compare_eq_lt_iff {a b : Pointer} : compare a b = .lt ↔ a.offset < b.offset := by
  change compare a.word b.word = .lt ↔ a.word.toNat < b.word.toNat
  rw [Std.compare_eq_lt, UInt32.lt_iff_toNat_lt]

namespace Registry

variable {r : Registry} {p q c d x y : Pointer} {post : Pointer → List Pointer}

/-- What a traversal below `p` comes to, when it is `l` that has been listed at its end. That `x`
comes before `y` is said as `[x, y].Sublist l`. -/
structure Traverses (r : Registry) (p : Pointer) (l : List Pointer) : Prop where
  ends : ∀ visits, (r.traversal p visits).stack = [] ↔ 2 * l.length ≤ visits
  listed : ∀ visits, (r.traversal p visits).stack = [] → (r.traversal p visits).listed = l
  members : ∀ x, x ∈ l ↔ r.Descends p x
  once : l.Nodup
  childrenFirst : ∀ x ∈ l, ∀ y, r.Descends x y → [y, x].Sublist l
  siblings : ∀ q c d, r.InSubtree p q → c ∈ r.children q → d ∈ r.children q →
    c.offset < d.offset → ∀ x y, r.InSubtree c x → r.InSubtree d y → [x, y].Sublist l

/-! Children in order -/

theorem children_ascending (r : Registry) (p : Pointer) :
    (r.children p).Pairwise fun a b => a.offset < b.offset := by
  unfold children
  cases r.node? p with
  | none => exact .nil
  | some n => exact n.children.ordered_toList.imp Pointer.compare_eq_lt_iff.mp

theorem pair_sublist {l : List Pointer} (ascending : l.Pairwise fun a b => a.offset < b.offset)
    (memc : c ∈ l) (memd : d ∈ l) (lower : c.offset < d.offset) : [c, d].Sublist l := by
  induction l with
  | nil => cases memc
  | cons a l ih =>
    obtain ⟨least, ascending⟩ := List.pairwise_cons.mp ascending
    rcases List.mem_cons.mp memd with rfl | behind
    · rcases List.mem_cons.mp memc with rfl | other
      · exact absurd lower (Nat.lt_irrefl _)
      · exact absurd (least c other) (Nat.lt_asymm lower)
    · rcases List.mem_cons.mp memc with rfl | other
      · exact (List.singleton_sublist.mpr behind).cons_cons c
      · exact (ih ascending other behind).cons a

/-! The recursion -/

namespace PostOrder

theorem mem_subtree (order : r.PostOrder post) (f : r.Forest) (inside : r.InSubtree c x) :
    x ∈ post c ++ [c] := by
  rcases inside with rfl | below
  · exact List.mem_append_right _ (List.mem_singleton_self _)
  · exact List.mem_append_left _ ((order.mem_iff f).mpr below)

theorem children_first (order : r.PostOrder post) (f : r.Forest) (mem : x ∈ post p)
    (below : r.Descends x y) : [y, x].Sublist (post p) := by
  have first : [y].Sublist (post x) := List.singleton_sublist.mpr ((order.mem_iff f).mpr below)
  exact (first.append (.refl [x])).trans (order.sublist ((order.mem_iff f).mp mem))

theorem siblings_in_order (order : r.PostOrder post) (f : r.Forest) (inside : r.InSubtree p q)
    (memc : c ∈ r.children q) (memd : d ∈ r.children q) (lower : c.offset < d.offset)
    (belowc : r.InSubtree c x) (belowd : r.InSubtree d y) : [x, y].Sublist (post p) := by
  have both : [x, y].Sublist ([c, d].flatMap fun c => post c ++ [c]) := by
    rw [List.flatMap_cons, List.flatMap_singleton]
    exact (List.singleton_sublist.mpr (order.mem_subtree f belowc)).append
      (List.singleton_sublist.mpr (order.mem_subtree f belowd))
  have siblings := (pair_sublist (children_ascending r q) memc memd lower).flatMap
    fun c => post c ++ [c]
  rw [← order q] at siblings
  have whole : (post q).Sublist (post p) := by
    rcases inside with rfl | below
    · exact .refl _
    · exact (List.sublist_append_left _ _).trans (order.sublist below)
  exact (both.trans siblings).trans whole

theorem traverses (order : r.PostOrder post) (f : r.Forest) (p : Pointer) :
    r.Traverses p (post p) where
  ends := traversal_stack_iff order p
  listed visits done := traversal_listed order ((traversal_stack_iff order p visits).mp done)
  members _ := order.mem_iff f
  once := order.nodup f p
  childrenFirst _ mem _ := order.children_first f mem
  siblings _ _ _ inside memc memd lower _ _ := order.siblings_in_order f inside memc memd lower

end PostOrder

/-- Whatever registry a host makes, the traversal below any pointer ends and lists the descendants
of the pointer in post-order, as the only solution of the recursion over children does. -/
theorem descendants_traversed (edits : List Edit) :
    (∀ p, (empty.edited edits).Traverses p ((empty.edited edits).descendants p)) ∧
      ∀ post, (empty.edited edits).PostOrder post ↔ post = (empty.edited edits).descendants := by
  have f := forest_empty.edited edits
  have order := f.descendants_postOrder
  refine ⟨order.traverses f, fun post => ⟨fun other => ?_, fun same => same ▸ order⟩⟩
  exact funext fun p => other.unique f order p

example : (empty.edited [.register ⟨8⟩ ⟨7⟩ none, .register ⟨16⟩ ⟨7⟩ (some ⟨8⟩),
    .register ⟨24⟩ ⟨7⟩ (some ⟨16⟩), .register ⟨32⟩ ⟨7⟩ (some ⟨8⟩)]).descendants ⟨8⟩ =
      [⟨24⟩, ⟨16⟩, ⟨32⟩] := by decide +kernel

end Registry

end Tlsf
