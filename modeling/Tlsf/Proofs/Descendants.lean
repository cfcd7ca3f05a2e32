import Mathlib.Data.FinEnum
import Mathlib.Data.Fintype.Card
import Mathlib.Data.List.Basic
import Mathlib.Data.List.Nodup
import Tlsf.Proofs.RegistryForest

/-!
Subtrees of a forest. `PostOrder` is the recursion that lists what lies below a
pointer, child by child. In a forest it comes to an end and names every descendant
once, since a pointer has one parent and so two children of a pointer share no
descendant. The traversal with a stack visits as the recursion does: what it has
listed and what its stack leads to are together always the same list.
-/

namespace Tlsf.Registry

variable {r : Registry} {p q c d x : Pointer} {post : Pointer → List Pointer}

def AtOrBelow (r : Registry) (x c : Pointer) : Prop :=
  Relation.ReflTransGen (fun x q => r.parent? x = some q) x c

/-- `x` is a child of `p`, or a child of a child and so on. -/
def Descends (r : Registry) (p x : Pointer) : Prop :=
  Relation.TransGen (fun q c => c ∈ r.children q) p x

def InSubtree (r : Registry) (p x : Pointer) : Prop := x = p ∨ r.Descends p x

/-- `post` lists what lies below a pointer by recursion: for each child in ascending order what
lies below the child, and then the child. -/
def PostOrder (r : Registry) (post : Pointer → List Pointer) : Prop :=
  ∀ p, post p = (r.children p).flatMap fun c => post c ++ [c]

theorem mem_children_iff (f : r.Forest) : c ∈ r.children p ↔ r.parent? c = some p := by
  unfold children
  cases node : r.node? p with
  | none =>
    refine iff_of_false (by simp) fun link => ?_
    obtain ⟨n, node'⟩ := f.closed c p link
    exact absurd node (by simp [node'])
  | some n =>
    rw [Std.ExtTreeSet.mem_toList]
    exact f.children p n node c

theorem children_nodup (r : Registry) (p : Pointer) : (r.children p).Nodup := by
  unfold children
  cases r.node? p with
  | none => exact List.nodup_nil
  | some n =>
    refine n.children.distinct_toList.imp fun different same => ?_
    exact different (Std.compare_eq_iff_eq.mpr same)

namespace Forest

theorem rank_le {rank : Pointer → Nat} (falls : ∀ p q, r.parent? p = some q → rank q < rank p)
    (below : r.AtOrBelow x c) : rank c ≤ rank x := by
  induction below with
  | refl => exact Nat.le_refl _
  | tail _ link ih => exact Nat.le_trans (Nat.le_of_lt (falls _ _ link)) ih

theorem atOrBelow_of_descends (f : r.Forest) (below : r.Descends p x) : r.AtOrBelow x p := by
  induction below with
  | single child => exact .single ((mem_children_iff f).mp child)
  | tail _ child ih => exact .head ((mem_children_iff f).mp child) ih

theorem descends_of_parent? (f : r.Forest) (up : r.parent? x = some q)
    (within : r.InSubtree p q) : r.Descends p x := by
  have child := (mem_children_iff f).mpr up
  rcases within with rfl | below
  · exact .single child
  · exact .tail below child

theorem parent?_of_descends (f : r.Forest) (below : r.Descends p x) :
    ∃ q, r.parent? x = some q ∧ r.InSubtree p q := by
  cases below with
  | single child => exact ⟨p, (mem_children_iff f).mp child, .inl rfl⟩
  | tail above child => exact ⟨_, (mem_children_iff f).mp child, .inr above⟩

theorem not_descends_self (f : r.Forest) (p : Pointer) : ¬ r.Descends p p := by
  intro cycle
  obtain ⟨rank, falls⟩ := f.acyclic
  obtain ⟨c, child, back⟩ := Relation.TransGen.head'_iff.mp cycle
  have up := falls c p ((mem_children_iff f).mp child)
  rcases Relation.reflTransGen_iff_eq_or_transGen.mp back with same | below
  · rw [same] at up
    exact Nat.lt_irrefl _ up
  · have down := rank_le falls (f.atOrBelow_of_descends below)
    omega

theorem children_wf (f : r.Forest) : WellFounded fun c p => c ∈ r.children p := by
  have : IsTrans Pointer fun x p => r.Descends p x := ⟨fun _ _ _ low high => high.trans low⟩
  have : Std.Irrefl fun x p => r.Descends p x := ⟨f.not_descends_self⟩
  have : Finite Pointer := .of_injective Pointer.word fun a b same => by
    cases a
    cases b
    exact congrArg Pointer.mk same
  have below := Finite.wellFounded_of_trans_of_irrefl fun x p => r.Descends p x
  exact Subrelation.wf (fun child => .single child) below

theorem children_apart (f : r.Forest) (linkc : r.parent? c = some p) (linkd : r.parent? d = some p)
    (belowc : r.AtOrBelow x c) (belowd : r.AtOrBelow x d) : c = d := by
  obtain ⟨rank, falls⟩ := f.acyclic
  -- neither of two siblings is below the other
  have siblings : ∀ {c d}, r.parent? c = some p → r.parent? d = some p → r.AtOrBelow c d → c = d := by
    intro c d linkc linkd below
    rcases Relation.ReflTransGen.cases_head below with same | ⟨q, up, chain⟩
    · exact same
    · obtain rfl := Option.some.inj (linkc.symm.trans up)
      have low := rank_le falls chain
      have high := falls d p linkd
      omega
  have unique : Relator.RightUnique fun x q => r.parent? x = some q :=
    fun x q q' up up' => Option.some.inj (up.symm.trans up')
  rcases Relation.ReflTransGen.total_of_right_unique unique belowc belowd with cd | dc
  · exact siblings linkc linkd cd
  · exact (siblings linkd linkc dc).symm

end Forest

/-! The recursion -/

namespace PostOrder

theorem mem_child (order : r.PostOrder post) :
    x ∈ post p ↔ ∃ c ∈ r.children p, x ∈ post c ∨ x = c := by
  rw [order p, List.mem_flatMap]
  simp only [List.mem_append, List.mem_singleton]

theorem sublist (order : r.PostOrder post) (below : r.Descends p x) :
    (post x ++ [x]).Sublist (post p) := by
  have part : ∀ {p c}, c ∈ r.children p → (post c ++ [c]).Sublist (post p) := by
    intro p c child
    rw [order p]
    exact (List.infix_flatMap_of_mem child fun c => post c ++ [c]).sublist
  induction below using Relation.TransGen.head_induction_on with
  | single child => exact part child
  | head child _ ih => exact (ih.trans (List.sublist_append_left _ _)).trans (part child)

theorem mem_iff (order : r.PostOrder post) (f : r.Forest) : x ∈ post p ↔ r.Descends p x := by
  constructor
  · intro mem
    induction p using f.children_wf.induction with
    | h p ih =>
      obtain ⟨c, child, below | rfl⟩ := order.mem_child.mp mem
      · exact .head child (ih c child below)
      · exact .single child
  · intro below
    exact (order.sublist below).subset (by simp)

theorem nodup (order : r.PostOrder post) (f : r.Forest) (p : Pointer) : (post p).Nodup := by
  induction p using f.children_wf.induction with
  | h p ih =>
    have own : ∀ c ∈ r.children p, (post c ++ [c]).Nodup := by
      intro c child
      rw [← List.concat_eq_append]
      exact (ih c child).concat fun mem => f.not_descends_self c ((order.mem_iff f).mp mem)
    have within : ∀ c, ∀ x ∈ post c ++ [c], r.AtOrBelow x c := by
      intro c x mem
      rcases List.mem_append.mp mem with below | last
      · exact f.atOrBelow_of_descends ((order.mem_iff f).mp below)
      · rw [List.mem_singleton.mp last]
        exact .refl
    rw [order p]
    refine List.nodup_flatMap.mpr ⟨own, ?_⟩
    refine (children_nodup r p).imp_of_mem fun {c d} memc memd different => ?_
    have linkc := (mem_children_iff f).mp memc
    have linkd := (mem_children_iff f).mp memd
    exact fun x inc ind => different (f.children_apart linkc linkd (within c x inc) (within d x ind))

theorem length_le (order : r.PostOrder post) (f : r.Forest) (p : Pointer) :
    (post p).length ≤ r.size := by
  have tracked : post p ⊆ r.nodes.keys := by
    intro x mem
    obtain ⟨q, up, -⟩ := f.parent?_of_descends ((order.mem_iff f).mp mem)
    obtain ⟨n, node⟩ := tracked_of_parent? up
    rw [Std.ExtTreeMap.mem_keys, Std.ExtTreeMap.mem_iff_contains]
    exact contains_iff.mpr ⟨n, node⟩
  have few := (List.subperm_of_subset (order.nodup f p) tracked).length_le
  rwa [Std.ExtTreeMap.length_keys] at few

theorem unique {post' : Pointer → List Pointer} (order : r.PostOrder post) (f : r.Forest)
    (order' : r.PostOrder post') (p : Pointer) : post p = post' p := by
  induction p using f.children_wf.induction with
  | h p ih =>
    rw [order p, order' p]
    exact List.flatMap_congr fun c child => by rw [ih c child]

end PostOrder

theorem Forest.exists_postOrder (f : r.Forest) : ∃ post, r.PostOrder post := by
  let post : Pointer → List Pointer := f.children_wf.fix fun p post =>
    (r.children p).attach.flatMap fun c => post c.1 c.2 ++ [c.1]
  refine ⟨post, fun p => ?_⟩
  have step : post p = (r.children p).attach.flatMap fun c => post c.1 ++ [c.1] :=
    f.children_wf.fix_eq _ p
  rw [step, List.flatMap_subtype (g := fun c => post c ++ [c]) fun c child => rfl,
    List.unattach_attach]

/-! The traversal -/

namespace Traversal

def upcoming (post : Pointer → List Pointer) : List (Pointer × Bool) → List Pointer
  | [] => []
  | (p, true) :: stack => p :: upcoming post stack
  | (p, false) :: stack => post p ++ p :: upcoming post stack

def visitsLeft (post : Pointer → List Pointer) : List (Pointer × Bool) → Nat
  | [] => 0
  | (_, true) :: stack => visitsLeft post stack + 1
  | (p, false) :: stack => visitsLeft post stack + 2 * ((post p).length + 1)

theorem visitsLeft_eq_zero_iff (post : Pointer → List Pointer) (stack : List (Pointer × Bool)) :
    visitsLeft post stack = 0 ↔ stack = [] := by
  match stack with
  | [] => simp [visitsLeft]
  | (_, true) :: _ => simp [visitsLeft]
  | (_, false) :: _ => simp [visitsLeft]

theorem expand_upcoming (order : r.PostOrder post) (t : Traversal) (p : Pointer) :
    upcoming post (t.expand r p).stack = post p ++ upcoming post t.stack := by
  rw [order p, expand]
  induction r.children p with
  | nil => rfl
  | cons c rest ih =>
    simp only [List.foldr_cons, upcoming, ih, List.flatMap_cons, List.append_assoc,
      List.cons_append, List.nil_append]

theorem expand_visitsLeft (order : r.PostOrder post) (t : Traversal) (p : Pointer) :
    visitsLeft post (t.expand r p).stack = visitsLeft post t.stack + 2 * (post p).length := by
  rw [order p, expand]
  induction r.children p with
  | nil => rfl
  | cons c rest ih =>
    simp only [List.foldr_cons, visitsLeft, ih, List.flatMap_cons, List.length_append,
      List.length_singleton]
    omega

theorem visit_upcoming (order : r.PostOrder post) (t : Traversal) :
    (t.visit r).listed ++ upcoming post (t.visit r).stack = t.listed ++ upcoming post t.stack := by
  obtain ⟨stack, listed⟩ := t
  match stack with
  | [] => rfl
  | (p, true) :: stack => simp only [visit, upcoming, List.append_assoc, List.singleton_append]
  | (p, false) :: stack =>
    change listed ++ upcoming post (expand r ⟨(p, true) :: stack, listed⟩ p).stack = _
    rw [expand_upcoming order]
    rfl

theorem visit_visitsLeft (order : r.PostOrder post) (t : Traversal) :
    visitsLeft post (t.visit r).stack = visitsLeft post t.stack - 1 := by
  obtain ⟨stack, listed⟩ := t
  match stack with
  | [] => rfl
  | (p, true) :: stack => rfl
  | (p, false) :: stack =>
    simp only [visit, expand_visitsLeft order, visitsLeft]
    omega

end Traversal

section Traversal

open Traversal

theorem traversal_upcoming (order : r.PostOrder post) (p : Pointer) (visits : Nat) :
    (r.traversal p visits).listed ++ upcoming post (r.traversal p visits).stack = post p := by
  induction visits with
  | zero =>
    change [] ++ upcoming post (expand r ⟨[], []⟩ p).stack = post p
    rw [expand_upcoming order]
    simp only [upcoming, List.append_nil, List.nil_append]
  | succ visits ih => rw [traversal, visit_upcoming order, ih]

theorem traversal_visitsLeft (order : r.PostOrder post) (p : Pointer) (visits : Nat) :
    visitsLeft post (r.traversal p visits).stack = 2 * (post p).length - visits := by
  induction visits with
  | zero => rw [traversal, expand_visitsLeft order, visitsLeft, Nat.zero_add, Nat.sub_zero]
  | succ visits ih => rw [traversal, visit_visitsLeft order, ih, Nat.sub_sub]

theorem traversal_stack_iff (order : r.PostOrder post) (p : Pointer) (visits : Nat) :
    (r.traversal p visits).stack = [] ↔ 2 * (post p).length ≤ visits := by
  rw [← visitsLeft_eq_zero_iff post, traversal_visitsLeft order, Nat.sub_eq_zero_iff_le]

theorem traversal_listed (order : r.PostOrder post) {visits : Nat}
    (enough : 2 * (post p).length ≤ visits) : (r.traversal p visits).listed = post p := by
  have total := traversal_upcoming order p visits
  rwa [(traversal_stack_iff order p visits).mpr enough, upcoming, List.append_nil] at total

end Traversal

/-! The descendants -/

theorem PostOrder.descendants_eq (order : r.PostOrder post) (f : r.Forest) (p : Pointer) :
    r.descendants p = post p :=
  traversal_listed order (Nat.mul_le_mul_left 2 (order.length_le f p))

namespace Forest

theorem descendants_postOrder (f : r.Forest) : r.PostOrder r.descendants := by
  obtain ⟨post, order⟩ := f.exists_postOrder
  have same : r.descendants = post := funext (order.descendants_eq f)
  rwa [same]

theorem mem_descendants_iff (f : r.Forest) : x ∈ r.descendants p ↔ r.Descends p x :=
  f.descendants_postOrder.mem_iff f

theorem subtree_nodup (f : r.Forest) (p : Pointer) : (r.descendants p ++ [p]).Nodup := by
  rw [← List.concat_eq_append]
  exact (f.descendants_postOrder.nodup f p).concat fun mem =>
    f.not_descends_self p (f.mem_descendants_iff.mp mem)

end Forest

end Tlsf.Registry
