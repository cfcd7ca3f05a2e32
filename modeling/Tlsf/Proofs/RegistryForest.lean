import Mathlib.Logic.Relation
import Tlsf.Registry

/-!
The registry as a forest. All links follow from the parent links: children are
the pointers that name the node as their parent, roots are the tracked pointers
without one, and some rank falls from every pointer to its parent, so that no
chain of parents comes back. The three changes of a registry keep this,
whatever their arguments are. Each is told first by what it does to the nodes
and roots, as `inherit`, `Added` and `Renamed` say it, then by `parent?`.
-/

namespace Tlsf.Registry

variable {r : Registry} {p q x y : Pointer} {n m : Registration}

def parent? (r : Registry) (p : Pointer) : Option Pointer := (r.node? p).bind (·.parent)

structure Forest (r : Registry) : Prop where
  closed : ∀ p q, r.parent? p = some q → ∃ n, r.node? q = some n
  children : ∀ p n, r.node? p = some n → ∀ x, x ∈ n.children ↔ r.parent? x = some p
  roots : ∀ p, p ∈ r.roots ↔ (∃ n, r.node? p = some n) ∧ r.parent? p = none
  acyclic : ∃ rank : Pointer → Nat, ∀ p q, r.parent? p = some q → rank q < rank p

theorem parent?_eq (node : r.node? p = some n) : r.parent? p = n.parent := by
  rw [parent?, node]
  rfl

theorem parent?_untracked (node : r.node? p = none) : r.parent? p = none := by
  rw [parent?, node]
  rfl

theorem tracked_of_parent? (link : r.parent? p = some q) : ∃ n, r.node? p = some n := by
  cases node : r.node? p with
  | none => exact absurd link (by simp [parent?, node])
  | some n => exact ⟨n, rfl⟩

theorem forest_empty : empty.Forest := by
  refine ⟨?_, ?_, ?_, fun _ => 0, ?_⟩ <;> simp [empty, node?, parent?]

/-! What the steps of a change do to one node -/

theorem adopt_node? (r : Registry) (children : List Pointer) (parent : Option Pointer) (x : Pointer) :
    (r.adopt children parent).node? x =
      (r.node? x).map fun n => if x ∈ children then { n with parent } else n := by
  suffices h : ∀ nodes : Std.ExtTreeMap Pointer Registration,
      (children.foldl (fun nodes c => nodes.modify c fun n => { n with parent }) nodes)[x]? =
        nodes[x]?.map fun n : Registration => if x ∈ children then { n with parent } else n
    from h r.nodes
  induction children with
  | nil => simp
  | cons c rest ih =>
    intro nodes
    rw [List.foldl_cons, ih, Std.ExtTreeMap.getElem?_modify]
    by_cases same : c = x
    · subst same
      cases nodes[c]? with
      | none => simp
      | some n => by_cases later : c ∈ rest <;> simp [later]
    · have other : compare c x ≠ .eq := fun e => same (Std.compare_eq_iff_eq.mp e)
      simp [other, Ne.symm same]

@[simp] theorem adopt_roots (r : Registry) (children : List Pointer) (parent : Option Pointer) :
    (r.adopt children parent).roots = r.roots := rfl

theorem editBelow_node? {change : Std.ExtTreeSet Pointer → Std.ExtTreeSet Pointer}
    (r : Registry) (parent : Option Pointer) (x : Pointer) :
    (r.editBelow parent change).node? x = (r.node? x).map fun n =>
      if some x = r.tracked? parent then { n with children := change n.children } else n := by
  unfold editBelow
  cases tracked : r.tracked? parent with
  | none => simp [node?]
  | some q =>
    simp only [node?, Std.ExtTreeMap.getElem?_modify]
    by_cases same : q = x
    · subst same
      simp
    · have other : compare q x ≠ .eq := fun e => same (Std.compare_eq_iff_eq.mp e)
      simp [other, Ne.symm same]

theorem editBelow_roots {change : Std.ExtTreeSet Pointer → Std.ExtTreeSet Pointer}
    (r : Registry) (parent : Option Pointer) :
    (r.editBelow parent change).roots =
      if r.tracked? parent = none then change r.roots else r.roots := by
  unfold editBelow
  cases r.tracked? parent <;> rfl

theorem contains_iff : r.contains p = true ↔ ∃ n, r.node? p = some n := by
  rw [contains, Std.ExtTreeMap.contains_eq_isSome_getElem?, Option.isSome_iff_exists]
  rfl

theorem tracked?_some (tracked : r.node? q = some n) : r.tracked? (some q) = some q := by
  have inside : r.contains q = true := contains_iff.mpr ⟨n, tracked⟩
  simp [tracked?, Option.filter, inside]

theorem tracked?_mem {parent : Option Pointer} (mem : q ∈ r.tracked? parent) :
    parent = some q ∧ ∃ n, r.node? q = some n := by
  obtain ⟨same, inside⟩ := Option.filter_eq_some_iff.mp mem
  exact ⟨same, contains_iff.mp inside⟩

theorem erase_node? (r : Registry) (p x : Pointer) :
    (Registry.mk (r.nodes.erase p) r.roots).node? x = if x = p then none else r.node? x := by
  simp only [node?, Std.ExtTreeMap.getElem?_erase]
  by_cases same : x = p
  · subst same
    simp
  · have other : compare p x ≠ .eq := fun e => same (Std.compare_eq_iff_eq.mp e).symm
    simp [same, other]

theorem insert_node? (r : Registry) (roots : Std.ExtTreeSet Pointer) (p x : Pointer)
    (n : Registration) :
    (Registry.mk (r.nodes.insert p n) roots).node? x = if x = p then some n else r.node? x := by
  simp only [node?, Std.ExtTreeMap.getElem?_insert]
  by_cases same : x = p
  · subst same
    simp
  · have other : compare p x ≠ .eq := fun e => same (Std.compare_eq_iff_eq.mp e).symm
    simp [same, other]

namespace Forest

theorem parent?_ne (f : r.Forest) (p : Pointer) : r.parent? p ≠ some p := by
  obtain ⟨rank, falls⟩ := f.acyclic
  exact fun self => Nat.lt_irrefl _ (falls p p self)

theorem parent_ne (f : r.Forest) (node : r.node? p = some n) : n.parent ≠ some p :=
  parent?_eq node ▸ f.parent?_ne p

theorem node?_eq {owner : OwnerId} {parent : Option Pointer} {children : Std.ExtTreeSet Pointer}
    (f : r.Forest) (owned : r.owner? p = some owner) (up : r.parent? p = parent)
    (below : ∀ c, r.parent? c = some p ↔ c ∈ children) :
    r.node? p = some ⟨owner, parent, children⟩ := by
  obtain ⟨n, node, rfl⟩ := Option.map_eq_some_iff.mp owned
  obtain rfl : n.parent = parent := (parent?_eq node).symm.trans up
  obtain rfl : n.children = children :=
    Std.ExtTreeSet.ext_mem fun c => (f.children p n node c).trans (below c)
  exact node

end Forest

/-! Dropping a pointer -/

theorem unregister_untracked (node : r.node? p = none) : r.unregister p = r := by
  simp only [unregister, remove, node]

def inherit (p : Pointer) (n : Registration) (x : Pointer) (m : Registration) : Registration where
  owner := m.owner
  parent := if x ∈ n.children then n.parent else m.parent
  children := if n.parent = some x then m.children.erase p ∪ n.children else m.children

theorem orphans_node? (r : Registry) (p : Pointer) (n : Registration) (parent : Option Pointer)
    (x : Pointer) :
    ((Registry.mk (r.nodes.erase p) r.roots).adopt n.children.toList parent).node? x =
      if x = p then none else (r.node? x).map fun m =>
        if x ∈ n.children then { m with parent } else m := by
  rw [adopt_node?, erase_node?]
  by_cases same : x = p <;> simp [same]

theorem orphans_tracked? (f : r.Forest) (node : r.node? p = some n) (parent : Option Pointer) :
    ((Registry.mk (r.nodes.erase p) r.roots).adopt n.children.toList parent).tracked? n.parent =
      n.parent := by
  cases up : n.parent with
  | none => rfl
  | some q =>
    obtain ⟨m, node'⟩ := f.closed p q (up ▸ parent?_eq node)
    have other : q ≠ p := fun e => f.parent_ne node (e ▸ up)
    refine tracked?_some (n := if q ∈ n.children then { m with parent } else m) ?_
    rw [orphans_node?, if_neg other, node']
    rfl

theorem unregister_node? (f : r.Forest) (node : r.node? p = some n) (x : Pointer) :
    (r.unregister p).node? x = if x = p then none else (r.node? x).map (inherit p n x) := by
  have base := orphans_node? r p n n.parent
  have tracked := orphans_tracked? f node n.parent
  simp only [unregister, remove, node, editBelow_node?, tracked, base]
  by_cases same : x = p
  · simp [same]
  · simp only [same, if_false, Option.map_map]
    congr 1
    funext m
    by_cases child : x ∈ n.children <;> by_cases up : n.parent = some x <;>
      simp [inherit, child, up, eq_comm (a := some x)]

theorem unregister_parent? (f : r.Forest) (p x : Pointer) :
    (r.unregister p).parent? x =
      if x = p then none else if r.parent? x = some p then r.parent? p else r.parent? x := by
  cases node : r.node? p with
  | none =>
    have childless : r.parent? x ≠ some p := by
      intro up
      obtain ⟨n, node'⟩ := f.closed x p up
      exact absurd node (by simp [node'])
    rw [unregister_untracked node, if_neg childless]
    by_cases same : x = p
    · rw [if_pos same, same, parent?_untracked node]
    · rw [if_neg same]
  | some n =>
    have orphan := f.children p n node x
    rw [parent?, unregister_node? f node]
    by_cases same : x = p
    · simp [same]
    · cases node' : r.node? x with
      | none =>
        have up := parent?_untracked node'
        simp [same, up]
      | some m =>
        rw [parent?_eq node'] at orphan ⊢
        simp only [same, if_false, Option.map_some, Option.bind_some, inherit, orphan,
          parent?_eq node]

theorem unregister_roots (f : r.Forest) (node : r.node? p = some n) (x : Pointer) :
    x ∈ (r.unregister p).roots ↔
      if n.parent = none then (x ∈ r.roots ∧ x ≠ p) ∨ x ∈ n.children else x ∈ r.roots := by
  have tracked := orphans_tracked? f node n.parent
  simp only [unregister, remove, node, editBelow_roots, tracked, adopt_roots]
  by_cases top : n.parent = none
  · simp only [top, if_true, Std.ExtTreeSet.mem_union_iff, Std.ExtTreeSet.mem_erase, ne_eq,
      Std.compare_eq_iff_eq, eq_comm (a := p), and_comm]
  · simp only [top, if_false]

theorem unregister_tracked_iff (f : r.Forest) (node : r.node? p = some n) (x : Pointer) :
    (∃ m, (r.unregister p).node? x = some m) ↔ x ≠ p ∧ ∃ m, r.node? x = some m := by
  rw [unregister_node? f node]
  by_cases same : x = p
  · simp [same]
  · rw [if_neg same, ← Option.isSome_iff_exists, Option.isSome_map, Option.isSome_iff_exists]
    simp [same]

theorem unregister_children (f : r.Forest) (node : r.node? p = some n)
    (node' : (r.unregister p).node? y = some m) (x : Pointer) :
    x ∈ m.children ↔ (r.unregister p).parent? x = some y := by
  have top := parent?_eq node
  have self := f.parent?_ne p
  have orphan := f.children p n node x
  rw [unregister_node? f node] at node'
  rw [unregister_parent? f p x]
  by_cases same : y = p
  · simp [same] at node'
  · rw [if_neg same, Option.map_eq_some_iff] at node'
    obtain ⟨m, node', rfl⟩ := node'
    have below := f.children y m node' x
    by_cases heir : n.parent = some y
    · simp only [inherit, if_pos heir, Std.ExtTreeSet.mem_union_iff, Std.ExtTreeSet.mem_erase,
        Std.compare_eq_iff_eq, ne_eq, below, orphan]
      grind
    · simp only [inherit, if_neg heir, below]
      grind

theorem Forest.unregister (f : r.Forest) (p : Pointer) : (r.unregister p).Forest := by
  cases node : r.node? p with
  | none =>
    rw [unregister_untracked node]
    exact f
  | some n =>
    have up := unregister_parent? f p
    have top := parent?_eq node
    have self := f.parent?_ne p
    obtain ⟨rank, falls⟩ := f.acyclic
    refine ⟨fun x q link => ?_, fun y m node' => unregister_children f node node', fun x => ?_,
      rank, fun x q link => ?_⟩
    · rw [up x] at link
      rw [unregister_tracked_iff f node]
      have closed := f.closed
      grind
    · have orphan := f.children p n node x
      have linked := tracked_of_parent? (r := r) (p := x) (q := p)
      rw [unregister_roots f node, unregister_tracked_iff f node, up x, f.roots]
      grind
    · rw [up x] at link
      have below := falls x p
      grind

/-! Tracking a pointer -/

theorem Forest.unregister_self (f : r.Forest) (p : Pointer) : (r.unregister p).node? p = none := by
  cases node : r.node? p with
  | none => rw [unregister_untracked node, node]
  | some n => rw [unregister_node? f node, if_pos rfl]

/-- The registry `s` is `r` with the untracked `p` added below `top`, or as a root. -/
structure Added (r s : Registry) (p : Pointer) (owner : OwnerId) (top : Option Pointer) : Prop where
  fresh : r.node? p = none
  place : ∀ q, top = some q → ∃ n, r.node? q = some n
  nodes : ∀ x, s.node? x = if x = p then some ⟨owner, top, ∅⟩ else (r.node? x).map fun m =>
    if some x = top then { m with children := m.children.insert p } else m
  roots : ∀ x, x ∈ s.roots ↔ x ∈ r.roots ∨ (x = p ∧ top = none)

theorem register_added (f : r.Forest) (p : Pointer) (owner : OwnerId) (parent : Option Pointer) :
    Added (r.unregister p) (r.register p owner parent) p owner
      ((r.unregister p).tracked? parent) := by
  have twice : (r.unregister p).tracked? ((r.unregister p).tracked? parent) =
      (r.unregister p).tracked? parent := by
    simp [tracked?, Option.filter_filter]
  refine ⟨f.unregister_self p, fun q mem => (tracked?_mem mem).2, fun x => ?_, fun x => ?_⟩
  · simp only [register, insert_node?, editBelow_node?, twice]
  · simp only [register, editBelow_roots, twice]
    by_cases top : (r.unregister p).tracked? parent = none
    · simp only [top, if_true, and_true, Std.ExtTreeSet.mem_insert, Std.compare_eq_iff_eq,
        eq_comm (a := p), or_comm]
    · simp only [top, if_false, and_false, or_false]

namespace Added

variable {s : Registry} {owner : OwnerId} {top : Option Pointer}

theorem parent?_eq (add : Added r s p owner top) (x : Pointer) :
    s.parent? x = if x = p then top else r.parent? x := by
  rw [parent?, add.nodes]
  by_cases same : x = p
  · simp [same]
  · simp only [if_neg same, parent?, Option.bind_map]
    congr 1
    funext m
    rw [Function.comp_apply]
    split <;> rfl

theorem tracked_iff (add : Added r s p owner top) (x : Pointer) :
    (∃ m, s.node? x = some m) ↔ x = p ∨ ∃ m, r.node? x = some m := by
  rw [add.nodes x]
  by_cases same : x = p
  · simp [same]
  · rw [if_neg same, ← Option.isSome_iff_exists, Option.isSome_map, Option.isSome_iff_exists]
    simp [same]

theorem ne_of_tracked (add : Added r s p owner top) (tracked : ∃ n, r.node? q = some n) : q ≠ p := by
  rintro rfl
  obtain ⟨n, node⟩ := tracked
  exact absurd add.fresh (by simp [node])

theorem children (add : Added r s p owner top) (f : r.Forest) {y : Pointer}
    (node : s.node? y = some m) (x : Pointer) : x ∈ m.children ↔ s.parent? x = some y := by
  have fresh := f.closed x p
  have untracked := add.fresh
  have place := add.place
  rw [add.nodes y] at node
  rw [add.parent?_eq x]
  by_cases same : y = p
  · rw [if_pos same, Option.some.injEq] at node
    subst node
    have empty : x ∉ (∅ : Std.ExtTreeSet Pointer) := Std.ExtTreeSet.not_mem_empty
    grind
  · rw [if_neg same, Option.map_eq_some_iff] at node
    obtain ⟨m, node, rfl⟩ := node
    have below := f.children y m node x
    have alone := parent?_untracked untracked
    by_cases here : some y = top
    · simp only [if_pos here, Std.ExtTreeSet.mem_insert, Std.compare_eq_iff_eq, below]
      grind
    · simp only [if_neg here, below]
      grind

theorem falls (add : Added r s p owner top) (f : r.Forest) {rank : Pointer → Nat}
    (falls : ∀ p q, r.parent? p = some q → rank q < rank p) (link : s.parent? x = some q) :
    (if q = p then (top.map (rank · + 1)).getD 0 else rank q) <
      (if x = p then (top.map (rank · + 1)).getD 0 else rank x) := by
  rw [add.parent?_eq x] at link
  by_cases same : x = p
  · rw [if_pos same] at link
    rw [if_pos same, if_neg (add.ne_of_tracked (add.place q link)), link]
    exact Nat.lt_succ_self _
  · rw [if_neg same] at link
    rw [if_neg same, if_neg (add.ne_of_tracked (f.closed x q link))]
    exact falls x q link

theorem forest (add : Added r s p owner top) (f : r.Forest) : s.Forest := by
  obtain ⟨rank, falls⟩ := f.acyclic
  refine ⟨fun x q link => ?_, fun y m node => add.children f node, fun x => ?_,
    fun x => if x = p then (top.map (rank · + 1)).getD 0 else rank x, fun x q => add.falls f falls⟩
  · rw [add.parent?_eq x] at link
    rw [add.tracked_iff]
    split at link
    · exact .inr (add.place q link)
    · exact .inr (f.closed x q link)
  · have away := add.ne_of_tracked (q := x)
    rw [add.roots, add.tracked_iff, add.parent?_eq x, f.roots]
    grind

end Added

theorem Forest.register (f : r.Forest) (p : Pointer) (owner : OwnerId) (parent : Option Pointer) :
    (r.register p owner parent).Forest :=
  (register_added f p owner parent).forest (f.unregister p)

/-! Renaming a pointer -/

def rename (old new : Pointer) (n : Registration) (x : Pointer) (m : Registration) : Registration where
  owner := m.owner
  parent := if x ∈ n.children then some new else m.parent
  children := if n.parent = some x then (m.children.erase old).insert new else m.children

theorem repoint_untracked {old new : Pointer} (other : old ≠ new)
    (node : (r.unregister new).node? old = none) : r.repoint old new = (false, r.unregister new) := by
  simp only [repoint, if_neg other, node]

/-- The registry `s` is `r` with `old`, registered as `n`, renamed to the untracked `new`. -/
structure Renamed (r s : Registry) (old new : Pointer) (n : Registration) : Prop where
  other : old ≠ new
  node : r.node? old = some n
  fresh : r.node? new = none
  nodes : ∀ x, s.node? x = if x = new then some n else if x = old then none
    else (r.node? x).map (rename old new n x)
  roots : ∀ x, x ∈ s.roots ↔
    if n.parent = none then (x ∈ r.roots ∧ x ≠ old) ∨ x = new else x ∈ r.roots

section Repoint

variable {s : Registry} {old new : Pointer}

theorem repoint_eq (f : r.Forest) (other : old ≠ new)
    (node : (r.unregister new).node? old = some n) :
    ∃ s, r.repoint old new = (true, s) ∧ Renamed (r.unregister new) s old new n := by
  have f' := f.unregister new
  have base := orphans_node? (r.unregister new) old n (some new)
  have tracked := orphans_tracked? f' node (some new)
  refine ⟨_, by simp only [repoint, if_neg other, node]; rfl,
    other, node, f.unregister_self new, fun x => ?_, fun x => ?_⟩
  · rw [insert_node?, editBelow_node?, tracked, base]
    by_cases same : x = new
    · simp [same]
    · by_cases gone : x = old
      · simp [gone]
      · simp only [if_neg same, if_neg gone, Option.map_map]
        congr 1
        funext m
        by_cases child : x ∈ n.children <;> by_cases up : n.parent = some x <;>
          simp [rename, child, up, eq_comm (a := some x)]
  · change x ∈ (editBelow _ n.parent _).roots ↔ _
    rw [editBelow_roots, tracked, adopt_roots]
    by_cases top : n.parent = none
    · simp only [top, if_true, Std.ExtTreeSet.mem_insert, Std.ExtTreeSet.mem_erase,
        Std.compare_eq_iff_eq, ne_eq, eq_comm (a := new), eq_comm (a := old), and_comm, or_comm]
    · simp only [top, if_false]

namespace Renamed

theorem parent?_eq (ren : Renamed r s old new n) (f : r.Forest) (x : Pointer) :
    s.parent? x = if x = new then r.parent? old else if x = old then none
      else if r.parent? x = some old then some new else r.parent? x := by
  have child := f.children old n ren.node x
  rw [parent?, ren.nodes x, Registry.parent?_eq ren.node]
  by_cases same : x = new
  · simp [same]
  · by_cases gone : x = old
    · simp [gone, ren.other]
    · simp only [if_neg same, if_neg gone]
      cases node : r.node? x with
      | none => simp [parent?_untracked node]
      | some m =>
        rw [Registry.parent?_eq node] at child ⊢
        simp only [Option.map_some, Option.bind_some, rename, child]

theorem tracked_iff (ren : Renamed r s old new n) (x : Pointer) :
    (∃ m, s.node? x = some m) ↔ x = new ∨ (x ≠ old ∧ ∃ m, r.node? x = some m) := by
  rw [ren.nodes x]
  by_cases same : x = new
  · simp [same]
  · by_cases gone : x = old
    · simp [gone, ren.other]
    · rw [if_neg same, if_neg gone, ← Option.isSome_iff_exists, Option.isSome_map,
        Option.isSome_iff_exists]
      simp [same, gone]

theorem unnamed (ren : Renamed r s old new n) (f : r.Forest) (x : Pointer) :
    r.parent? x ≠ some new := by
  intro link
  obtain ⟨m, node⟩ := f.closed x new link
  exact absurd ren.fresh (by simp [node])

theorem children (ren : Renamed r s old new n) (f : r.Forest) {y : Pointer}
    (node : s.node? y = some m) (x : Pointer) : x ∈ m.children ↔ s.parent? x = some y := by
  have top := Registry.parent?_eq ren.node
  have child := f.children old n ren.node x
  have other := ren.other
  have alone := parent?_untracked ren.fresh
  have self := f.parent?_ne old
  have unnamed := ren.unnamed f
  rw [ren.nodes y] at node
  rw [ren.parent?_eq f x]
  by_cases same : y = new
  · grind
  · by_cases gone : y = old
    · grind
    · rw [if_neg same, if_neg gone, Option.map_eq_some_iff] at node
      obtain ⟨m, node, rfl⟩ := node
      have below := f.children y m node x
      by_cases heir : n.parent = some y
      · simp only [rename, if_pos heir, Std.ExtTreeSet.mem_insert, Std.ExtTreeSet.mem_erase,
          Std.compare_eq_iff_eq, ne_eq, below]
        grind
      · simp only [rename, if_neg heir, below]
        grind

theorem falls (ren : Renamed r s old new n) (f : r.Forest) {rank : Pointer → Nat}
    (falls : ∀ p q, r.parent? p = some q → rank q < rank p) (link : s.parent? x = some q) :
    (if q = new then rank old else rank q) < (if x = new then rank old else rank x) := by
  have self := f.parent?_ne old
  have unnamed := ren.unnamed f
  have below := falls x
  have above := falls old
  rw [ren.parent?_eq f x] at link
  grind

theorem forest (ren : Renamed r s old new n) (f : r.Forest) : s.Forest := by
  have up := ren.parent?_eq f
  have self := f.parent?_ne old
  obtain ⟨rank, falls⟩ := f.acyclic
  refine ⟨fun x q link => ?_, fun y m node => ren.children f node, fun x => ?_,
    fun x => if x = new then rank old else rank x, fun x q => ren.falls f falls⟩
  · rw [up x] at link
    rw [ren.tracked_iff]
    have closed := f.closed
    grind
  · have tracked := ren.node
    have fresh := ren.fresh
    have top := Registry.parent?_eq tracked
    have alone := parent?_untracked fresh
    rw [ren.roots, ren.tracked_iff, up x, f.roots]
    grind

end Renamed

theorem Forest.repoint (f : r.Forest) (old new : Pointer) : (r.repoint old new).2.Forest := by
  by_cases other : old = new
  · simpa only [Registry.repoint, if_pos other] using f
  · have f' := f.unregister new
    cases node : (r.unregister new).node? old with
    | none =>
      rw [repoint_untracked other node]
      exact f'
    | some n =>
      obtain ⟨s, run, renamed⟩ := repoint_eq f other node
      rw [run]
      exact renamed.forest f'

end Repoint

/-! Registries of a host -/

inductive Edit where
  | register (ptr : Pointer) (owner : OwnerId) (parent : Option Pointer)
  | unregister (ptr : Pointer)
  | repoint (old new : Pointer)
  | clear

def Edit.apply (r : Registry) : Edit → Registry
  | .register ptr owner parent => r.register ptr owner parent
  | .unregister ptr => r.unregister ptr
  | .repoint old new => (r.repoint old new).2
  | .clear => empty

def edited (r : Registry) (edits : List Edit) : Registry := edits.foldl Edit.apply r

def Reachable (r : Registry) : Prop := ∃ edits, empty.edited edits = r

theorem Forest.apply (f : r.Forest) (e : Edit) : (e.apply r).Forest := by
  cases e with
  | register ptr owner parent => exact f.register ptr owner parent
  | unregister ptr => exact f.unregister ptr
  | repoint old new => exact f.repoint old new
  | clear => exact forest_empty

theorem Forest.edited (f : r.Forest) (edits : List Edit) : (r.edited edits).Forest := by
  induction edits generalizing r with
  | nil => exact f
  | cons e rest ih => exact ih (f.apply e)

theorem Reachable.forest (reach : r.Reachable) : r.Forest := by
  obtain ⟨edits, rfl⟩ := reach
  exact forest_empty.edited edits

end Tlsf.Registry
