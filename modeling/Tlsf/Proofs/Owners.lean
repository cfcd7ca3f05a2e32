import Tlsf.Proofs.Outcomes

/-!
Owners. A registration gives a pointer its owner, dropping it takes the owner away,
and renaming takes it along; nothing else changes who owns what. A pointer that is
renamed keeps its whole place as well, which `Carries` says link by link.
-/

namespace Tlsf

namespace Registry

variable {r s : Registry} {p q x : Pointer} {n : Registration}

theorem owner?_of_node (node : r.node? p = some n) : r.owner? p = some n.owner := by
  rw [owner?, node, Option.map_some]

theorem owner?_eq_none_iff : r.owner? p = none ↔ r.node? p = none := Option.map_eq_none_iff

theorem contains_iff_owner? : r.contains p = true ↔ ∃ o, r.owner? p = some o := by
  rw [contains_iff, ← Option.ne_none_iff_exists', ← Option.ne_none_iff_exists', Ne, Ne,
    owner?_eq_none_iff]

theorem unregister_owner? (f : r.Forest) (p x : Pointer) :
    (r.unregister p).owner? x = if x = p then none else r.owner? x := by
  cases node : r.node? p with
  | none =>
    rw [unregister_untracked node]
    by_cases same : x = p
    · rw [if_pos same, same, owner?, node, Option.map_none]
    · rw [if_neg same]
  | some n =>
    rw [owner?, unregister_node? f node]
    by_cases same : x = p
    · rw [if_pos same, if_pos same, Option.map_none]
    · rw [if_neg same, if_neg same, Option.map_map]
      rfl

theorem foldl_unregister_forest (f : r.Forest) (ptrs : List Pointer) :
    (ptrs.foldl unregister r).Forest := by
  induction ptrs generalizing r with
  | nil => exact f
  | cons p rest ih => exact ih (f.unregister p)

theorem foldl_unregister_owner? (f : r.Forest) (ptrs : List Pointer) (x : Pointer) :
    (ptrs.foldl unregister r).owner? x = if x ∈ ptrs then none else r.owner? x := by
  induction ptrs generalizing r with
  | nil => rfl
  | cons p rest ih =>
    rw [List.foldl_cons, ih (f.unregister p), unregister_owner? f]
    by_cases same : x = p <;> by_cases later : x ∈ rest <;> simp [same, later]

theorem register_owner? (f : r.Forest) (p : Pointer) (owner : OwnerId) (parent : Option Pointer)
    (x : Pointer) : (r.register p owner parent).owner? x = if x = p then some owner else r.owner? x := by
  have added := register_added f p owner parent
  rw [owner?, added.nodes]
  by_cases same : x = p
  · rw [if_pos same, if_pos same, Option.map_some]
  · have dropped := unregister_owner? f p x
    rw [if_neg same, owner?] at dropped
    rw [if_neg same, if_neg same, ← dropped, Option.map_map]
    congr 1
    funext m
    rw [Function.comp_apply]
    split <;> rfl

theorem Renamed.owner?_eq {old new : Pointer} (ren : Renamed r s old new n) (x : Pointer) :
    s.owner? x = if x = new then r.owner? old else if x = old then none else r.owner? x := by
  rw [owner?, ren.nodes, owner?, ren.node]
  by_cases same : x = new
  · rw [if_pos same, if_pos same]
  · rw [if_neg same, if_neg same]
    by_cases gone : x = old
    · rw [if_pos gone, if_pos gone, Option.map_none]
    · rw [if_neg gone, if_neg gone, Option.map_map]
      rfl

theorem Forest.parent?_asymm (f : r.Forest) (up : r.parent? p = some q) : r.parent? q ≠ some p := by
  obtain ⟨rank, falls⟩ := f.acyclic
  intro down
  have low := falls p q up
  have high := falls q p down
  omega

/-! Renaming -/

/-- In `s` the pointer `p` of `r` is known as `q`, with its owner, parent and children; its parent
and its children know it by that name, and nothing else has changed. -/
structure Carries (r s : Registry) (p q : Pointer) : Prop where
  node : s.node? q = r.node? p
  left : q ≠ p → s.node? p = none
  parent : ∀ u m, r.parent? p = some u → r.node? u = some m → ∃ m', s.node? u = some m' ∧
    m'.owner = m.owner ∧ m'.parent = m.parent ∧ ∀ x, x ∈ m'.children ↔ x = q ∨ x ∈ m.children ∧ x ≠ p
  children : ∀ c m, r.parent? c = some p → r.node? c = some m →
    s.node? c = some { m with parent := some q }
  root : q ∈ s.roots ↔ p ∈ r.roots
  others : ∀ x, x ≠ p → x ≠ q → r.parent? p ≠ some x → r.parent? x ≠ some p →
    s.node? x = r.node? x

theorem Forest.carries_self (f : r.Forest) (p : Pointer) : r.Carries r p p := by
  refine ⟨rfl, fun other => absurd rfl other, fun u m up node => ⟨m, node, rfl, rfl, fun x => ?_⟩,
    fun c m up node => ?_, Iff.rfl, fun _ _ _ _ _ => rfl⟩
  · have child := (f.children u m node p).mpr up
    by_cases same : x = p <;> simp [same, child]
  · rw [parent?_eq node] at up
    rw [node, ← up]

theorem Renamed.carries {old new : Pointer} (ren : Renamed r s old new n) (f : r.Forest) :
    r.Carries s old new := by
  have top := Registry.parent?_eq ren.node
  have child := f.children old n ren.node
  have tracked : ∀ {x m}, r.node? x = some m → x ≠ new := by
    rintro x m node rfl
    exact absurd ren.fresh (by simp [node])
  refine ⟨by rw [ren.nodes, if_pos rfl, ren.node], fun _ => ?_, fun u m up node => ?_,
    fun c m up node => ?_, ?_, fun x old' new' notUp notDown => ?_⟩
  · rw [ren.nodes, if_neg ren.other, if_pos rfl]
  · have apart : u ∉ n.children := fun inside => f.parent?_asymm up ((child u).mp inside)
    have other : u ≠ old := fun same => f.parent?_ne old (same ▸ up)
    rw [top] at up
    have after : s.node? u = some (rename old new n u m) := by
      rw [ren.nodes, if_neg (tracked node), if_neg other, node, Option.map_some]
    refine ⟨_, after, rfl, ?_, fun x => ?_⟩
    · simp only [rename, if_neg apart]
    · simp only [rename, if_pos up, Std.ExtTreeSet.mem_insert, Std.ExtTreeSet.mem_erase,
        Std.compare_eq_iff_eq, ne_eq, eq_comm (a := new), eq_comm (a := old), and_comm]
  · have other : c ≠ old := fun same => f.parent?_ne old (same ▸ up)
    have apart : n.parent ≠ some c := fun down => f.parent?_asymm up (top.trans down)
    rw [ren.nodes, if_neg (tracked node), if_neg other, node, Option.map_some]
    simp only [rename, if_pos ((child c).mpr up), if_neg apart]
  · rw [ren.roots new, f.roots old, f.roots new, top]
    simp only [ren.node, ren.fresh]
    by_cases up : n.parent = none <;> simp [up]
  · have apart : x ∉ n.children := fun inside => notDown ((child x).mp inside)
    rw [top] at notUp
    rw [ren.nodes, if_neg new', if_neg old']
    cases r.node? x with
    | none => rfl
    | some m => simp only [Option.map_some, rename, if_neg apart, if_neg notUp]

end Registry

/-! Resizes -/

namespace Pool

open Registry

variable {r : Registry} {old new : Pointer} {o : Option Ownership} {n : Registration}

theorem followResize_untracked (untracked : r.node? old = none)
    (fresh : r.node? new = none) : followResize r old new o = enter r new o := by
  have absent : r.contains new = false := by
    rw [← Bool.not_eq_true, contains_iff]
    simp [fresh]
  unfold followResize
  by_cases same : new = old
  · rw [if_pos same]
    cases o with
    | none => rfl
    | some o => simp only [absent, Bool.or_self, Bool.false_eq_true, if_false, enter]
  · rw [if_neg same, repoint_untracked (Ne.symm same) (by rwa [unregister_untracked fresh]),
      unregister_untracked fresh]
    cases o with
    | none => rfl
    | some o => simp only [absent, Bool.or_self, Bool.false_eq_true, if_false, enter]

theorem followResize_tracked (f : r.Forest) (node : r.node? old = some n)
    (fresh : new ≠ old → r.node? new = none) :
    r.Carries (followResize r old new o) old new ∧
      ∀ x, (followResize r old new o).owner? x =
        if x = new then r.owner? old else if x = old then none else r.owner? x := by
  unfold followResize
  by_cases same : new = old
  · subst same
    have present : r.contains new = true := contains_iff.mpr ⟨n, node⟩
    have kept : ∀ x, r.owner? x =
        if x = new then r.owner? new else if x = new then none else r.owner? x := by
      intro x
      by_cases here : x = new <;> simp [here]
    rw [if_pos rfl]
    cases o with
    | none => exact ⟨f.carries_self new, kept⟩
    | some o =>
      simp only [present, Bool.or_true, if_true]
      exact ⟨f.carries_self new, kept⟩
  · have free := unregister_untracked (fresh same)
    obtain ⟨s, run, renamed⟩ := repoint_eq f (Ne.symm same) (by rwa [free])
    rw [free] at renamed
    rw [if_neg same, run]
    cases o with
    | none => exact ⟨renamed.carries f, renamed.owner?_eq⟩
    | some o => exact ⟨renamed.carries f, renamed.owner?_eq⟩

end Pool

end Tlsf
