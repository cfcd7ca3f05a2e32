import Tlsf.Proofs.ReleaseOrder

/-!
Renaming a pointer. `renamed` gives a pointer a new name wherever a registry mentions
it: as a key, as a parent, among children and among the roots. `repoint` writes only
to the places that are linked to the pointer, once the new name has been dropped, and
that comes to the same, also where the dropped pointer was a relative of the other.
-/

namespace Tlsf.Registry

variable {r s : Registry} {old new x y : Pointer} {n m : Registration}

def called (old new x : Pointer) : Pointer := if x = old then new else x

def callAll (old new : Pointer) (ptrs : Std.ExtTreeSet Pointer) : Std.ExtTreeSet Pointer :=
  .ofList (ptrs.toList.map (called old new))

def relink (old new : Pointer) (n : Registration) : Registration where
  owner := n.owner
  parent := n.parent.map (called old new)
  children := callAll old new n.children

def renamed (r : Registry) (old new : Pointer) : Registry where
  nodes := .ofList (r.nodes.toList.map fun (x, n) => (called old new x, relink old new n))
  roots := callAll old new r.roots

/-! Names -/

theorem called_old : called old new old = new := if_pos rfl

theorem called_other (other : x ≠ old) : called old new x = x := if_neg other

theorem called_injective (freshx : x ≠ new) (freshy : y ≠ new)
    (same : called old new x = called old new y) : x = y := by
  unfold called at same
  split at same <;> split at same <;> simp_all

theorem mem_callAll {ptrs : Std.ExtTreeSet Pointer} :
    x ∈ callAll old new ptrs ↔ ∃ y ∈ ptrs, called old new y = x := by
  rw [callAll, Std.ExtTreeSet.mem_ofList, List.contains_iff_mem, List.mem_map]
  simp only [Std.ExtTreeSet.mem_toList]

theorem callAll_of_mem {ptrs : Std.ExtTreeSet Pointer} (mem : old ∈ ptrs) :
    callAll old new ptrs = (ptrs.erase old).insert new := by
  refine Std.ExtTreeSet.ext_mem fun x => ?_
  simp only [mem_callAll, Std.ExtTreeSet.mem_insert, Std.ExtTreeSet.mem_erase, Std.compare_eq_iff_eq,
    ne_eq, called]
  grind

theorem callAll_of_not_mem {ptrs : Std.ExtTreeSet Pointer} (out : old ∉ ptrs) :
    callAll old new ptrs = ptrs := by
  refine Std.ExtTreeSet.ext_mem fun x => ?_
  simp only [mem_callAll, called]
  grind

/-! Nodes -/

theorem renamed_called (fresh : r.node? new = none) (node : r.node? x = some n) :
    (r.renamed old new).node? (called old new x) = some (relink old new n) := by
  have unused : ∀ {y m}, (y, m) ∈ r.nodes.toList → y ≠ new := by
    rintro y m mem rfl
    rw [Std.ExtTreeMap.mem_toList_iff_getElem?_eq_some] at mem
    exact absurd fresh (by simp [node?, mem])
  refine Std.ExtTreeMap.getElem?_ofList_of_mem (Std.compare_eq_iff_eq.mpr rfl) ?_
    (List.mem_map.mpr ⟨(x, n), Std.ExtTreeMap.mem_toList_iff_getElem?_eq_some.mpr node, rfl⟩)
  refine List.pairwise_map.mpr (r.nodes.distinct_keys_toList.imp_of_mem fun mema memb apart same => ?_)
  exact apart (Std.compare_eq_iff_eq.mpr
    (called_injective (unused mema) (unused memb) (Std.compare_eq_iff_eq.mp same)))

theorem renamed_uncalled (none : ∀ y m, r.node? y = some m → called old new y ≠ x) :
    (r.renamed old new).node? x = .none := by
  refine Std.ExtTreeMap.getElem?_ofList_of_contains_eq_false ?_
  rw [← Bool.not_eq_true, List.contains_iff_mem, List.map_map, List.mem_map]
  rintro ⟨⟨y, m⟩, mem, same⟩
  exact none y m (Std.ExtTreeMap.mem_toList_iff_getElem?_eq_some.mp mem) same

theorem relink_self (f : r.Forest) (node : r.node? old = some n) : relink old new n = n := by
  have parent : n.parent.map (called old new) = n.parent := by
    cases up : n.parent with
    | none => rfl
    | some q =>
      have other : q ≠ old := fun same => f.parent_ne node (same ▸ up)
      rw [Option.map_some, called_other other]
  have apart : old ∉ n.children := fun child => f.parent?_ne old ((f.children old n node old).mp child)
  rw [relink, parent, callAll_of_not_mem apart]

theorem relink_other (f : r.Forest) (node : r.node? old = some n) (other : r.node? x = some m) :
    relink old new m = rename old new n x m := by
  have above := f.children old n node x
  have below := f.children x m other old
  rw [parent?_eq other] at above
  rw [parent?_eq node] at below
  have parent : m.parent.map (called old new) = if x ∈ n.children then some new else m.parent := by
    by_cases child : x ∈ n.children
    · rw [if_pos child, above.mp child, Option.map_some, called_old]
    · rw [if_neg child]
      cases up : m.parent with
      | none => rfl
      | some q =>
        have away : q ≠ old := fun same => child (above.mpr (same ▸ up))
        rw [Option.map_some, called_other away]
  have children : callAll old new m.children =
      if n.parent = some x then (m.children.erase old).insert new else m.children := by
    by_cases heir : n.parent = some x
    · rw [if_pos heir, callAll_of_mem (below.mpr heir)]
    · rw [if_neg heir, callAll_of_not_mem fun mem => heir (below.mp mem)]
  rw [relink, rename, parent, children]

namespace Renamed

theorem renamed_node? (ren : Renamed r s old new n) (f : r.Forest) (x : Pointer) :
    (r.renamed old new).node? x = s.node? x := by
  rw [ren.nodes]
  by_cases here : x = new
  · have moved : (r.renamed old new).node? (called old new old) = some (relink old new n) :=
      renamed_called ren.fresh ren.node
    rw [called_old, relink_self f ren.node] at moved
    rw [if_pos here, here, moved]
  · rw [if_neg here]
    by_cases gone : x = old
    · rw [if_pos gone, gone]
      refine renamed_uncalled fun y m _ same => ?_
      by_cases away : y = old
      · rw [away, called_old] at same
        exact ren.other same.symm
      · rw [called_other away] at same
        exact away same
    · rw [if_neg gone]
      cases node : r.node? x with
      | none =>
        refine renamed_uncalled fun y m found same => ?_
        by_cases away : y = old
        · rw [away, called_old] at same
          exact here same.symm
        · rw [called_other away] at same
          rw [same, node] at found
          cases found
      | some m =>
        have kept : (r.renamed old new).node? (called old new x) = some (relink old new m) :=
          renamed_called ren.fresh node
        rw [called_other gone, relink_other f ren.node node] at kept
        rw [kept, Option.map_some]

theorem renamed_roots (ren : Renamed r s old new n) (f : r.Forest) :
    (r.renamed old new).roots = s.roots := by
  have top := Registry.parent?_eq ren.node
  refine Std.ExtTreeSet.ext_mem fun x => ?_
  change x ∈ callAll old new r.roots ↔ _
  rw [ren.roots]
  by_cases root : n.parent = none
  · have mem : old ∈ r.roots := (f.roots old).mpr ⟨⟨n, ren.node⟩, top.trans root⟩
    rw [callAll_of_mem mem, if_pos root, Std.ExtTreeSet.mem_insert, Std.ExtTreeSet.mem_erase,
      Std.compare_eq_iff_eq, ne_eq, Std.compare_eq_iff_eq, eq_comm (a := new), eq_comm (a := old)]
    grind
  · have out : old ∉ r.roots := fun mem => root (top.symm.trans ((f.roots old).mp mem).2)
    rw [callAll_of_not_mem out, if_neg root]

/-- To edit the links of a pointer is to rename it throughout. -/
theorem eq_renamed (ren : Renamed r s old new n) (f : r.Forest) : s = r.renamed old new := by
  have nodes : (r.renamed old new).nodes = s.nodes :=
    Std.ExtTreeMap.ext_getElem? (ren.renamed_node? f)
  have roots := ren.renamed_roots f
  obtain ⟨_, _⟩ := s
  cases nodes
  cases roots
  rfl

theorem back {t : Registry} (ren : Renamed r s old new n) (f : r.Forest)
    (again : Renamed s t new old m) : t = r := by
  have fs := ren.forest f
  have other := ren.other
  have fresh := ren.fresh
  refine (again.forest fs).ext f (fun x => ?_) fun x => ?_
  · have unowned := owner?_eq_none_iff.mpr fresh
    rw [again.owner?_eq]
    simp only [ren.owner?_eq]
    grind
  · have alone := parent?_untracked fresh
    have unnamed := ren.unnamed f x
    have self := f.parent?_ne old
    rw [again.parent?_eq fs]
    simp only [ren.parent?_eq f]
    grind

end Renamed

/-! What a host sees -/

/-- Repointing a tracked pointer renames it, once the new name is dropped; if the new name was not
in use, repointing it back undoes that. -/
structure RepointsTo (r : Registry) (old new : Pointer) : Prop where
  renames : r.repoint old new = (true, (r.unregister new).renamed old new)
  returns : r.contains new = false → (r.repoint old new).2.repoint new old = (true, r)

theorem Forest.repointsTo (f : r.Forest) (other : new ≠ old) (tracked : r.contains old = true) :
    r.RepointsTo old new := by
  have f' := f.unregister new
  obtain ⟨o, owned⟩ := contains_iff_owner?.mp tracked
  have owned' : (r.unregister new).owner? old = some o := by
    rw [unregister_owner? f, if_neg (Ne.symm other), owned]
  obtain ⟨n, node⟩ := contains_iff.mp (contains_iff_owner?.mpr ⟨o, owned'⟩)
  obtain ⟨s, run, ren⟩ := repoint_eq f (Ne.symm other) node
  refine ⟨by rw [run, ren.eq_renamed f'], fun unused => ?_⟩
  have fresh : r.node? new = none := by
    rw [← Option.not_isSome_iff_eq_none, Option.isSome_iff_exists, ← contains_iff, unused]
    exact Bool.false_ne_true
  rw [unregister_untracked fresh] at ren
  have gone : s.node? old = none := by rw [ren.nodes, if_neg ren.other, if_pos rfl]
  have moved : (s.unregister old).node? new = some n := by
    rw [unregister_untracked gone, ren.nodes, if_pos rfl]
  obtain ⟨t, run', again⟩ := repoint_eq (ren.forest f) other moved
  rw [unregister_untracked gone] at again
  rw [run, run', ren.back f again]

theorem repoint_renames (edits : List Edit) {old new : Pointer} (other : new ≠ old)
    (tracked : (empty.edited edits).contains old = true) :
    (empty.edited edits).RepointsTo old new :=
  (forest_empty.edited edits).repointsTo other tracked

theorem repoint_renames_sample : ∃ r s, r = empty.edited [.register ⟨8⟩ ⟨7⟩ none,
      .register ⟨40⟩ ⟨8⟩ (some ⟨8⟩), .register ⟨80⟩ ⟨9⟩ (some ⟨40⟩)] ∧
    s = (r.unregister ⟨8⟩).renamed ⟨40⟩ ⟨8⟩ ∧ r.repoint ⟨40⟩ ⟨8⟩ = (true, s) ∧
    (s.allocations = [(⟨8⟩, ⟨8⟩), (⟨80⟩, ⟨9⟩)] ∧ s.rootPointers = [⟨8⟩] ∧ s.children ⟨8⟩ = [⟨80⟩]) ∧
    (r.repoint ⟨40⟩ ⟨200⟩).2.repoint ⟨200⟩ ⟨40⟩ = (true, r) := by
  let edits : List Edit := [.register ⟨8⟩ ⟨7⟩ none, .register ⟨40⟩ ⟨8⟩ (some ⟨8⟩),
    .register ⟨80⟩ ⟨9⟩ (some ⟨40⟩)]
  have tracked : (empty.edited edits).contains ⟨40⟩ = true := by decide +kernel
  have unused : (empty.edited edits).contains ⟨200⟩ = false := by decide +kernel
  have renamed := repoint_renames edits (show (⟨8⟩ : Pointer) ≠ ⟨40⟩ by decide) tracked
  have returned := repoint_renames edits (show (⟨200⟩ : Pointer) ≠ ⟨40⟩ by decide) tracked
  exact ⟨_, _, rfl, rfl, renamed.renames, by decide +kernel, returned.returns unused⟩

end Tlsf.Registry
