import Tlsf.Proofs.Atomicity
import Tlsf.Proofs.RegistryAgreement

/-!
The release of a subtree. Its pointers are dropped one by one, and each hands its
children to its parent, which for pointers with their whole subtree comes to
nothing: in the end they are gone and their parent has lost one child. The pool
looks at all of them before it releases the first, so that a host either gets the
subtree back or keeps all of it, also if the registry names pointers that were
never granted.
-/

namespace Tlsf

open Dimensions Buffer

namespace Registry

variable {r : Registry} {p q x : Pointer} {ptrs : List Pointer}

/-- The registry `s` is `r` without `p` and what lies below it. -/
structure Pruned (r s : Registry) (p : Pointer) : Prop where
  gone : ∀ x, r.InSubtree p x → s.node? x = none
  kept : ∀ x, ¬ r.InSubtree p x → s.node? x = (r.node? x).map fun n =>
    if r.parent? p = some x then { n with children := n.children.erase p } else n
  roots : s.roots = r.roots.erase p

/-- Dropping pointers along with their children moves no other pointer. -/
theorem foldl_unregister_parent? (f : r.Forest)
    (closed : ∀ x q, r.parent? x = some q → q ∈ ptrs → x ∈ ptrs) (x : Pointer) :
    (ptrs.foldl unregister r).parent? x = if x ∈ ptrs then none else r.parent? x := by
  induction ptrs generalizing r with
  | nil => rfl
  | cons p rest ih =>
    -- a link that is new went by `p` before, so that its lower end is on the list as well
    have closed' : ∀ x q, (r.unregister p).parent? x = some q → q ∈ rest → x ∈ rest := by
      intro x q link mem
      have above := closed x
      simp only [List.mem_cons] at above
      rw [unregister_parent? f] at link
      grind
    have away := closed x p
    rw [List.foldl_cons, ih (f.unregister p) closed', unregister_parent? f]
    simp only [List.mem_cons] at away ⊢
    grind

section Subtree

variable (f : r.Forest) (subtree : ∀ x, x ∈ ptrs ↔ r.InSubtree p x)
include f subtree

theorem subtree_parent? (x : Pointer) :
    (ptrs.foldl unregister r).parent? x = if x ∈ ptrs then none else r.parent? x :=
  foldl_unregister_parent? f (fun x q up mem =>
    (subtree x).mpr (.inr (f.descends_of_parent? up ((subtree q).mp mem)))) x

theorem subtree_child_iff (out : x ∉ ptrs) (c : Pointer) :
    (ptrs.foldl unregister r).parent? c = some x ↔ r.parent? c = some x ∧ c ≠ p := by
  rw [subtree_parent? f subtree]
  by_cases mem : c ∈ ptrs
  · rw [if_pos mem]
    refine iff_of_false (by simp) ?_
    rintro ⟨up, other⟩
    obtain ⟨q, up', within⟩ := f.parent?_of_descends (((subtree c).mp mem).resolve_left other)
    obtain rfl := Option.some.inj (up.symm.trans up')
    exact out ((subtree x).mpr within)
  · have other : c ≠ p := fun same => mem ((subtree c).mpr (.inl same))
    rw [if_neg mem, and_iff_left other]

theorem subtree_node? (out : x ∉ ptrs) :
    (ptrs.foldl unregister r).node? x = (r.node? x).map fun n =>
      if r.parent? p = some x then { n with children := n.children.erase p } else n := by
  have f' := foldl_unregister_forest f ptrs
  have owner := foldl_unregister_owner? f ptrs x
  have parent := subtree_parent? f subtree x
  have child := subtree_child_iff f subtree out
  rw [if_neg out] at owner parent
  cases node : r.node? x with
  | none =>
    rw [owner?_eq_none_iff.mpr node] at owner
    exact owner?_eq_none_iff.mp owner
  | some n =>
    rw [owner?_of_node node] at owner
    rw [parent?_eq node] at parent
    have below := f.children x n node
    rw [Option.map_some]
    by_cases heir : r.parent? p = some x
    · rw [if_pos heir]
      refine f'.node?_eq owner parent fun c => ?_
      rw [child, ← below, Std.ExtTreeSet.mem_erase, ne_eq, ne_eq, Std.compare_eq_iff_eq,
        eq_comm (a := p), and_comm]
    · rw [if_neg heir]
      refine f'.node?_eq owner parent fun c => ?_
      rw [child, ← below, and_iff_left_of_imp]
      rintro mem rfl
      exact heir ((below c).mp mem)

theorem subtree_roots : (ptrs.foldl unregister r).roots = r.roots.erase p := by
  have f' := foldl_unregister_forest f ptrs
  refine Std.ExtTreeSet.ext_mem fun x => ?_
  rw [Std.ExtTreeSet.mem_erase, f'.roots x, f.roots x, ← contains_iff, ← contains_iff,
    contains_iff_owner?, contains_iff_owner?, foldl_unregister_owner? f, subtree_parent? f subtree,
    ne_eq, Std.compare_eq_iff_eq]
  by_cases mem : x ∈ ptrs
  · rw [if_pos mem, if_pos mem]
    refine iff_of_false (by simp) ?_
    rintro ⟨other, -, top⟩
    obtain ⟨q, up, -⟩ := f.parent?_of_descends (((subtree x).mp mem).resolve_left (Ne.symm other))
    rw [top] at up
    cases up
  · have other : p ≠ x := fun same => mem ((subtree x).mpr (.inl same.symm))
    rw [if_neg mem, if_neg mem, and_iff_right other]

theorem subtree_pruned : r.Pruned (ptrs.foldl unregister r) p := by
  refine ⟨fun x within => ?_, fun x out => ?_, subtree_roots f subtree⟩
  · rw [← owner?_eq_none_iff, foldl_unregister_owner? f, if_pos ((subtree x).mpr within)]
  · exact subtree_node? f subtree fun mem => out ((subtree x).mp mem)

end Subtree

end Registry

/-! The pool -/

namespace Pool

def Descends (p : Pool) (ptr q : Pointer) : Prop := ∃ r ∈ p.registry, r.Descends ptr q

def InSubtree (p : Pool) (ptr q : Pointer) : Prop := q = ptr ∨ p.Descends ptr q

variable {p p' : Pool} {n : Nat} {cells : List Cell} {lists : SizeClass → List Nat} {ptr q : Pointer}

theorem Sound.exists_below (sound : p.Sound n cells lists) (ptr : Pointer) :
    ∃ below, p.subtree ptr = below ++ [ptr] ∧ below.Nodup ∧ ∀ q, q ∈ below ↔ p.Descends ptr q := by
  unfold Pool.subtree
  cases tracked : p.registry with
  | none => exact ⟨[], rfl, List.nodup_nil, fun q => by simp [Pool.Descends, tracked]⟩
  | some r =>
    have f := sound.forest r tracked
    refine ⟨r.descendants ptr, rfl, f.descendants_postOrder.nodup f ptr, fun q => ?_⟩
    rw [f.mem_descendants_iff]
    simp [Pool.Descends, tracked]

theorem Sound.mem_subtree_iff (sound : p.Sound n cells lists) :
    q ∈ p.subtree ptr ↔ p.InSubtree ptr q := by
  obtain ⟨below, split, -, mem⟩ := sound.exists_below ptr
  rw [split, List.mem_append, List.mem_singleton, mem, InSubtree, or_comm]

theorem Sound.freeRecursive_registry (sound : p.Sound n cells lists)
    (nonnull : ∀ q ∈ p.subtree ptr, q.isNull = false) {count : Nat}
    (run : p.freeRecursive ptr = .ok (.ok count, p')) :
    Option.Rel (fun r r' => r.Pruned r' ptr) p.registry p'.registry := by
  have whole : Tlsf.nonnull (p.subtree ptr) = p.subtree ptr :=
    List.filter_eq_self.mpr fun q mem => by simp [nonnull q mem]
  rcases freeRecursive_ends run with ⟨null, -, -⟩ | ⟨e, t, failed, -⟩ | ⟨-, run⟩
  · have last := nonnull ptr (sound.mem_subtree_iff.mpr (.inl rfl))
    rw [null] at last
    cases last
  · cases failed
  · rw [freeAll_registry run, whole]
    cases tracked : p.registry with
    | none => exact .none
    | some r =>
      refine .some (Registry.subtree_pruned (sound.forest r tracked) fun x => ?_)
      rw [sound.mem_subtree_iff]
      simp [InSubtree, Registry.InSubtree, Pool.Descends, tracked]

end Pool

/-! What a host sees -/

namespace Session

structure Sheds (s s' : Session) (ptr : Pointer) : Prop where
  live : ∀ q, s'.Live q ↔ s.Live q ∧ ¬ s.pool.InSubtree ptr q
  sizes : ∀ q, ¬ s.pool.InSubtree ptr q → s'.ledger q = s.ledger q
  headers : ∀ h, h ∈ s'.pool.arena.live ↔
    h ∈ s.pool.arena.live ∧ ∀ q, s.pool.InSubtree ptr q → q.offset ≠ h + headerSize
  registry : Option.Rel (fun r r' => r.Pruned r' ptr) s.pool.registry s'.pool.registry

/-- A recursive release of `ptr` releases `ptr` and all that is registered below it, or nothing. -/
structure ReleasesWhole (s : Session) (ptr : Pointer) : Prop where
  refuses : ∀ q, s.pool.InSubtree ptr q → ¬ s.Live q → ∃ v s',
    s.step (.freeRecursive ptr) = .ok (.error (.safety v), s') ∧
      s.pool.FailedTo s'.pool (some .free) ∧ s'.ledger = s.ledger ∧ ∀ q, s'.Live q ↔ s.Live q
  releases : (∀ q, s.pool.InSubtree ptr q → s.Live q) → ∃ (below : List Pointer) (s' : Session),
    below.Nodup ∧ (∀ q, q ∈ below ↔ s.pool.Descends ptr q) ∧
      s.step (.freeRecursive ptr) = .ok (.ok (.count (1 + below.length)), s') ∧ s.Sheds s' ptr

variable {s s' : Session} {n : Nat} {cells : List Cell} {lists : SizeClass → List Nat}
  {ptr q q' : Pointer}

theorem Stands.live_iff_granted (stands : s.Stands n cells lists) (q : Pointer) :
    s.Live q ↔ s.ledger q ≠ none :=
  ⟨And.left, stands.rests.live⟩

theorem Stands.live_iff_block (stands : s.Stands n cells lists) (q : Pointer) :
    s.Live q ↔ ∃ x ∈ usedCells cells, x.pointer = q :=
  (stands.live_iff_granted q).trans (stands.book.granted_iff q)

theorem Stands.mem_live_iff (stands : s.Stands n cells lists) (h : Nat) :
    h ∈ s.pool.arena.live ↔ ∃ q, s.Live q ∧ q.offset = h + headerSize := by
  rw [stands.pool.holds.live h]
  constructor
  · rintro ⟨x, mem, rfl, used⟩
    have block := mem_usedCells.mpr ⟨mem, used⟩
    exact ⟨x.pointer, (stands.live_iff_block _).mpr ⟨x, block, rfl⟩, stands.pool.pointer_offset block⟩
  · rintro ⟨q, live, offset⟩
    obtain ⟨x, block, rfl⟩ := (stands.live_iff_block q).mp live
    obtain ⟨mem, used⟩ := mem_usedCells.mp block
    rw [stands.pool.pointer_offset block] at offset
    exact ⟨x, mem, Nat.add_right_cancel offset, used⟩

theorem Stands.eq_of_offset (stands : s.Stands n cells lists) (live : s.Live q) (live' : s.Live q')
    (same : q.offset = q'.offset) : q = q' := by
  obtain ⟨x, block, rfl⟩ := (stands.live_iff_block q).mp live
  obtain ⟨y, block', rfl⟩ := (stands.live_iff_block q').mp live'
  rw [stands.pool.pointer_offset block, stands.pool.pointer_offset block'] at same
  exact congrArg Pool.pointerOf (Nat.add_right_cancel same)

theorem Stands.sheds {m : Nat} {cells' : List Cell} {lists' : SizeClass → List Nat}
    (stands : s.Stands n cells lists) (stands' : s'.Stands m cells' lists')
    (whole : ∀ q, s.pool.InSubtree ptr q → s.Live q)
    (ledger : s'.ledger = s.ledger.without (s.pool.subtree ptr))
    (registry : Option.Rel (fun r r' => r.Pruned r' ptr) s.pool.registry s'.pool.registry) :
    s.Sheds s' ptr := by
  have live : ∀ q, s'.Live q ↔ s.Live q ∧ ¬ s.pool.InSubtree ptr q := by
    intro q
    rw [stands'.live_iff_granted, stands.live_iff_granted, ledger, Ledger.without,
      ← stands.pool.mem_subtree_iff]
    by_cases mem : q ∈ s.pool.subtree ptr <;> simp [mem]
  refine ⟨live, fun q out => ?_, fun h => ?_, registry⟩
  · rw [ledger, Ledger.without, if_neg (mt stands.pool.mem_subtree_iff.mp out)]
  · rw [stands'.mem_live_iff, stands.mem_live_iff]
    constructor
    · rintro ⟨q, stays, offset⟩
      obtain ⟨liveq, out⟩ := (live q).mp stays
      refine ⟨⟨q, liveq, offset⟩, fun u within same => out ?_⟩
      rwa [stands.eq_of_offset liveq (whole u within) (offset.trans same.symm)]
    · rintro ⟨⟨q, liveq, offset⟩, apart⟩
      exact ⟨q, (live q).mpr ⟨liveq, fun within => apart q within offset⟩, offset⟩

theorem step_freeRecursive {p : Pool} {found : Except Error Nat}
    (run : s.pool.freeRecursive ptr = .ok (found, p)) :
    s.step (.freeRecursive ptr) = .ok (found.map .count,
      ⟨p, s.ledger.after s.pool p (.freeRecursive ptr) (found.map .count)⟩) :=
  step_eq (by rw [Call.run, run]; rfl)

theorem Stands.refuses_subtree (stands : s.Stands n cells lists) (bound : n + 1 < UInt64.size)
    (nonnull : ptr.isNull = false) (within : s.pool.InSubtree ptr q) (dead : ¬ s.Live q) :
    ∃ v s', s.step (.freeRecursive ptr) = .ok (.error (.safety v), s') ∧
      s.pool.FailedTo s'.pool (some .free) ∧ s'.ledger = s.ledger ∧ ∀ q, s'.Live q ↔ s.Live q := by
  obtain ⟨result, s', cells', lists', step, -, stands', -⟩ := stands.step bound (.freeRecursive ptr)
  rcases Pool.freeRecursive_spec stands.pool bound nonnull with
    ⟨v, -, run, -⟩ | ⟨gone, p', -, pointers, cells', lists', others, -, old, -⟩
  · rw [step_freeRecursive run] at step
    obtain ⟨rfl, rfl⟩ := Prod.mk.inj (Except.ok.inj step)
    refine ⟨v, _, step_freeRecursive run, stands.pool.failedTo (.freeRecursive ptr), rfl, fun q => ?_⟩
    rw [stands'.live_iff_granted, stands.live_iff_granted]
    rfl
  · have mem := stands.pool.mem_subtree_iff.mpr within
    rw [← pointers] at mem
    obtain ⟨x, back, rfl⟩ := List.mem_map.mp mem
    exact absurd ((stands.live_iff_block _).mpr
      ⟨x, old.symm.subset (List.mem_append_left others back), rfl⟩) dead

theorem Stands.releases_subtree (stands : s.Stands n cells lists) (bound : n + 1 < UInt64.size)
    (nonnull : ptr.isNull = false) (live : ∀ q, s.pool.InSubtree ptr q → s.Live q) :
    ∃ (below : List Pointer) (s' : Session), below.Nodup ∧
      (∀ q, q ∈ below ↔ s.pool.Descends ptr q) ∧
      s.step (.freeRecursive ptr) = .ok (.ok (.count (1 + below.length)), s') ∧ s.Sheds s' ptr := by
  obtain ⟨result, s', cells', lists', step, -, stands', -⟩ := stands.step bound (.freeRecursive ptr)
  have blocks : ∀ q ∈ s.pool.subtree ptr, ∃ x ∈ usedCells cells, x.pointer = q := fun q mem =>
    (stands.live_iff_block q).mp (live q (stands.pool.mem_subtree_iff.mp mem))
  have proper : ∀ q ∈ s.pool.subtree ptr, q.isNull = false := by
    intro q mem
    obtain ⟨x, block, rfl⟩ := blocks q mem
    exact stands.pool.pointer_ne_null block
  obtain ⟨p', run⟩ := stands.pool.freeRecursive_live bound nonnull blocks
  rw [step_freeRecursive run] at step
  obtain ⟨rfl, rfl⟩ := Prod.mk.inj (Except.ok.inj step)
  obtain ⟨below, split, nodup, mem⟩ := stands.pool.exists_below ptr
  have count : (s.pool.subtree ptr).length = 1 + below.length := by
    rw [split, List.length_append, List.length_singleton, Nat.add_comm]
  have ledger : s.ledger.after s.pool p' (.freeRecursive ptr)
      (.ok (.count (s.pool.subtree ptr).length)) = s.ledger.without (s.pool.subtree ptr) := by
    simp only [Ledger.after, Call.returns, nonnull, Bool.false_eq_true, if_false]
  refine ⟨below, _, nodup, mem, count ▸ step_freeRecursive run, ?_⟩
  exact stands.sheds stands' live ledger (stands.pool.freeRecursive_registry proper run)

/-- A host that releases a subtree gets back all of it or, if some of it is not live, nothing. -/
theorem subtrees_release_whole (reach : s.Reachable) (nonnull : ptr.isNull = false) :
    s.ReleasesWhole ptr := by
  obtain ⟨n, cells, lists, bound, sound⟩ := reach.sound
  exact ⟨fun q within dead => sound.toStands.refuses_subtree bound nonnull within dead,
    fun live => sound.toStands.releases_subtree bound nonnull live⟩

/-- In a chain of three the middle one takes the last one along; the first one also has null below
it, and so the three of them stay. -/
theorem subtrees_release_whole_sample : ∃ s s₁ s₂ v,
    (Construction.region 0 none (some .empty)).session? (.filled 160 0x3C)
        [.allocateOwned 24 ⟨7⟩ none, .allocateOwned 20 ⟨8⟩ (some ⟨8⟩),
          .allocateOwned 40 ⟨9⟩ (some ⟨40⟩), .editRegistry [.register .null ⟨5⟩ (some ⟨8⟩)]] = some s ∧
      (s.step (.freeRecursive ⟨40⟩) = .ok (.ok (.count 2), s₁) ∧ s.Sheds s₁ ⟨40⟩) ∧
      s.step (.freeRecursive ⟨8⟩) = .ok (.error (.safety v), s₂) ∧
        s.pool.FailedTo s₂.pool (some .free) := by
  let k := Construction.region 0 none (some .empty)
  have made : ((k.session? (.filled 160 0x3C) [.allocateOwned 24 ⟨7⟩ none,
      .allocateOwned 20 ⟨8⟩ (some ⟨8⟩), .allocateOwned 40 ⟨9⟩ (some ⟨40⟩),
      .editRegistry [.register .null ⟨5⟩ (some ⟨8⟩)]]).map fun s =>
        ((s.pool.subtree ⟨40⟩, s.pool.subtree ⟨8⟩), (s.ledger ⟨40⟩, s.ledger ⟨72⟩, s.ledger .null),
          (s.step (.freeRecursive ⟨40⟩)).toOption.bind fun taken => taken.1.toOption)) =
      some (([⟨72⟩, ⟨40⟩], [.null, ⟨72⟩, ⟨40⟩, ⟨8⟩]), (some 24, some 40, none),
        some (.count 2)) := by decide +kernel
  obtain ⟨s, session, entries⟩ := Option.map_eq_some_iff.mp made
  simp only [Prod.mk.injEq] at entries
  obtain ⟨⟨chain, below⟩, ⟨middle, last, null⟩, answer⟩ := entries
  have small : (Buffer.filled 160 0x3C).size < 2 ^ 31 := by decide +kernel
  have proper : k.Proper := Construction.proper_empty 0 none
  have reach : s.Reachable := reachable_of_session? small proper (by decide) session
  obtain ⟨n, cells, lists, -, sound⟩ := reach.sound
  have live : ∀ q, s.pool.InSubtree ⟨40⟩ q → s.Live q := by
    intro q within
    rw [← sound.pool.mem_subtree_iff, chain] at within
    rw [sound.live_iff_granted]
    rcases List.mem_pair.mp within with rfl | rfl
    · simp [last]
    · simp [middle]
  have inside : s.pool.InSubtree ⟨8⟩ .null := by simp [← sound.pool.mem_subtree_iff, below]
  have dead : ¬ s.Live .null := by simp [sound.live_iff_granted, null]
  obtain ⟨members, s₁, -, -, step, sheds⟩ := (subtrees_release_whole reach rfl).releases live
  obtain ⟨v, s₂, refused, failed, -⟩ := (subtrees_release_whole reach rfl).refuses .null inside dead
  rw [step] at answer
  have two : 1 + members.length = 2 := Answer.count.inj (Option.some.inj answer)
  rw [two] at step
  exact ⟨s, s₁, s₂, v, session, ⟨step, sheds⟩, refused, failed⟩

end Session

end Tlsf
