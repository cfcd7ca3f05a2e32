import Tlsf.Proofs.Accounting
import Tlsf.Proofs.Twins

/-!
What determines a pool. Between calls no two free blocks are neighbours, so the
used blocks leave only one way to tile the pool; the tiling in turn leaves each
free list nothing but its order, and a forest is told by the owners and parents
of its pointers. Pools that agree in these things agree in all that a host can
ask for, however they came about.
-/

namespace Tlsf

open Dimensions

/-! The blocks -/

namespace Tiles

variable {lo hi : Nat} {x y : Cell} {cells cells' rest rest' : List Cell}

theorem stop_le (tiles : Tiles lo (x :: rest) hi) (settled : Settled (x :: rest))
    (free : x.status ≠ .used) (tiles' : Tiles lo (y :: rest') hi)
    (used : usedCells rest ⊆ usedCells rest') : y.stop ≤ x.stop := by
  have whole : Settled ([] ++ x :: rest) := settled
  have last := tiles.2.2
  have behind := tiles'.2.2
  cases rest with
  | nil =>
    have stop : x.stop = hi := last
    rw [stop]
    exact behind.le
  | cons z rest =>
    have usedz : z.status = .used := (whole.neighbours free).2 z rfl
    have memz : z ∈ usedCells (z :: rest) := mem_usedCells.mpr ⟨List.mem_cons_self .., usedz⟩
    have start : z.header = x.stop := last.1
    rw [← start]
    exact (behind.bounds (mem_usedCells.mp (used memz)).1).1

theorem eq_nil (tiles : Tiles lo [] hi) (tiles' : Tiles lo cells hi) : cells = [] := by
  cases cells with
  | nil => rfl
  | cons y rest =>
    have stop : lo = hi := tiles
    have start := tiles'.1
    have inside := tiles'.2.2.le
    rw [y.stop_eq] at inside
    omega

theorem eq_of_used (tiles : Tiles lo cells hi) (settled : Settled cells) (tiles' : Tiles lo cells' hi)
    (settled' : Settled cells') (same : (usedCells cells).Perm (usedCells cells')) :
    cells = cells' := by
  induction cells generalizing lo cells' with
  | nil => exact (tiles.eq_nil tiles').symm
  | cons x rest ih =>
    cases cells' with
    | nil => exact tiles'.eq_nil tiles
    | cons y rest' =>
      have whole : Settled ([] ++ x :: rest) := settled
      have whole' : Settled ([] ++ y :: rest') := settled'
      have header : x.header = y.header := tiles.1.trans tiles'.1.symm
      suffices h : x = y ∧ (usedCells rest).Perm (usedCells rest') by
        obtain ⟨rfl, perm⟩ := h
        rw [ih tiles.2.2 whole.behind tiles'.2.2 whole'.behind perm]
      by_cases used : x.status = .used
      · rw [usedCells_used used] at same
        have mem := mem_usedCells.mp (same.subset (List.mem_cons_self ..))
        obtain rfl := tiles'.eq_of_header_eq mem.1 (List.mem_cons_self ..) header
        rw [usedCells_used used] at same
        exact ⟨rfl, same.cons_inv⟩
      · by_cases used' : y.status = .used
        · rw [usedCells_used used'] at same
          have mem := mem_usedCells.mp (same.symm.subset (List.mem_cons_self ..))
          obtain rfl := tiles.eq_of_header_eq mem.1 (List.mem_cons_self ..) header.symm
          exact absurd used' used
        · -- two free blocks in one place reach up to the same used one
          rw [usedCells_free used, usedCells_free used'] at same
          refine ⟨?_, same⟩
          have stop : x.stop = y.stop := Nat.le_antisymm
            (tiles'.stop_le settled' used' tiles same.symm.subset)
            (tiles.stop_le settled used tiles' same.subset)
          have filed := (Cell.used_or_filed (settled.filed x (List.mem_cons_self ..))).resolve_left used
          have filed' :=
            (Cell.used_or_filed (settled'.filed y (List.mem_cons_self ..))).resolve_left used'
          rw [x.stop_eq, y.stop_eq] at stop
          obtain ⟨h, s, st⟩ := x
          obtain ⟨h', s', st'⟩ := y
          simp only at header filed filed' stop
          subst header filed filed'
          obtain rfl : s = s' := by omega
          rfl

theorem eq_singleton (tiles : Tiles lo cells hi) (settled : Settled cells) (room : lo < hi)
    (unused : usedCells cells = []) : ∃ x, cells = [x] ∧ x.header = lo ∧ x.stop = hi ∧
      x.status ≠ .used := by
  cases cells with
  | nil =>
    have stop : lo = hi := tiles
    omega
  | cons x rest =>
    have whole : Settled ([] ++ x :: rest) := settled
    have free : ∀ z ∈ x :: rest, z.status ≠ .used := by
      intro z mem used
      have memz : z ∈ usedCells (x :: rest) := mem_usedCells.mpr ⟨mem, used⟩
      rw [unused] at memz
      cases memz
    have freex := free x (List.mem_cons_self ..)
    cases rest with
    | nil => exact ⟨x, rfl, tiles.1, tiles.2.2, freex⟩
    | cons z rest =>
      exact absurd ((whole.neighbours freex).2 z rfl) (free z (by simp))

end Tiles

/-! The registry -/

namespace Registry

theorem Forest.ext {r r' : Registry} (f : r.Forest) (f' : r'.Forest)
    (owner : ∀ x, r.owner? x = r'.owner? x) (parent : ∀ x, r.parent? x = r'.parent? x) : r = r' := by
  have node : ∀ x, r.node? x = r'.node? x := by
    intro x
    have owners := owner x
    have parents := parent x
    unfold owner? at owners
    unfold parent? at parents
    cases here : r.node? x with
    | none =>
      rw [here, Option.map_none] at owners
      exact (Option.map_eq_none_iff.mp owners.symm).symm
    | some n =>
      rw [here, Option.map_some] at owners
      rw [here, Option.bind_some] at parents
      refine (f'.node?_eq owners.symm parents.symm fun c => ?_).symm
      rw [← parent c, f.children x n here c]
  have nodes : r.nodes = r'.nodes := Std.ExtTreeMap.ext_getElem? node
  have roots : r.roots = r'.roots := by
    refine Std.ExtTreeSet.ext_mem fun x => ?_
    rw [f.roots x, f'.roots x, parent x, node x]
  obtain ⟨_, _⟩ := r
  obtain ⟨_, _⟩ := r'
  cases nodes
  cases roots
  rfl

end Registry

/-! The pool -/

namespace Pool

/-- All that a host sees of two pools, when the free lists need not be in the same order. -/
structure Matches (p p' : Pool) (blocks : List BlockInfo) : Prop where
  walk : p.walk = .ok blocks ∧ p'.walk = .ok blocks
  rows : p.arena.index.rows = p'.arena.index.rows
  slots : p.arena.index.slots = p'.arena.index.slots
  lists : ∃ lists lists', p.Consistent blocks lists ∧ p'.Consistent blocks lists' ∧
    ∀ c, (lists c).Perm (lists' c)
  live : p.arena.live = p'.arena.live
  registry : p.registry = p'.registry
  statistics : ∃ st, p.statistics = .ok st ∧ p'.statistics = .ok st

variable {p p' : Pool} {n n' : Nat} {cells cells' : List Cell} {lists lists' : SizeClass → List Nat}

theorem Sound.pool_matches (sound : p.Sound n cells lists) (sound' : p'.Sound n' cells' lists')
    (layout : p'.layout = p.layout) (same : (usedCells cells).Perm (usedCells cells'))
    (registry : p.registry = p'.registry) (tally : p.tally = p'.tally) :
    p.Matches p' (cells.map Cell.info) := by
  have holds := sound.holds
  have holds' := sound'.holds
  rw [layout] at holds'
  obtain rfl := holds.tiles.eq_of_used sound.stable.settled holds'.tiles sound'.stable.settled same
  have perm := holds.lists_perm holds'
  have empty : ∀ c, lists c = [] ↔ lists' c = [] := by
    intro c
    rw [← List.length_eq_zero_iff, (perm c).length_eq, List.length_eq_zero_iff]
  obtain ⟨rows, slots⟩ := holds.mirror.bitmaps_unique holds'.mirror empty
  refine ⟨⟨sound.walk, sound'.walk⟩, rows, slots, ⟨lists, lists', sound.consistent,
    sound'.consistent, perm⟩, Std.ExtTreeSet.ext_mem fun h => ?_, registry,
    ⟨_, sound.statistics_eq, ?_⟩⟩
  · rw [holds.live h, holds'.live h]
  · rw [sound'.statistics_eq, tally]

end Pool

end Tlsf
