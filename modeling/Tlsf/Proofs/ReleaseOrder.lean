import Mathlib.Data.List.Perm.Basic
import Tlsf.Proofs.Canonical
import Tlsf.Proofs.Owners

/-!
The order of releases. A host that gives back several blocks one by one may do so
in any order: each release goes through, and in the end the same blocks are used
and the registry and the counters are the same, which leaves only the order of the
free lists open. On the way, the pools of two orders have little in common, since
blocks join with their neighbours as these become free.
-/

namespace Tlsf

open Dimensions

/-! The registry -/

namespace Registry

variable {r : Registry} {p q : Pointer}

/-- Children end below the nearest ancestor that stays, whoever is dropped first. -/
theorem unregister_comm (f : r.Forest) (p q : Pointer) :
    (r.unregister p).unregister q = (r.unregister q).unregister p := by
  have fp := f.unregister p
  have fq := f.unregister q
  refine (fp.unregister q).ext (fq.unregister p) (fun x => ?_) fun x => ?_
  · rw [unregister_owner? fp, unregister_owner? fq, unregister_owner? f, unregister_owner? f]
    by_cases isp : x = p <;> by_cases isq : x = q <;> simp [isp, isq]
  · have selfp := f.parent?_ne p
    have selfq := f.parent?_ne q
    have apart := f.parent?_asymm (p := p) (q := q)
    rw [unregister_parent? fp, unregister_parent? fq]
    simp only [unregister_parent? f]
    grind

theorem foldl_unregister_perm {ptrs ptrs' : List Pointer} (f : r.Forest) (perm : ptrs.Perm ptrs') :
    ptrs.foldl unregister r = ptrs'.foldl unregister r := by
  induction perm generalizing r with
  | nil => rfl
  | cons p perm ih => exact ih (f.unregister p)
  | swap p q rest =>
    simp only [List.foldl_cons]
    rw [unregister_comm f]
  | trans first second ih ih' => exact (ih f).trans (ih' f)

end Registry

/-! The counters -/

theorem CallCounts.of_countSuccess {c c' : CallCounts} (run : c.countSuccess = .ok c') :
    c' = c.addSuccess := by
  obtain ⟨counted, idle, run⟩ := Checked.of_bind run
  obtain ⟨calls, added, idle⟩ := Checked.of_bind idle
  obtain ⟨succeeded, added', run⟩ := Checked.of_bind run
  cases idle
  cases run
  rw [Checked.of_add added, Checked.of_add added']
  rfl

namespace Tally

variable {t t' t'' t₁ t₂ : Tally} {n k : Nat} {used used' : List Cell}

structure Releases (t t' : Tally) (k : Nat) : Prop where
  falls : t.Falls t'
  free : t'.free = CallCounts.addSuccess^[k] t.free

theorem freed_releases {payload : Nat} (peaked : t.Peaked) (run : t.freed payload = .ok t') :
    t.Releases t' 1 := by
  refine ⟨freed_falls peaked run, ?_⟩
  obtain ⟨calls, counted, run⟩ := Checked.of_bind run
  obtain ⟨active, -, run⟩ := Checked.of_bind run
  obtain ⟨payload, -, run⟩ := Checked.of_bind run
  cases run
  exact CallCounts.of_countSuccess counted

theorem Releases.trans {m : Nat} (first : t.Releases t' k) (second : t'.Releases t'' m) :
    t.Releases t'' (m + k) := by
  refine ⟨first.falls.trans second.falls, ?_⟩
  rw [second.free, first.free, Function.iterate_add_apply]

theorem Releases.unique (left : t.Releases t₁ k) (right : t.Releases t₂ k)
    (counts₁ : t₁.Counts n used) (counts₂ : t₂.Counts n used') (same : used.Perm used') :
    t₁ = t₂ := by
  have active : t₁.active = t₂.active := by
    rw [counts₁.active, counts₂.active, same.length_eq]
  have payload : t₁.usedPayload = t₂.usedPayload := by
    rw [counts₁.payload, counts₂.payload, payloadSum_perm same]
  have peakActive := left.falls.peakActive.trans right.falls.peakActive.symm
  have peakUsedPayload := left.falls.peakUsedPayload.trans right.falls.peakUsedPayload.symm
  have allocate := left.falls.allocate.trans right.falls.allocate.symm
  have free := left.free.trans right.free.symm
  have reallocate := left.falls.reallocate.trans right.falls.reallocate.symm
  have resizes := left.falls.resizes.trans right.falls.resizes.symm
  obtain ⟨_, _, _, _, _, _, _, _⟩ := t₁
  obtain ⟨_, _, _, _, _, _, _, _⟩ := t₂
  simp only at active payload peakActive peakUsedPayload allocate free reallocate resizes
  rw [active, payload, peakActive, peakUsedPayload, allocate, free, reallocate, resizes]

end Tally

/-! Releases one by one -/

namespace Pool

def ReleasesTo (p : Pool) : List Pointer → Pool → Prop
  | [], p' => p' = p
  | ptr :: rest, p' => ∃ p₁, p.free ptr = .ok (.ok true, p₁) ∧ p₁.ReleasesTo rest p'

variable {p p' : Pool} {n : Nat} {cells gone others : List Cell} {lists : SizeClass → List Nat}
  {ptr : Pointer} {ptrs : List Pointer}

/-- What is left after the release of some pointers, when the blocks `others` stay. -/
structure Remains (p p' : Pool) (n : Nat) (ptrs : List Pointer) (others : List Cell) : Prop where
  sound : ∃ cells lists, p'.Sound n cells lists ∧ (usedCells cells).Perm others
  layout : p'.layout = p.layout
  registry : p'.registry = p.registry.map (ptrs.foldl Registry.unregister)
  tally : p.tally.Releases p'.tally ptrs.length

theorem free_tells (peaked : p.tally.Peaked) (run : p.free ptr = .ok (.ok true, p')) :
    p'.registry = p.registry.map (·.unregister ptr) ∧ p.tally.Releases p'.tally 1 := by
  cases free_ends run with
  | released nonnull counted => exact ⟨rfl, Tally.freed_releases peaked counted⟩

theorem Sound.releases (sound : p.Sound n cells lists) (bound : n + 1 < UInt64.size)
    (peaked : p.tally.Peaked) (perm : (usedCells cells).Perm (gone ++ others)) :
    ∃ p', p.ReleasesTo (gone.map Cell.pointer) p' ∧
      p.Remains p' n (gone.map Cell.pointer) others := by
  -- what a released block is joined with is free, so the blocks still to go are as they were
  induction gone generalizing p cells lists with
  | nil =>
    exact ⟨p, rfl, ⟨cells, lists, sound, perm⟩, rfl, by simp, ⟨.refl _, rfl⟩⟩
  | cons x gone ih =>
    have mem : x ∈ usedCells cells := perm.symm.subset (List.mem_cons_self ..)
    obtain ⟨p₁, run₁, cells₁, lists₁, others₁, sound₁, old₁, new₁, passes₁⟩ :=
      free_live sound bound mem
    obtain ⟨registry₁, tally₁⟩ := free_tells peaked run₁
    have rest : (usedCells cells₁).Perm (gone ++ others) :=
      new₁.trans (old₁.symm.trans perm).cons_inv
    obtain ⟨p', run, remains⟩ := ih sound₁ (tally₁.falls.peaked peaked) rest
    refine ⟨p', ⟨p₁, run₁, run⟩, remains.sound, remains.layout.trans passes₁.layout, ?_,
      tally₁.trans remains.tally⟩
    rw [remains.registry, registry₁, Option.map_map]
    rfl

theorem Remains.pool_matches {p₁ p₂ : Pool} {ptrs' : List Pointer} (sound : p.Sound n cells lists)
    (left : p.Remains p₁ n ptrs others) (right : p.Remains p₂ n ptrs' others)
    (perm : ptrs.Perm ptrs') : ∃ cells' lists', p₁.Sound n cells' lists' ∧
      (usedCells cells').Perm others ∧ p₁.Matches p₂ (cells'.map Cell.info) := by
  obtain ⟨cells₁, lists₁, sound₁, used₁⟩ := left.sound
  obtain ⟨cells₂, lists₂, sound₂, used₂⟩ := right.sound
  have same : (usedCells cells₁).Perm (usedCells cells₂) := used₁.trans used₂.symm
  have registry : p₁.registry = p₂.registry := by
    rw [left.registry, right.registry]
    cases tracked : p.registry with
    | none => rfl
    | some r => exact congrArg some (Registry.foldl_unregister_perm (sound.forest r tracked) perm)
  have counted := perm.length_eq ▸ left.tally
  have tally := counted.unique right.tally sound₁.counts sound₂.counts same
  exact ⟨cells₁, lists₁, sound₁, used₁, sound₁.pool_matches sound₂
    (right.layout.trans left.layout.symm) same registry tally⟩

theorem Sound.walk_unused (sound : p.Sound n cells lists) (unused : usedCells cells = [])
    (usable : p.layout.firstBlock + headerSize ≤ p.layout.sentinel) :
    cells.map Cell.info = [⟨pointerOf p.layout.firstBlock, p.usableSize, true⟩] := by
  simp only [headerSize] at usable
  obtain ⟨x, rfl, start, stop, free⟩ :=
    sound.holds.tiles.eq_singleton sound.stable.settled (by omega) unused
  rw [x.stop_eq] at stop
  have size : x.size = p.usableSize := by
    simp only [usableSize, headerSize]
    omega
  rw [List.map_singleton, Cell.info, Cell.pointer, start, size, (Cell.isFree_iff x).mpr free]

end Pool

namespace Session

variable {s : Session}

theorem Reachable.peaked (reach : s.Reachable) : s.pool.tally.Peaked := by
  obtain ⟨n, few, b, k, p, calls, small, proper, built, rfl, run⟩ := reach
  have limit : UInt64.size = 18446744073709551616 := rfl
  obtain ⟨x, lists, fresh, start, -⟩ := Construction.opens small proper built
  exact (start.peaks fresh calls (by omega) run).1

theorem Reachable.granted_iff {blocks : List BlockInfo} (reach : s.Reachable)
    (walk : s.pool.walk = .ok blocks) (q : Pointer) :
    s.ledger q ≠ none ↔ ∃ i ∈ blocks, i.isFree = false ∧ i.pointer = q := by
  obtain ⟨n, cells, lists, -, sound⟩ := reach.sound
  obtain rfl : cells.map Cell.info = blocks := Except.ok.inj (sound.pool.walk.symm.trans walk)
  rw [sound.book.granted_iff q]
  constructor
  · rintro ⟨x, mem, same⟩
    obtain ⟨memx, used⟩ := mem_usedCells.mp mem
    exact ⟨x.info, List.mem_map_of_mem memx, Cell.isFree_of_used used, same⟩
  · rintro ⟨i, mem, used, same⟩
    obtain ⟨x, memx, rfl⟩ := List.mem_map.mp mem
    refine ⟨x, mem_usedCells.mpr ⟨memx, ?_⟩, same⟩
    by_contra free
    exact Bool.false_ne_true (used.symm.trans ((Cell.isFree_iff x).mpr free))

/-- Granted pointers can be released in any two orders, and both leave the same pool up to the order
of its free lists: a single free block if no other pointer was granted. -/
theorem releases_commute (reach : s.Reachable) {ptrs ptrs' : List Pointer} (distinct : ptrs.Nodup)
    (granted : ∀ q ∈ ptrs, s.ledger q ≠ none) (perm : ptrs'.Perm ptrs) :
    ∃ p₁ p₂ blocks, s.pool.ReleasesTo ptrs p₁ ∧ s.pool.ReleasesTo ptrs' p₂ ∧
      p₁.Matches p₂ blocks ∧
      ((∀ q, s.ledger q ≠ none → q ∈ ptrs) →
        blocks = [⟨Pool.pointerOf s.pool.layout.firstBlock, s.pool.usableSize, true⟩]) := by
  obtain ⟨n, cells, lists, bound, sound⟩ := reach.sound
  have pool := sound.pool
  have live : ∀ q ∈ ptrs, ∃ x ∈ usedCells cells, x.pointer = q :=
    fun q mem => (sound.book.granted_iff q).mp (granted q mem)
  obtain ⟨gone, others, rfl, used⟩ := Pool.exists_blocks distinct live
  -- the other order of the pointers is one of their blocks
  obtain ⟨gone', rfl, permGone⟩ : ∃ gone' : List Cell, ptrs' = gone'.map Cell.pointer ∧
      gone'.Perm gone := by
    have comp : Relation.Comp (· = List.map Cell.pointer ·) List.Perm ptrs' gone := by
      rw [List.eq_map_comp_perm]
      exact perm
    exact comp
  have used' : (usedCells cells).Perm (gone' ++ others) :=
    used.trans (permGone.symm.append_right others)
  obtain ⟨p₁, run₁, left⟩ := pool.releases bound reach.peaked used
  obtain ⟨p₂, run₂, right⟩ := pool.releases bound reach.peaked used'
  obtain ⟨cells₁, lists₁, sound₁, used₁, matched⟩ := left.pool_matches pool right perm.symm
  refine ⟨p₁, p₂, _, run₁, run₂, matched, fun all => ?_⟩
  have unused : others = [] := by
    refine List.eq_nil_iff_forall_not_mem.mpr fun x other => ?_
    have mem : x ∈ usedCells cells := used.symm.subset (List.mem_append_right gone other)
    have entry := (sound.book.granted_iff x.pointer).mpr ⟨x, mem, rfl⟩
    obtain ⟨y, back, same⟩ := List.mem_map.mp (all x.pointer entry)
    have inside : y ∈ usedCells cells := used.symm.subset (List.mem_append_left others back)
    obtain rfl := pool.pointer_injective inside mem same
    exact (List.nodup_append.mp (used.nodup pool.used_nodup)).2.2 y back y other rfl
  rw [unused] at used₁
  have usable := reach.usable
  rw [← left.layout] at usable
  rw [sound₁.walk_unused used₁.eq_nil usable, Pool.usableSize, Pool.usableSize, left.layout]

theorem releases_commute_sample : ∃ s p₁ p₂,
    (Construction.region 0 none (some .empty)).session? (.filled 256 0x3C)
        [.allocateOwned 24 ⟨7⟩ none, .allocateOwned 20 ⟨8⟩ (some ⟨8⟩),
          .allocateOwned 40 ⟨9⟩ (some ⟨40⟩)] = some s ∧
      s.pool.ReleasesTo [⟨40⟩, ⟨8⟩, ⟨72⟩] p₁ ∧ s.pool.ReleasesTo [⟨72⟩, ⟨40⟩, ⟨8⟩] p₂ ∧
      p₁.Matches p₂ [⟨⟨8⟩, 240, true⟩] := by
  let k := Construction.region 0 none (some .empty)
  let blocks : List BlockInfo := [⟨⟨8⟩, 24, false⟩, ⟨⟨40⟩, 24, false⟩, ⟨⟨72⟩, 40, false⟩, ⟨⟨120⟩, 128, true⟩]
  have made : ((k.session? (.filled 256 0x3C) [.allocateOwned 24 ⟨7⟩ none,
      .allocateOwned 20 ⟨8⟩ (some ⟨8⟩), .allocateOwned 40 ⟨9⟩ (some ⟨40⟩)]).map fun s =>
        (s.pool.walk.toOption, s.pool.layout.firstBlock, s.pool.usableSize)) =
      some (some blocks, 0, 240) := by decide +kernel
  obtain ⟨s, session, entries⟩ := Option.map_eq_some_iff.mp made
  obtain ⟨walk, place⟩ := Prod.mk.inj entries
  obtain ⟨first, size⟩ := Prod.mk.inj place
  have small : (Buffer.filled 256 0x3C).size < 2 ^ 31 := by decide +kernel
  have proper : k.Proper := Construction.proper_empty 0 none
  have reach := reachable_of_session? small proper (by decide) session
  have granted := reach.granted_iff (Checked.of_toOption walk)
  have distinct : [(⟨40⟩ : Pointer), ⟨8⟩, ⟨72⟩].Nodup := by decide
  have perm : [(⟨72⟩ : Pointer), ⟨40⟩, ⟨8⟩].Perm [⟨40⟩, ⟨8⟩, ⟨72⟩] := by decide
  have live : ∀ q ∈ [(⟨40⟩ : Pointer), ⟨8⟩, ⟨72⟩], ∃ i ∈ blocks, i.isFree = false ∧ i.pointer = q := by
    decide
  have others : ∀ i ∈ blocks, i.isFree = false → i.pointer ∈ [(⟨40⟩ : Pointer), ⟨8⟩, ⟨72⟩] := by decide
  obtain ⟨p₁, p₂, rest, run₁, run₂, matched, single⟩ :=
    releases_commute reach distinct (fun q mem => (granted q).mpr (live q mem)) perm
  have one := single fun q entry => by
    obtain ⟨i, mem, used, rfl⟩ := (granted q).mp entry
    exact others i mem used
  rw [first, size] at one
  exact ⟨s, p₁, p₂, session, run₁, run₂, one ▸ matched⟩

end Session

end Tlsf
