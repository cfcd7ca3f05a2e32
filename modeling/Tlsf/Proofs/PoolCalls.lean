import Tlsf.Proofs.PoolView

/-!
The calls of a pool, one statement for each way that a call can end. A call
trades used blocks: `p.Trades p' n cells gone fresh` says that `p'` is sound,
that its used blocks are those of `p` without `gone` and with `fresh`, and that
the payloads of all others are as they were. A call that fails changes nothing
but one pair of counters.
-/

namespace Tlsf.Pool

open Dimensions Buffer

structure Passes (p p' : Pool) (kept : List Cell) : Prop where
  layout : p'.layout = p.layout
  stompFreed : p'.stompFreed = p.stompFreed
  tracks : p'.registry.isSome = p.registry.isSome
  spares : Spares p.buffer p'.buffer p.layout.firstBlock p.layout.sentinel kept

def Trades (p p' : Pool) (n : Nat) (cells gone fresh : List Cell) : Prop :=
  ∃ cells' lists' others, p'.Sound n cells' lists' ∧ (usedCells cells).Perm (gone ++ others) ∧
    (usedCells cells').Perm (fresh ++ others) ∧ p.Passes p' others

variable {p p' p'' : Pool} {n : Nat} {cells : List Cell} {lists : SizeClass → List Nat} {x : Cell}
  {ptr : Pointer}

theorem Passes.refl (p : Pool) (kept : List Cell) : p.Passes p kept :=
  ⟨rfl, rfl, rfl, .refl _ _ _ _⟩

theorem Passes.trans {kept kept' : List Cell} (s : p.Passes p' kept) (s' : p'.Passes p'' kept')
    (sub : kept' ⊆ kept) : p.Passes p'' kept' := by
  have later := s'.spares
  rw [s.layout] at later
  exact ⟨s'.layout.trans s.layout, s'.stompFreed.trans s.stompFreed, s'.tracks.trans s.tracks,
    (s.spares.mono sub).trans later⟩

theorem Passes.mono {kept kept' : List Cell} (s : p.Passes p' kept) (sub : kept' ⊆ kept) :
    p.Passes p' kept' := { s with spares := s.spares.mono sub }

theorem Passes.small {kept : List Cell} {bound : Nat} (s : p.Passes p' kept)
    (small : p.buffer.size < bound) : p'.buffer.size < bound := s.spares.outside.size ▸ small

theorem Sound.count {t : Tally} {m : Nat} (sound : p.Sound n cells lists)
    (counts : t.Counts m (usedCells cells)) : Sound { p with tally := t } m cells lists :=
  { sound with counts }

theorem Sound.trades_none {t : Tally} {m : Nat} (sound : p.Sound n cells lists)
    (counts : t.Counts m (usedCells cells)) : p.Trades { p with tally := t } m cells [] [] :=
  ⟨cells, lists, usedCells cells, sound.count counts, .refl _, .refl _, rfl, rfl, rfl, .refl _ _ _ _⟩

theorem Sound.change {a' : Arena} {cells' : List Cell} {lists' : SizeClass → List Nat}
    {registry : Option Registry} {t : Tally} {m : Nat} (sound : p.Sound n cells lists)
    (stable : a'.Stable p.layout.firstBlock p.layout.sentinel cells' lists')
    (size : a'.buffer.size = p.buffer.size) (counts : t.Counts m (usedCells cells'))
    (forest : ∀ r ∈ registry, r.Forest) :
    Sound { p with arena := a', registry, tally := t } m cells' lists' := by
  have region := sound.region
  rw [← size] at region
  exact ⟨stable, sound.start, sound.inside, region, sound.low, counts, forest⟩

theorem Sound.trade (gone fresh : List Cell) {a' : Arena} {cells' others : List Cell}
    {lists' : SizeClass → List Nat} {registry : Option Registry} {t : Tally} {m : Nat}
    (sound : p.Sound n cells lists)
    (stable : a'.Stable p.layout.firstBlock p.layout.sentinel cells' lists')
    (spares : Spares p.buffer a'.buffer p.layout.firstBlock p.layout.sentinel others)
    (old : (usedCells cells).Perm (gone ++ others)) (new : (usedCells cells').Perm (fresh ++ others))
    (counts : t.Counts m (fresh ++ others)) (forest : ∀ r ∈ registry, r.Forest)
    (tracks : registry.isSome = p.registry.isSome) :
    p.Trades { p with arena := a', registry, tally := t } m cells gone fresh :=
  ⟨cells', lists', others, sound.change stable spares.outside.size (counts.perm new.symm) forest, old,
    new, rfl, rfl, tracks, spares⟩

/-! Allocation -/

theorem allocateFor_zero (sound : p.Sound n cells lists) (bound : n + 1 < UInt64.size)
    (ownership : Option Ownership) :
    ∃ p', p.allocateFor 0 ownership = .ok (.ok .null, p') ∧ p.Trades p' (n + 1) cells [] [] := by
  obtain ⟨run, counts⟩ := sound.counts.allocateIdle_spec bound
  refine ⟨_, ?_, sound.trades_none counts⟩
  simp only [allocateFor, if_true, run, Checked.ok_bind, Checked.pure_eq]

def enter (r : Registry) (ptr : Pointer) : Option Ownership → Registry
  | none => r
  | some o => r.register ptr o.owner o.parent

theorem enter_forest {r : Registry} {o : Option Ownership} (f : r.Forest) : (enter r ptr o).Forest := by
  cases o with
  | none => exact f
  | some o => exact f.register ptr o.owner o.parent

theorem Sound.enter_forest (sound : p.Sound n cells lists) (ptr : Pointer) (o : Option Ownership) :
    ∀ r ∈ p.registry.map (enter · ptr o), r.Forest := by
  intro r tracked
  obtain ⟨r, old, rfl⟩ := Option.map_eq_some_iff.mp tracked
  exact Pool.enter_forest (sound.forest r old)

theorem allocateFor_eq {size : Nat} (asked : size ≠ 0) {h whole : Nat} {a : Arena} {t : Tally}
    (run : p.arena.allocate? size = .ok (some (h, a))) (sized : Block.size a.buffer h = .ok whole)
    (counted : p.tally.allocated whole = .ok t) (o : Option Ownership) :
    p.allocateFor size o = .ok (.ok (pointerOf h), { p with
      arena := a, registry := p.registry.map (enter · (pointerOf h) o), tally := t }) := by
  cases o with
  | none =>
    simp only [allocateFor, if_neg asked, run, sized, counted, Checked.ok_bind, Checked.pure_eq, enter,
      Option.map_id']
  | some o =>
    simp only [allocateFor, if_neg asked, run, sized, counted, Checked.ok_bind, Checked.pure_eq]
    rfl

def failAllocate (p : Pool) : Pool :=
  { p with tally := { p.tally with allocate := p.tally.allocate.addFailure } }

theorem allocateFor_spec (sound : p.Sound n cells lists) (bound : n + 1 < UInt64.size) {size : Nat}
    (some_ : size ≠ 0) (ownership : Option Ownership) :
    (p.allocateFor size ownership = .ok (.error (.outOfMemory size), p.failAllocate) ∧
      p.Trades p.failAllocate (n + 1) cells [] []) ∨
    ∃ g p', p.allocateFor size ownership = .ok (.ok g.pointer, p') ∧ size ≤ g.size ∧
      p.Trades p' (n + 1) cells [] [g] := by
  rcases Arena.allocate?_effect sound.stable size with none | found
  · obtain ⟨run, counts⟩ := sound.counts.allocateFailed_spec bound
    refine .inl ⟨?_, sound.trades_none counts⟩
    simp only [allocateFor, if_neg some_, none, run, Checked.ok_bind, Checked.pure_eq, failAllocate]
  · obtain ⟨g, payload, a', cells', lists', request, run, stable, perm, large, -, spares⟩ := found
    have grant := (payloadFor?_eq_some request).1
    have mem : g ∈ usedCells cells' := perm.symm.subset (List.mem_cons_self ..)
    obtain ⟨t, counted, counts⟩ := sound.counts.allocated_spec (x := g) bound
      (payloadSum_perm perm ▸ stable.holds.payloadSum_lt)
    have sized := stable.holds.size_used mem
    exact .inr ⟨g, _, allocateFor_eq some_ run sized counted ownership, Nat.le_trans grant large,
      sound.trade [] [g] stable spares (.refl _) perm counts
        (sound.enter_forest g.pointer ownership) (by simp)⟩

/-! Release -/

def failFree (p : Pool) : Pool :=
  { p with tally := { p.tally with free := p.tally.free.addFailure } }

theorem free_null (sound : p.Sound n cells lists) (bound : n + 1 < UInt64.size)
    (null : ptr.isNull = true) :
    ∃ p', p.free ptr = .ok (.ok false, p') ∧ p.Trades p' (n + 1) cells [] [] := by
  obtain ⟨run, counts⟩ := sound.counts.freeIdle_spec bound
  refine ⟨_, ?_, sound.trades_none counts⟩
  simp only [free, null, if_true, run, Checked.ok_bind, Checked.pure_eq]

theorem free_dead (sound : p.Sound n cells lists) (bound : n + 1 < UInt64.size)
    (nonnull : ptr.isNull = false) (dead : ∀ x ∈ usedCells cells, x.pointer ≠ ptr) :
    ∃ v, p.free ptr = .ok (.error (.safety v), p.failFree) ∧
      p.Trades p.failFree (n + 1) cells [] [] := by
  obtain ⟨v, refused⟩ := header_dead sound dead
  obtain ⟨run, counts⟩ := sound.counts.freeFailed_spec bound
  refine ⟨v, ?_, sound.trades_none counts⟩
  simp only [free, nonnull, refused, run, Checked.ok_bind, Checked.pure_eq, Bool.false_eq_true,
    if_false, failFree]

theorem free_eq (sound : p.Sound n cells lists) (mem : x ∈ usedCells cells) {a' : Arena} {t : Tally}
    (run : p.arena.release x.header p.stompFreed = .ok a') (counted : p.tally.freed x.size = .ok t) :
    p.free x.pointer = .ok (.ok true, { p with
      arena := a', registry := p.registry.map (·.unregister x.pointer), tally := t }) := by
  simp only [free, sound.pointer_ne_null mem, header_live sound mem, size_live sound mem, run,
    counted, Checked.ok_bind, Checked.pure_eq, Bool.false_eq_true, if_false]

theorem Sound.unregister_forest (sound : p.Sound n cells lists) (ptr : Pointer) :
    ∀ r ∈ p.registry.map (·.unregister ptr), r.Forest := by
  intro r tracked
  obtain ⟨r, old, rfl⟩ := Option.map_eq_some_iff.mp tracked
  exact (sound.forest r old).unregister _

theorem free_live (sound : p.Sound n cells lists) (bound : n + 1 < UInt64.size)
    (mem : x ∈ usedCells cells) :
    ∃ p', p.free x.pointer = .ok (.ok true, p') ∧ p.Trades p' n cells [x] [] := by
  obtain ⟨a', cells', lists', run, stable, perm, spares⟩ :=
    Arena.release_effect sound.stable mem p.stompFreed
  obtain ⟨t, counted, counts⟩ := (sound.counts.perm perm).freed_spec bound
  exact ⟨_, free_eq sound mem run counted, sound.trade [x] [] stable spares perm (.refl _) counts
    (sound.unregister_forest x.pointer) (by simp)⟩

theorem freeAll_live {gone others : List Cell} (sound : p.Sound n cells lists)
    (bound : n + 1 < UInt64.size) (perm : (usedCells cells).Perm (gone ++ others)) :
    ∃ p', p.freeAll (gone.map Cell.pointer) = .ok (.ok gone.length, p') ∧
      p.Trades p' n cells gone [] := by
  induction gone generalizing p cells lists with
  | nil => exact ⟨p, rfl, cells, lists, usedCells cells, sound, .refl _, .refl _, .refl _ _⟩
  | cons x gone ih =>
    have mem : x ∈ usedCells cells := perm.symm.subset (List.mem_cons_self ..)
    obtain ⟨p₁, run₁, cells₁, lists₁, others₁, sound₁, old₁, new₁, passes₁⟩ :=
      free_live sound bound mem
    have rest : (usedCells cells₁).Perm (gone ++ others) :=
      new₁.trans (old₁.symm.trans perm).cons_inv
    obtain ⟨p₂, run₂, cells₂, lists₂, others₂, sound₂, old₂, new₂, passes₂⟩ := ih sound₁ rest
    have kept : others₁.Perm (gone ++ others₂) := new₁.symm.trans old₂
    refine ⟨p₂, ?_, cells₂, lists₂, others₂, sound₂, old₁.trans (kept.cons x), new₂,
      passes₁.trans passes₂ ?_⟩
    · simp only [List.map_cons, freeAll, run₁, run₂, Checked.ok_bind, Checked.pure_eq]
      rfl
    · exact fun u mem => kept.symm.subset (List.mem_append_right gone mem)

def subtree (p : Pool) (ptr : Pointer) : List Pointer :=
  (match p.registry with
    | none => []
    | some r => r.descendants ptr) ++ [ptr]

theorem Sound.subtree_nodup (sound : p.Sound n cells lists) (ptr : Pointer) :
    (p.subtree ptr).Nodup := by
  unfold subtree
  cases tracked : p.registry with
  | none => exact List.nodup_singleton ptr
  | some r => exact (sound.forest r tracked).subtree_nodup ptr

theorem exists_blocks {cells : List Cell} {ptrs : List Pointer} (nodup : ptrs.Nodup)
    (live : ∀ q ∈ ptrs, ∃ x ∈ usedCells cells, x.pointer = q) :
    ∃ gone others, gone.map Cell.pointer = ptrs ∧ (usedCells cells).Perm (gone ++ others) := by
  induction ptrs with
  | nil => exact ⟨[], usedCells cells, rfl, .refl _⟩
  | cons q ptrs ih =>
    obtain ⟨fresh, distinct⟩ := List.nodup_cons.mp nodup
    obtain ⟨⟨x, mem, rfl⟩, later⟩ := List.forall_mem_cons.mp live
    obtain ⟨gone, others, rfl, perm⟩ := ih distinct later
    have other : x ∉ gone := fun here => fresh (List.mem_map_of_mem here)
    have inside : x ∈ others :=
      (List.mem_append.mp (perm.subset mem)).resolve_left other
    refine ⟨x :: gone, others.erase x, rfl, perm.trans ?_⟩
    exact ((List.perm_cons_erase inside).append_left gone).trans List.perm_middle

theorem firstViolation?_spec (sound : p.Sound n cells lists) (ptrs : List Pointer) :
    (p.firstViolation? ptrs = .ok none ∧ ∀ q ∈ ptrs, ∃ x ∈ usedCells cells, x.pointer = q) ∨
      ∃ v q, p.firstViolation? ptrs = .ok (some (.safety v)) ∧ q ∈ ptrs ∧
        ∀ x ∈ usedCells cells, x.pointer ≠ q := by
  induction ptrs with
  | nil => exact .inl ⟨rfl, by simp⟩
  | cons q ptrs ih =>
    rcases live_or_dead cells q with ⟨x, mem, rfl⟩ | dead
    · rcases ih with ⟨run, live⟩ | ⟨v, q, run, inside, dead⟩
      · refine .inl ⟨?_, List.forall_mem_cons.mpr ⟨⟨x, mem, rfl⟩, live⟩⟩
        simp only [firstViolation?, header_live sound mem, run, Checked.ok_bind]
      · refine .inr ⟨v, q, ?_, List.mem_cons_of_mem _ inside, dead⟩
        simp only [firstViolation?, header_live sound mem, run, Checked.ok_bind]
    · obtain ⟨v, refused⟩ := header_dead sound dead
      refine .inr ⟨v, q, ?_, List.mem_cons_self .., dead⟩
      simp only [firstViolation?, refused, Checked.ok_bind, Checked.pure_eq]

theorem freeRecursive_null (null : ptr.isNull = true) : p.freeRecursive ptr = .ok (.ok 0, p) := by
  simp only [freeRecursive, null, if_true, Checked.pure_eq]

theorem freeRecursive_eq (nonnull : ptr.isNull = false) :
    p.freeRecursive ptr = (do
      match ← p.firstViolation? (p.subtree ptr) with
      | some e => pure (.error e, { p with tally := ← p.tally.freeFailed })
      | none => p.freeAll (p.subtree ptr)) := by
  simp only [freeRecursive, nonnull, Bool.false_eq_true, if_false]
  rfl

theorem freeRecursive_spec (sound : p.Sound n cells lists) (bound : n + 1 < UInt64.size)
    (nonnull : ptr.isNull = false) :
    (∃ v q, p.freeRecursive ptr = .ok (.error (.safety v), p.failFree) ∧ q ∈ p.subtree ptr ∧
      (∀ x ∈ usedCells cells, x.pointer ≠ q) ∧ p.Trades p.failFree (n + 1) cells [] []) ∨
    ∃ gone p', p.freeRecursive ptr = .ok (.ok gone.length, p') ∧
      gone.map Cell.pointer = p.subtree ptr ∧ p.Trades p' n cells gone [] := by
  rcases firstViolation?_spec sound (p.subtree ptr) with ⟨checked, live⟩ | ⟨v, q, refused, inside, dead⟩
  · obtain ⟨gone, others, pointers, perm⟩ := exists_blocks (sound.subtree_nodup ptr) live
    obtain ⟨p', run, trades⟩ := freeAll_live sound bound perm
    refine .inr ⟨gone, p', ?_, pointers, trades⟩
    rw [pointers] at run
    simp only [freeRecursive_eq nonnull, checked, run, Checked.ok_bind]
  · obtain ⟨run, counts⟩ := sound.counts.freeFailed_spec bound
    refine .inl ⟨v, q, ?_, inside, dead, sound.trades_none counts⟩
    simp only [freeRecursive_eq nonnull, refused, run, Checked.ok_bind, Checked.pure_eq, failFree]

/-! Resizing -/

def failReallocate (p : Pool) : Pool :=
  { p with tally := { p.tally with reallocate := p.tally.reallocate.addFailure } }

theorem followResize_forest {r : Registry} (f : r.Forest) (old new : Pointer)
    (ownership : Option Ownership) : (followResize r old new ownership).Forest := by
  have moved : (if new = old then (false, r) else r.repoint old new).2.Forest := by
    split
    · exact f
    · exact f.repoint old new
  unfold followResize
  generalize (if new = old then (false, r) else r.repoint old new) = renamed at moved ⊢
  obtain ⟨known, r'⟩ := renamed
  cases ownership with
  | none => exact moved
  | some o =>
    show (if (known || r'.contains new) = true then r' else _).Forest
    by_cases tracked : (known || r'.contains new) = true
    · rw [if_pos tracked]
      exact moved
    · rw [if_neg tracked]
      exact moved.register new o.owner o.parent

theorem reallocateFor_zero (sound : p.Sound n cells lists) (bound : n + 1 < UInt64.size)
    (nonnull : ptr.isNull = false) (ownership : Option Ownership) :
    (∃ v, p.reallocateFor ptr 0 ownership = .ok (.error (.safety v), p.failFree) ∧
      (∀ x ∈ usedCells cells, x.pointer ≠ ptr) ∧ p.Trades p.failFree (n + 1) cells [] []) ∨
    ∃ x p', x ∈ usedCells cells ∧ x.pointer = ptr ∧
      p.reallocateFor ptr 0 ownership = .ok (.ok .null, p') ∧ p.Trades p' n cells [x] [] := by
  rcases live_or_dead cells ptr with ⟨x, mem, rfl⟩ | dead
  · obtain ⟨p', run, trades⟩ := free_live sound bound mem
    refine .inr ⟨x, p', mem, rfl, ?_, trades⟩
    simp only [reallocateFor, nonnull, run, Checked.ok_bind, Checked.pure_eq, Bool.false_eq_true,
      if_false, if_true]
    rfl
  · obtain ⟨v, run, trades⟩ := free_dead sound bound nonnull dead
    refine .inl ⟨v, ?_, dead, trades⟩
    simp only [reallocateFor, nonnull, run, Checked.ok_bind, Checked.pure_eq, Bool.false_eq_true,
      if_false, if_true]
    rfl

theorem reallocateFor_dead (sound : p.Sound n cells lists) (bound : n + 1 < UInt64.size)
    (nonnull : ptr.isNull = false) {size : Nat} (some_ : size ≠ 0) (ownership : Option Ownership)
    (dead : ∀ x ∈ usedCells cells, x.pointer ≠ ptr) :
    ∃ v, p.reallocateFor ptr size ownership = .ok (.error (.safety v), p.failReallocate) ∧
      p.Trades p.failReallocate (n + 1) cells [] [] := by
  obtain ⟨v, refused⟩ := header_dead sound dead
  obtain ⟨run, counts⟩ := sound.counts.reallocateFailed_spec bound
  refine ⟨v, ?_, sound.trades_none counts⟩
  simp only [reallocateFor, nonnull, some_, refused, run, Checked.ok_bind, Checked.pure_eq,
    Bool.false_eq_true, if_false, failReallocate]

theorem reallocateFor_refused (sound : p.Sound n cells lists) (bound : n + 1 < UInt64.size)
    (mem : x ∈ usedCells cells) {size : Nat} (some_ : size ≠ 0) (ownership : Option Ownership)
    (none : p.arena.resize? x.header size p.stompFreed = .ok none) :
    p.reallocateFor x.pointer size ownership = .ok (.error (.outOfMemory size), p.failReallocate) ∧
      p.Trades p.failReallocate (n + 1) cells [] [] := by
  obtain ⟨run, counts⟩ := sound.counts.reallocateFailed_spec bound
  refine ⟨?_, sound.trades_none counts⟩
  simp only [reallocateFor, sound.pointer_ne_null mem, some_, header_live sound mem, none, run,
    Checked.ok_bind, Checked.pure_eq, Bool.false_eq_true, if_false, failReallocate]

theorem reallocateFor_resized (sound : p.Sound n cells lists) (bound : n + 1 < UInt64.size)
    (mem : x ∈ usedCells cells) {size payload : Nat} (some_ : size ≠ 0)
    (ownership : Option Ownership) {x' : Cell}
    (resizes : p.arena.ResizesTo p.layout.firstBlock p.layout.sentinel cells x x' size payload
      p.stompFreed) :
    ∃ p', p.reallocateFor x.pointer size ownership = .ok (.ok x'.pointer, p') ∧
      Arena.Fitted p.buffer p'.buffer x x' payload ∧ p.Trades p' (n + 1) cells [x] [x'] := by
  obtain ⟨how, a', cells', lists', others, run, stable, old, new, fitted, spares⟩ := resizes
  have mem' : x' ∈ usedCells cells' := new.symm.subset (List.mem_cons_self ..)
  have after := stable.holds.size_used mem'
  obtain ⟨t, counted, counts⟩ := (sound.counts.perm old).reallocated_spec (y := x') bound
    (payloadSum_perm new ▸ stable.holds.payloadSum_lt) how
  have forest : ∀ r ∈ p.registry.map fun r => followResize r x.pointer x'.pointer ownership,
      r.Forest := by
    intro r tracked
    obtain ⟨r, old, rfl⟩ := Option.map_eq_some_iff.mp tracked
    exact followResize_forest (sound.forest r old) _ _ _
  refine ⟨_, ?_, ?_, sound.trade [x] [x'] stable spares old new counts forest (by simp)⟩
  · simp only [reallocateFor, sound.pointer_ne_null mem, some_, header_live sound mem, run, after,
      counted, Checked.ok_bind, Checked.pure_eq, Bool.false_eq_true, if_false]
    rfl
  · exact fitted

theorem reallocateFor_live (sound : p.Sound n cells lists) (bound : n + 1 < UInt64.size)
    (mem : x ∈ usedCells cells) {size : Nat} (some_ : size ≠ 0) (ownership : Option Ownership) :
    (p.reallocateFor x.pointer size ownership = .ok (.error (.outOfMemory size), p.failReallocate) ∧
      p.Trades p.failReallocate (n + 1) cells [] []) ∨
    ∃ x' p', p.reallocateFor x.pointer size ownership = .ok (.ok x'.pointer, p') ∧ size ≤ x'.size ∧
      p.Trades p' (n + 1) cells [x] [x'] := by
  rcases Arena.resize?_effect sound.stable mem size p.stompFreed with none | ⟨x', payload, request, resizes⟩
  · exact .inl (reallocateFor_refused sound bound mem some_ ownership none)
  · obtain ⟨p', run, fitted, trades⟩ := reallocateFor_resized sound bound mem some_ ownership resizes
    have large := Nat.le_trans (payloadFor?_eq_some request).1 fitted.enough
    exact .inr ⟨x', p', run, large, trades⟩

/-! Payload bytes -/

/-- Sets every byte of a live payload; what a host can do to one through a view
of its bytes. -/
def rewritePayload (p : Pool) (ptr : Pointer) (contents : Nat → UInt8) :
    Checked (Except Error Nat × Pool) :=
  p.editPayload ptr fun start size b => pure (Buffer.update contents start size b)

theorem editPayload_null (null : ptr.isNull = true) {change : Nat → Nat → Buffer → Checked Buffer}
    (idle : change ptr.offset 0 p.buffer = .ok p.buffer) : p.editPayload ptr change = .ok (.ok 0, p) := by
  have edited : p.arena.edit (change ptr.offset 0) = .ok p.arena := Arena.edit_eq idle
  simp only [editPayload, allocationSize, null, if_true, edited, Checked.ok_bind, Checked.pure_eq]

theorem editPayload_dead (sound : p.Sound n cells lists) (nonnull : ptr.isNull = false)
    (dead : ∀ x ∈ usedCells cells, x.pointer ≠ ptr) (change : Nat → Nat → Buffer → Checked Buffer) :
    ∃ v, p.editPayload ptr change = .ok (.error (.safety v), p) := by
  obtain ⟨v, refused⟩ := allocationSize_dead sound dead nonnull
  exact ⟨v, by simp only [editPayload, refused, Checked.ok_bind, Checked.pure_eq]⟩

theorem editPayload_live (sound : p.Sound n cells lists) (mem : x ∈ usedCells cells)
    {change : Nat → Nat → Buffer → Checked Buffer} {b : Buffer}
    (changed : change (x.header + 8) x.size p.buffer = .ok b)
    (touched : OnlyTouches p.buffer b x.payload) :
    ∃ p', p.editPayload x.pointer change = .ok (.ok x.size, p') ∧ p'.buffer = b ∧
      p'.Sound n cells lists ∧ p.Trades p' n cells [x] [x] := by
  have edited : p.arena.edit (change x.pointer.offset x.size) = .ok { p.arena with buffer := b } := by
    rw [sound.pointer_offset mem]
    exact Arena.edit_eq changed
  have stable : Arena.Stable { p.arena with buffer := b } p.layout.firstBlock p.layout.sentinel
      cells lists := ⟨sound.holds.rewrite mem touched, sound.stable.settled⟩
  have perm := List.perm_cons_erase mem
  have spares := Arena.rewrite_effect sound.holds perm touched
  refine ⟨{ p with arena := { p.arena with buffer := b } }, ?_, rfl,
    sound.change stable touched.size sound.counts sound.forest,
    sound.trade [x] [x] stable spares perm perm (sound.counts.perm perm)
      sound.forest rfl⟩
  simp only [editPayload, allocationSize_live sound mem, edited, Checked.ok_bind, Checked.pure_eq]

theorem update_touches (b : Buffer) (contents : Nat → UInt8) (x : Cell) :
    OnlyTouches b (Buffer.update contents (x.header + 8) x.size b) x.payload :=
  OnlyTouches.update b contents (x.header + 8) x.size

theorem rewritePayload_live (sound : p.Sound n cells lists) (mem : x ∈ usedCells cells)
    (contents : Nat → UInt8) :
    ∃ p', p.rewritePayload x.pointer contents = .ok (.ok x.size, p') ∧
      p'.buffer = Buffer.update contents (x.header + 8) x.size p.buffer ∧
      p'.Sound n cells lists ∧ p.Trades p' n cells [x] [x] :=
  editPayload_live sound mem rfl (update_touches _ _ _)

theorem fillPayload_live (sound : p.Sound n cells lists) (mem : x ∈ usedCells cells) (value : UInt8) :
    ∃ p', p.fillPayload x.pointer value = .ok (.ok x.size, p') ∧
      p'.buffer = Buffer.update (fun _ => value) (x.header + 8) x.size p.buffer ∧
      p'.Sound n cells lists ∧ p.Trades p' n cells [x] [x] := by
  have inside := payload_inside sound mem
  exact editPayload_live sound mem (if_pos (by omega)) (update_touches _ _ _)

theorem allocateZeroed_zero (sound : p.Sound n cells lists) (bound : n + 1 < UInt64.size) :
    ∃ p', p.allocateZeroed 0 = .ok (.ok .null, p') ∧ p.Trades p' (n + 1) cells [] [] := by
  obtain ⟨p', run, trades⟩ := allocateFor_zero sound bound none
  have cleared : p'.fillPayload .null 0 = .ok (.ok 0, p') :=
    editPayload_null rfl (if_pos (Nat.zero_le _))
  refine ⟨p', ?_, trades⟩
  simp only [allocateZeroed, allocate, run, cleared, Checked.ok_bind, Checked.pure_eq]
  rfl

theorem allocateZeroed_spec (sound : p.Sound n cells lists) (bound : n + 1 < UInt64.size) {size : Nat}
    (some_ : size ≠ 0) :
    (p.allocateZeroed size = .ok (.error (.outOfMemory size), p.failAllocate) ∧
      p.Trades p.failAllocate (n + 1) cells [] []) ∨
    ∃ g p', p.allocateZeroed size = .ok (.ok g.pointer, p') ∧ size ≤ g.size ∧
      p.Trades p' (n + 1) cells [] [g] := by
  rcases allocateFor_spec sound bound some_ none with ⟨run, trades⟩ | ⟨g, p₁, run, large, trades⟩
  · refine .inl ⟨?_, trades⟩
    simp only [allocateZeroed, allocate, run, Checked.ok_bind, Checked.pure_eq]
  · obtain ⟨cells₁, lists₁, others, sound₁, old, new, passes⟩ := trades
    have mem : g ∈ usedCells cells₁ := new.symm.subset (List.mem_cons_self ..)
    obtain ⟨p₂, cleared, -, sound₂, cells₂, lists₂, others₂, -, old₂, -, passes₂⟩ :=
      fillPayload_live sound₁ mem 0
    refine .inr ⟨g, p₂, ?_, large, cells₁, lists₁, others, sound₂, old, new, ?_⟩
    · simp only [allocateZeroed, allocate, run, cleared, Checked.ok_bind, Checked.pure_eq]
      rfl
    · have kept : others₂.Perm others := (old₂.symm.trans new).cons_inv
      exact (passes.trans (passes₂.mono kept.symm.subset) fun u mem => mem)

end Tlsf.Pool
