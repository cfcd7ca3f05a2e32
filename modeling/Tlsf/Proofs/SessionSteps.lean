import Tlsf.Proofs.Sessions

/-!
What calls do to a session. Every call answers, and `Call.Ends` has one case
for each way that it ends. From that, a sound pool whose used blocks the ledger
lists stays one, over any call and so over any run.
-/

namespace Tlsf

open Dimensions Buffer

def Ledger.Agrees (l : Ledger) (used : List Cell) : Prop :=
  ∀ q m, l q = some m ↔ ∃ x ∈ used, x.pointer = q ∧ x.size = m

namespace Ledger

variable {l : Ledger} {used gone others : List Cell} {ptrs : List Pointer} {p : Pool} {x g : Cell}

theorem agrees_empty : empty.Agrees [] := by
  intro q m
  simp [empty]

theorem Agrees.perm {used' : List Cell} (agrees : l.Agrees used) (perm : used.Perm used') :
    l.Agrees used' := by
  intro q m
  rw [agrees q m]
  simp only [perm.mem_iff]

theorem Agrees.none_iff (agrees : l.Agrees used) (q : Pointer) :
    l q = none ↔ ∀ x ∈ used, x.pointer ≠ q := by
  constructor
  · intro dead x mem same
    rw [(agrees q x.size).mpr ⟨x, mem, same, rfl⟩] at dead
    cases dead
  · intro dead
    cases entry : l q with
    | none => rfl
    | some m =>
      obtain ⟨x, mem, same, -⟩ := (agrees q m).mp entry
      exact absurd same (dead x mem)

theorem Agrees.granted_iff (agrees : l.Agrees used) (q : Pointer) :
    l q ≠ none ↔ ∃ x ∈ used, x.pointer = q := by
  rw [Ne, agrees.none_iff q]
  push Not
  rfl

theorem Agrees.some_of_mem (agrees : l.Agrees used) (mem : x ∈ used) : l x.pointer = some x.size :=
  (agrees x.pointer x.size).mpr ⟨x, mem, rfl, rfl⟩

theorem Agrees.without (agrees : l.Agrees used) (nodup : used.Nodup)
    (perm : used.Perm (gone ++ others)) (returned : ∀ x ∈ used, x ∈ gone ↔ x.pointer ∈ ptrs) :
    (l.without ptrs).Agrees others := by
  have kept : ∀ x, x ∈ others ↔ x ∈ used ∧ x.pointer ∉ ptrs := by
    intro x
    have split := (List.nodup_append.mp (perm.nodup nodup)).2.2
    constructor
    · intro mem
      have inside : x ∈ used := perm.symm.subset (List.mem_append_right gone mem)
      refine ⟨inside, fun back => ?_⟩
      exact split x ((returned x inside).mpr back) x mem rfl
    · rintro ⟨mem, out⟩
      refine (List.mem_append.mp (perm.subset mem)).resolve_left fun left => ?_
      exact out ((returned x mem).mp left)
  intro q m
  unfold Ledger.without
  by_cases back : q ∈ ptrs
  · rw [if_pos back]
    constructor
    · intro none
      cases none
    · rintro ⟨x, mem, rfl, -⟩
      exact absurd back ((kept x).mp mem).2
  · rw [if_neg back, agrees q m]
    constructor
    · rintro ⟨x, mem, rfl, size⟩
      exact ⟨x, (kept x).mpr ⟨mem, back⟩, rfl, size⟩
    · rintro ⟨x, mem, rfl, size⟩
      exact ⟨x, ((kept x).mp mem).1, rfl, size⟩

theorem Agrees.grant (agrees : l.Agrees others) (fresh : ∀ x ∈ others, x.pointer ≠ g.pointer)
    (size : reported p g.pointer = g.size) : (l.grant p g.pointer).Agrees (g :: others) := by
  intro q m
  unfold Ledger.grant
  simp only [List.mem_cons, exists_eq_or_imp]
  by_cases same : q = g.pointer
  · subst same
    rw [if_pos rfl, size, Option.some_inj]
    constructor
    · exact fun size => .inl ⟨rfl, size⟩
    · rintro (⟨-, size⟩ | ⟨x, mem, clash, -⟩)
      · exact size
      · exact absurd clash (fresh x mem)
  · rw [if_neg same, agrees q m]
    constructor
    · exact .inr
    · rintro (⟨own, -⟩ | other)
      · exact absurd own.symm same
      · exact other

end Ledger

namespace Pool

variable {p p' : Pool} {n : Nat} {cells gone fresh : List Cell} {lists : SizeClass → List Nat} {x : Cell}

theorem Sound.used_nodup (sound : p.Sound n cells lists) : (usedCells cells).Nodup := by
  have order := (List.pairwise_append.mp sound.holds.tiles.pairwise).1
  refine List.Nodup.filter _ (order.imp fun {x y} behind => ?_)
  rintro rfl
  rw [x.stop_eq] at behind
  omega

theorem Sound.reported (sound : p.Sound n cells lists) (mem : x ∈ usedCells cells) :
    Ledger.reported p x.pointer = x.size := by
  unfold Ledger.reported
  rw [allocationSize_live sound mem]

theorem Sound.pointer_ne {ptr : Pointer} (sound : p.Sound n cells lists) (null : ptr.isNull = true)
    (mem : x ∈ usedCells cells) : x.pointer ≠ ptr := by
  have nonnull := sound.pointer_ne_null mem
  rintro rfl
  rw [null] at nonnull
  cases nonnull

theorem Trades.mono {m : Nat} (trades : p.Trades p' n cells gone fresh) (le : n ≤ m) :
    p.Trades p' m cells gone fresh := by
  obtain ⟨cells', lists', others, sound, old, new, passes⟩ := trades
  exact ⟨cells', lists', others, sound.mono le, old, new, passes⟩

end Pool

/-! One call -/

inductive Counter where
  | allocate
  | free
  | reallocate

def Tally.fail (t : Tally) : Option Counter → Tally
  | none => t
  | some .allocate => { t with allocate := t.allocate.addFailure }
  | some .free => { t with free := t.free.addFailure }
  | some .reallocate => { t with reallocate := t.reallocate.addFailure }

/-- The operation that a resize comes down to. -/
def Counter.ofResize (ptr : Pointer) (size : Nat) : Counter :=
  if ptr.isNull then .allocate else if size = 0 then .free else .reallocate

def Call.counter? : Call → Option Counter
  | .allocate _ => some .allocate
  | .allocateOwned _ _ _ => some .allocate
  | .allocateZeroed _ => some .allocate
  | .free _ => some .free
  | .freeRecursive _ => some .free
  | .reallocate ptr size => some (.ofResize ptr size)
  | .reallocateOwned ptr size _ _ => some (.ofResize ptr size)
  | .editRegistry _ => none
  | .rewrite _ _ => none

def Call.failed (p : Pool) (call : Call) : Pool := { p with tally := p.tally.fail call.counter? }

def Error.IsRefusal : Error → Prop
  | .outOfMemory _ => True
  | .safety _ => True
  | _ => False

namespace Call

/-- How a call on a sound pool ends: it is refused and only counted; it gives blocks back and
returns nothing new; it returns a block, perhaps for one given back; or it writes to one. -/
inductive Ends (p : Pool) (n : Nat) (cells : List Cell) (call : Call) :
    Except Error Answer → Pool → Prop where
  | refused {e : Error} (kind : e.IsRefusal)
      (trades : p.Trades (call.failed p) (n + 1) cells [] []) :
      Ends p n cells call (.error e) (call.failed p)
  | kept {answer : Answer} {p' : Pool} (gone : List Cell)
      (silent : ∀ ptr, answer = .pointer ptr → call.asks = 0)
      (returned : ∀ x ∈ usedCells cells, x ∈ gone ↔ x.pointer ∈ call.returns p)
      (trades : p.Trades p' (n + 1) cells gone []) :
      Ends p n cells call (.ok answer) p'
  | granted {g : Cell} {p' : Pool} {gone : List Cell} (asked : call.asks ≠ 0)
      (large : call.asks ≤ g.size)
      (returned : ∀ x ∈ usedCells cells, x ∈ gone ↔ x.pointer ∈ call.returns p)
      (trades : p.Trades p' (n + 1) cells gone [g]) :
      Ends p n cells call (.ok (.pointer g.pointer)) p'
  | rewrote {x : Cell} {p' : Pool} {contents : Nat → UInt8} (mem : x ∈ usedCells cells)
      (writes : call = .rewrite x.pointer contents)
      (trades : p.Trades p' (n + 1) cells [x] [x]) :
      Ends p n cells call (.ok (.count x.size)) p'

variable {p : Pool} {n : Nat} {cells : List Cell} {lists : SizeClass → List Nat} {call : Call}
  {ptr : Pointer} {size : Nat}

theorem Ends.fail {e : Error} {p' : Pool} (failed : call.failed p = p') (kind : e.IsRefusal)
    (trades : p.Trades p' (n + 1) cells [] []) : call.Ends p n cells (.error e) p' := by
  subst failed
  exact .refused kind trades

theorem ends_allocateFor (call : Call) (sound : p.Sound n cells lists)
    (bound : n + 1 < UInt64.size) (asks : call.asks = size)
    (returns : ∀ x ∈ usedCells cells, x.pointer ∉ call.returns p)
    (counter : call.counter? = some .allocate) (ownership : Option Pool.Ownership) :
    ∃ found p', p.allocateFor size ownership = .ok (found, p') ∧
      call.Ends p n cells (found.map .pointer) p' := by
  have returned : ∀ x ∈ usedCells cells, x ∈ ([] : List Cell) ↔ x.pointer ∈ call.returns p := by
    intro x mem
    simp [returns x mem]
  have failed : call.failed p = p.failAllocate := by
    unfold Call.failed
    rw [counter]
    rfl
  by_cases nothing : size = 0
  · subst nothing
    obtain ⟨p', run, trades⟩ := Pool.allocateFor_zero sound bound ownership
    exact ⟨_, _, run, .kept _ (fun _ _ => asks) returned trades⟩
  · rcases Pool.allocateFor_spec sound bound nothing ownership with
      ⟨run, trades⟩ | ⟨g, p', run, large, trades⟩
    · exact ⟨_, _, run, .fail failed trivial trades⟩
    · exact ⟨_, _, run, .granted (asks ▸ nothing) (asks ▸ large) returned trades⟩

theorem ends_allocateZeroed (sound : p.Sound n cells lists) (bound : n + 1 < UInt64.size)
    (size : Nat) :
    ∃ found p', p.allocateZeroed size = .ok (found, p') ∧
      (Call.allocateZeroed size).Ends p n cells (found.map .pointer) p' := by
  have returned : ∀ x ∈ usedCells cells,
      x ∈ ([] : List Cell) ↔ x.pointer ∈ (Call.allocateZeroed size).returns p := by
    simp [returns]
  by_cases nothing : size = 0
  · subst nothing
    obtain ⟨p', run, trades⟩ := Pool.allocateZeroed_zero sound bound
    exact ⟨_, _, run, .kept _ (fun _ _ => rfl) returned trades⟩
  · rcases Pool.allocateZeroed_spec sound bound nothing with
      ⟨run, trades⟩ | ⟨g, p', run, large, trades⟩
    · exact ⟨_, _, run, .refused trivial trades⟩
    · exact ⟨_, _, run, .granted nothing large returned trades⟩

theorem returned_singleton (sound : p.Sound n cells lists) {x : Cell} (mem : x ∈ usedCells cells) :
    ∀ y ∈ usedCells cells, y ∈ [x] ↔ y.pointer ∈ [x.pointer] := by
  intro y memy
  rw [List.mem_singleton, List.mem_singleton]
  constructor
  · exact congrArg Cell.pointer
  · exact sound.pointer_injective memy mem

theorem ends_reallocateFor (call : Call) (sound : p.Sound n cells lists)
    (bound : n + 1 < UInt64.size) (asks : call.asks = size) (returns : call.returns p = [ptr])
    (counter : call.counter? = some (.ofResize ptr size)) (ownership : Option Pool.Ownership) :
    ∃ found p', p.reallocateFor ptr size ownership = .ok (found, p') ∧
      call.Ends p n cells (found.map .pointer) p' := by
  by_cases null : ptr.isNull = true
  · have run : p.reallocateFor ptr size ownership = p.allocateFor size ownership := if_pos null
    rw [run]
    refine ends_allocateFor call sound bound asks (fun x mem => ?_) ?_ ownership
    · rw [returns, List.mem_singleton]
      exact sound.pointer_ne null mem
    · rw [counter, Counter.ofResize, if_pos null]
  · have nonnull : ptr.isNull = false := Bool.eq_false_of_not_eq_true null
    by_cases nothing : size = 0
    · subst nothing
      have failed : call.failed p = p.failFree := by
        unfold Call.failed
        rw [counter, Counter.ofResize, if_neg null, if_pos rfl]
        rfl
      rcases Pool.reallocateFor_zero sound bound nonnull ownership with
        ⟨v, run, -, trades⟩ | ⟨x, p', mem, rfl, run, trades⟩
      · exact ⟨_, _, run, .fail failed trivial trades⟩
      · refine ⟨_, _, run, .kept _ (fun _ _ => asks) ?_ (trades.mono (Nat.le_succ n))⟩
        rw [returns]
        exact returned_singleton sound mem
    · have failed : call.failed p = p.failReallocate := by
        unfold Call.failed
        rw [counter, Counter.ofResize, if_neg null, if_neg nothing]
        rfl
      rcases Pool.live_or_dead cells ptr with ⟨x, mem, rfl⟩ | dead
      · rcases Pool.reallocateFor_live sound bound mem nothing ownership with
          ⟨run, trades⟩ | ⟨x', p', run, large, trades⟩
        · exact ⟨_, _, run, .fail failed trivial trades⟩
        · refine ⟨_, _, run, .granted (asks ▸ nothing) (asks ▸ large) ?_ trades⟩
          rw [returns]
          exact returned_singleton sound mem
      · obtain ⟨v, run, trades⟩ := Pool.reallocateFor_dead sound bound nonnull nothing ownership dead
        exact ⟨_, _, run, .fail failed trivial trades⟩

theorem ends_free (sound : p.Sound n cells lists) (bound : n + 1 < UInt64.size) (ptr : Pointer) :
    ∃ found p', p.free ptr = .ok (found, p') ∧
      (Call.free ptr).Ends p n cells (found.map .released) p' := by
  by_cases null : ptr.isNull = true
  · obtain ⟨p', run, trades⟩ := Pool.free_null sound bound null
    refine ⟨_, _, run, .kept [] (fun _ _ => rfl) (fun x mem => ?_) trades⟩
    simp only [returns, List.mem_singleton, List.not_mem_nil, false_iff]
    exact sound.pointer_ne null mem
  · rcases Pool.live_or_dead cells ptr with ⟨x, mem, rfl⟩ | dead
    · obtain ⟨p', run, trades⟩ := Pool.free_live sound bound mem
      exact ⟨_, _, run, .kept _ (fun _ _ => rfl) (returned_singleton sound mem)
        (trades.mono (Nat.le_succ n))⟩
    · obtain ⟨v, run, trades⟩ := Pool.free_dead sound bound (Bool.eq_false_of_not_eq_true null) dead
      exact ⟨_, _, run, .refused trivial trades⟩

theorem ends_freeRecursive (sound : p.Sound n cells lists) (bound : n + 1 < UInt64.size)
    (ptr : Pointer) :
    ∃ found p', p.freeRecursive ptr = .ok (found, p') ∧
      (Call.freeRecursive ptr).Ends p n cells (found.map .count) p' := by
  by_cases null : ptr.isNull = true
  · refine ⟨_, _, Pool.freeRecursive_null null, .kept [] (fun _ _ => rfl) ?_
      ((sound.trades_none sound.counts).mono (Nat.le_succ n))⟩
    simp [returns, null]
  · rcases Pool.freeRecursive_spec sound bound (Bool.eq_false_of_not_eq_true null) with
      ⟨v, q, run, -, -, trades⟩ | ⟨gone, p', run, pointers, trades⟩
    · exact ⟨_, _, run, .refused trivial trades⟩
    · refine ⟨_, _, run, .kept _ (fun _ _ => rfl) (fun x mem => ?_) (trades.mono (Nat.le_succ n))⟩
      obtain ⟨-, -, others, -, old, -, -⟩ := trades
      simp only [returns, if_neg null, ← pointers, List.mem_map]
      constructor
      · exact fun back => ⟨x, back, rfl⟩
      · rintro ⟨y, back, same⟩
        have inside : y ∈ usedCells cells := old.symm.subset (List.mem_append_left others back)
        exact sound.pointer_injective inside mem same ▸ back

theorem ends_editRegistry (sound : p.Sound n cells lists) (edits : List Registry.Edit) :
    (Call.editRegistry edits).Ends p n cells (.ok .done) (p.editRegistry (·.edited edits)) := by
  have forest : ∀ r ∈ p.registry.map (·.edited edits), r.Forest := by
    intro r tracked
    obtain ⟨r, old, rfl⟩ := Option.map_eq_some_iff.mp tracked
    exact (sound.forest r old).edited edits
  have sound' : (p.editRegistry (·.edited edits)).Sound n cells lists := { sound with forest }
  refine .kept [] (fun _ _ => rfl) (by simp [returns]) ?_
  exact ⟨cells, lists, usedCells cells, sound'.mono (Nat.le_succ n), .refl _, .refl _, rfl, rfl,
    by simp [Pool.editRegistry], .refl _ _ _ _⟩

theorem ends_rewrite (sound : p.Sound n cells lists) (ptr : Pointer) (contents : Nat → UInt8) :
    ∃ found p', p.rewritePayload ptr contents = .ok (found, p') ∧
      (Call.rewrite ptr contents).Ends p n cells (found.map .count) p' := by
  have same : p.Trades p (n + 1) cells [] [] :=
    (sound.trades_none sound.counts).mono (Nat.le_succ n)
  by_cases null : ptr.isNull = true
  · exact ⟨_, _, Pool.editPayload_null null rfl,
      .kept [] (fun _ _ => rfl) (by simp [returns]) same⟩
  · rcases Pool.live_or_dead cells ptr with ⟨x, mem, rfl⟩ | dead
    · obtain ⟨p', run, -, -, trades⟩ := Pool.rewritePayload_live sound mem contents
      exact ⟨_, _, run, .rewrote mem rfl (trades.mono (Nat.le_succ n))⟩
    · obtain ⟨v, run⟩ := Pool.editPayload_dead sound (Bool.eq_false_of_not_eq_true null) dead _
      exact ⟨_, _, run, .refused trivial same⟩

theorem run_answer {α : Type} {wrap : α → Answer} {run : Checked (Except Error α × Pool)}
    (ends : ∃ found p', run = .ok (found, p') ∧ call.Ends p n cells (found.map wrap) p') :
    ∃ result p', answer wrap run = .ok (result, p') ∧ call.Ends p n cells result p' := by
  obtain ⟨found, p', rfl, ends⟩ := ends
  exact ⟨_, _, rfl, ends⟩

theorem answer_eq {α : Type} {wrap : α → Answer} {run : Checked (Except Error α × Pool)}
    {result : Except Error Answer} {p' : Pool} (answered : answer wrap run = .ok (result, p')) :
    ∃ found, run = .ok (found, p') ∧ result = found.map wrap := by
  unfold answer at answered
  cases run with
  | error f => cases answered
  | ok pair =>
    obtain ⟨rfl, rfl⟩ := Prod.mk.inj (Except.ok.inj answered)
    exact ⟨pair.1, rfl, rfl⟩

theorem answered {α : Type} {wrap : α → Answer} {run : Checked (Except Error α × Pool)} {found : Answer}
    {p' : Pool} (ok : answer wrap run = .ok (.ok found, p')) :
    ∃ a, run = .ok (.ok a, p') ∧ found = wrap a := by
  obtain ⟨result, ran, same⟩ := answer_eq ok
  cases result with
  | error e => cases same
  | ok a => exact ⟨a, ran, Except.ok.inj same⟩

theorem ends (sound : p.Sound n cells lists) (bound : n + 1 < UInt64.size) (call : Call) :
    ∃ result p', call.run p = .ok (result, p') ∧ call.Ends p n cells result p' := by
  cases call with
  | allocate size =>
    exact run_answer (ends_allocateFor (.allocate size) sound bound rfl (by simp [returns]) rfl none)
  | allocateOwned size owner parent =>
    exact run_answer (ends_allocateFor (.allocateOwned size owner parent) sound bound rfl
      (by simp [returns]) rfl (some ⟨owner, parent⟩))
  | allocateZeroed size => exact run_answer (ends_allocateZeroed sound bound size)
  | free ptr => exact run_answer (ends_free sound bound ptr)
  | freeRecursive ptr => exact run_answer (ends_freeRecursive sound bound ptr)
  | reallocate ptr size =>
    exact run_answer (ends_reallocateFor (.reallocate ptr size) sound bound rfl rfl rfl none)
  | reallocateOwned ptr size owner parent =>
    exact run_answer (ends_reallocateFor (.reallocateOwned ptr size owner parent) sound bound rfl
      rfl rfl (some ⟨owner, parent⟩))
  | editRegistry edits => exact ⟨_, _, rfl, ends_editRegistry sound edits⟩
  | rewrite ptr contents => exact run_answer (ends_rewrite sound ptr contents)

end Call

end Tlsf
