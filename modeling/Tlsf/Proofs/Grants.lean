import Tlsf.Proofs.NonInterference

/-!
A request that is met, with everything that it changes. `p.Carves n pre x post
lists payload o p'` says that the free block `x`, at the front of its list, was
cut down to `payload` bytes and handed out: which cells and lists there are
afterwards, where bytes may differ, and what became of registry and tally. An
allocation either carves or finds no block. The second half says how requests,
with an owner or without, come back in a session.
-/

namespace Tlsf

open Dimensions Buffer

theorem Cell.kept_pointer (x : Cell) (n : Nat) (st : Status) :
    ((x.kept n).turn st).pointer = x.pointer := by
  rw [Cell.pointer, Cell.turn_header, Cell.kept_header]
  rfl

namespace Pool

structure Carves (p : Pool) (n : Nat) (pre : List Cell) (x : Cell) (post : List Cell)
    (lists : SizeClass → List Nat) (payload : Nat) (o : Option Ownership) (p' : Pool) : Prop where
  filed : x.status = .filed
  least : minPayload ≤ payload
  granular : payload % alignment = 0
  enough : payload ≤ x.size
  head : (lists (SizeClass.ofSize x.size)).head? = some x.header
  sound : p'.Sound (n + 1) (pre ++ (x.kept payload).turn .used :: trimRest x payload post)
    (trimLists (dropBlock lists x) x payload post)
  used : (usedCells (pre ++ (x.kept payload).turn .used :: trimRest x payload post)).Perm
    ((x.kept payload).turn .used :: usedCells (pre ++ x :: post))
  touched : OnlyTouches p.buffer p'.buffer (allLinks lists ∪ Set.Ico (x.header + 4) (x.stop + 8))
  layout : p'.layout = p.layout
  stompFreed : p'.stompFreed = p.stompFreed
  registry : p'.registry = p.registry.map (enter · x.pointer o)

variable {p p' : Pool} {n : Nat} {cells pre post : List Cell} {lists : SizeClass → List Nat} {x : Cell}
  {size payload : Nat} {o : Option Ownership}

theorem Carves.mem (carves : p.Carves n pre x post lists payload o p') : (x.kept payload).turn .used ∈
    usedCells (pre ++ (x.kept payload).turn .used :: trimRest x payload post) :=
  carves.used.symm.subset (List.mem_cons_self ..)

theorem Carves.size_cases (carves : p.Carves n pre x post lists payload o p')
    (regular : x.Regular) : (x.kept payload).size = payload ∨ (x.kept payload).size = payload + 8 ∨
      (x.kept payload).size = payload + 16 := by
  have least := Cell.kept_size_ge carves.enough
  have most := Cell.kept_size_close regular carves.granular
  have granular := carves.granular
  have whole := (carves.sound.holds.placed (mem_usedCells.mp carves.mem).1).2.2.2.1.granular
  rw [Cell.turn_size] at whole
  simp only [alignment] at granular
  omega

theorem Carves.fresh (carves : p.Carves n pre x post lists payload o p') :
    ∀ u ∈ usedCells (pre ++ x :: post), u.pointer ≠ x.pointer := by
  have others := Call.pointer_fresh carves.sound carves.used
  rwa [Cell.kept_pointer] at others

theorem Sound.allocateFor_carves (sound : p.Sound n cells lists) (bound : n + 1 < UInt64.size)
    (asked : size ≠ 0) (o : Option Ownership) :
    (p.arena.allocate? size = .ok none ∧
      p.allocateFor size o = .ok (.error (.outOfMemory size), p.failAllocate)) ∨
    ∃ pre x post payload p', cells = pre ++ x :: post ∧ payloadFor? size = some payload ∧
      p.arena.allocate? size = .ok (some (x.header, p'.arena)) ∧
      p.allocateFor size o = .ok (.ok x.pointer, p') ∧ p.Carves n pre x post lists payload o p' := by
  rcases Arena.allocate?_spec sound.stable size with none | found
  · obtain ⟨run, -⟩ := sound.counts.allocateFailed_spec bound
    refine .inl ⟨none, ?_⟩
    simp only [allocateFor, if_neg asked, none, run, Checked.ok_bind, Checked.pure_eq, failAllocate]
  · obtain ⟨pre, x, post, payload, a, rfl, filed, request, enough, head, run, after, touched⟩ := found
    obtain ⟨-, least, granular, -⟩ := payloadFor?_eq_some request
    have used := sound.stable.settled.usedCells_carved (by simp [filed]) payload
    have mem := used.symm.subset (List.mem_cons_self ..)
    obtain ⟨t, counted, counts⟩ := sound.counts.allocated_spec (x := (x.kept payload).turn .used) bound
      (payloadSum_perm used ▸ after.holds.payloadSum_lt)
    have sized := after.holds.size_used mem
    rw [Cell.turn_header, Cell.kept_header] at sized
    exact .inr ⟨pre, x, post, payload, _, rfl, request, run, allocateFor_eq asked run sized counted o,
      filed, least, granular, enough, head,
      sound.change after touched.size (counts.perm used.symm) (sound.enter_forest x.pointer o), used,
      touched, rfl, rfl, rfl⟩

end Pool

/-! Sessions -/

namespace Ledger

variable {l : Ledger} {p p' : Pool} {ptr q : Pointer} {size : Nat} {o : Option Pool.Ownership}

theorem without_nil (l : Ledger) : l.without [] = l := by
  funext q
  simp [without]

theorem after_allocateFor (asked : size ≠ 0) :
    l.after p p' (.allocateFor size o) (.ok (.pointer q)) = l.grant p' q := by
  have asks : (Call.allocateFor size o).asks ≠ 0 := by cases o <;> exact asked
  have returns : (Call.allocateFor size o).returns p = [] := by cases o <;> rfl
  rw [after_asked asks, returns, without_nil]

theorem after_reallocateFor (asked : size ≠ 0) :
    l.after p p' (.reallocateFor ptr size o) (.ok (.pointer q)) = (l.without [ptr]).grant p' q := by
  have asks : (Call.reallocateFor ptr size o).asks ≠ 0 := by cases o <;> exact asked
  have returns : (Call.reallocateFor ptr size o).returns p = [ptr] := by cases o <;> rfl
  rw [after_asked asks, returns]

end Ledger

namespace Session

variable {s s' : Session} {p : Pool} {ptr q : Pointer} {size : Nat} {o : Option Pool.Ownership}
  {found : Except Error Pointer}

theorem step_allocateFor (run : s.pool.allocateFor size o = .ok (found, p)) :
    s.step (.allocateFor size o) = .ok (found.map .pointer,
      ⟨p, s.ledger.after s.pool p (.allocateFor size o) (found.map .pointer)⟩) :=
  step_eq (by rw [Pool.run_allocateFor, run]; rfl)

theorem step_reallocateFor (run : s.pool.reallocateFor ptr size o = .ok (found, p)) :
    s.step (.reallocateFor ptr size o) = .ok (found.map .pointer,
      ⟨p, s.ledger.after s.pool p (.reallocateFor ptr size o) (found.map .pointer)⟩) :=
  step_eq (by rw [Pool.run_reallocateFor, run]; rfl)

theorem of_step_allocateFor (asked : size ≠ 0)
    (run : s.step (.allocateFor size o) = .ok (.ok (.pointer q), s')) :
    s.pool.allocateFor size o = .ok (.ok q, s'.pool) ∧ s'.ledger = s.ledger.grant s'.pool q := by
  obtain ⟨called, ledger⟩ := step_run run
  rw [Pool.run_allocateFor] at called
  obtain ⟨_, allocated, ⟨⟩⟩ := Call.answered called
  rw [Ledger.after_allocateFor asked] at ledger
  exact ⟨allocated, ledger⟩

theorem of_step_reallocateFor (asked : size ≠ 0)
    (run : s.step (.reallocateFor ptr size o) = .ok (.ok (.pointer q), s')) :
    s.pool.reallocateFor ptr size o = .ok (.ok q, s'.pool) ∧
      s'.ledger = (s.ledger.without [ptr]).grant s'.pool q := by
  obtain ⟨called, ledger⟩ := step_run run
  rw [Pool.run_reallocateFor] at called
  obtain ⟨_, resized, ⟨⟩⟩ := Call.answered called
  rw [Ledger.after_reallocateFor asked] at ledger
  exact ⟨resized, ledger⟩

end Session

end Tlsf
