import Tlsf.Proofs.SessionSteps

/-!
Runs of calls. A session stands when its pool is sound and its ledger lists the
used blocks, and it is sound if also its buffer is small. A construction starts
such a session, a call keeps it, and so every run of calls goes through and ends
in one. A call disturbs the pointers that it writes to or takes back; all other
blocks stay as they are.
-/

namespace Tlsf

open Dimensions Buffer

structure Session.Stands (s : Session) (n : Nat) (cells : List Cell) (lists : SizeClass → List Nat) :
    Prop where
  pool : s.pool.Sound n cells lists
  book : s.ledger.Agrees (usedCells cells)

structure Session.Sound (s : Session) (n : Nat) (cells : List Cell) (lists : SizeClass → List Nat) :
    Prop extends Session.Stands s n cells lists where
  small : s.pool.buffer.size < payloadLimit

namespace Call

def writes : Call → List Pointer
  | .rewrite ptr _ => [ptr]
  | _ => []

def Disturbs (p : Pool) (call : Call) (ptr : Pointer) : Except Error Answer → Prop
  | .error _ => False
  | .ok _ => ptr ∈ call.returns p ∨ ptr ∈ call.writes

variable {p p' : Pool} {n : Nat} {cells : List Cell} {lists : SizeClass → List Nat} {call : Call}
  {l : Ledger} {result : Except Error Answer}

/-- Blocks that a call does not disturb stay, with their payloads. -/
structure Keeps (p p' : Pool) (call : Call) (result : Except Error Answer)
    (cells cells' : List Cell) : Prop where
  passes : p.Passes p' []
  payloads : ∀ x ∈ usedCells cells, ¬ call.Disturbs p x.pointer result →
    x ∈ usedCells cells' ∧ ∀ i ∈ x.payload, p'.buffer.byteAt i = p.buffer.byteAt i

theorem keeps_of_trades {gone fresh cells' others : List Cell}
    (old : (usedCells cells).Perm (gone ++ others)) (new : (usedCells cells').Perm (fresh ++ others))
    (passes : p.Passes p' others)
    (given : ∀ x ∈ gone, call.Disturbs p x.pointer result) : Keeps p p' call result cells cells' := by
  refine ⟨passes.mono (List.nil_subset _), fun x mem calm => ?_⟩
  have left : x ∉ gone := fun back => calm (given x back)
  have other : x ∈ others := (List.mem_append.mp (old.subset mem)).resolve_left left
  exact ⟨new.symm.subset (List.mem_append_right fresh other), passes.spares.payloads x other⟩

theorem disturbs_of_returned {gone others : List Cell} {answer : Answer}
    (old : (usedCells cells).Perm (gone ++ others))
    (returned : ∀ x ∈ usedCells cells, x ∈ gone ↔ x.pointer ∈ call.returns p) :
    ∀ x ∈ gone, call.Disturbs p x.pointer (.ok answer) := by
  intro x back
  exact .inl ((returned x (old.symm.subset (List.mem_append_left others back))).mp back)

theorem pointer_fresh {cells' others : List Cell} {g : Cell} (sound : p.Sound n cells' lists)
    (new : (usedCells cells').Perm (g :: others)) : ∀ x ∈ others, x.pointer ≠ g.pointer := by
  intro x other same
  have distinct : (g :: others).Nodup := new.nodup sound.used_nodup
  have mem : g ∈ usedCells cells' := new.symm.subset (List.mem_cons_self ..)
  have memx : x ∈ usedCells cells' := new.symm.subset (List.mem_cons_of_mem g other)
  have equal := sound.pointer_injective memx mem same
  exact (List.nodup_cons.mp distinct).1 (equal ▸ other)

theorem Ends.follows (ends : call.Ends p n cells result p') (sound : p.Sound n cells lists)
    (book : l.Agrees (usedCells cells)) :
    ∃ cells' lists', Session.Stands ⟨p', l.after p p' call result⟩ (n + 1) cells' lists' ∧
      Keeps p p' call result cells cells' := by
  have nodup := sound.used_nodup
  cases ends with
  | refused kind trades =>
    obtain ⟨cells', lists', others, sound', old, new, passes⟩ := trades
    exact ⟨cells', lists', ⟨sound', book.perm (old.trans new.symm)⟩,
      keeps_of_trades old new passes (by simp)⟩
  | @kept answer p' gone silent returned trades =>
    obtain ⟨cells', lists', others, sound', old, new, passes⟩ := trades
    refine ⟨cells', lists', ⟨sound', ?_⟩,
      keeps_of_trades old new passes (disturbs_of_returned old returned)⟩
    rw [Ledger.after_silent silent]
    exact (book.without nodup old returned).perm new.symm
  | @granted g p' gone asked large returned trades =>
    obtain ⟨cells', lists', others, sound', old, new, passes⟩ := trades
    have mem : g ∈ usedCells cells' := new.symm.subset (List.mem_cons_self ..)
    refine ⟨cells', lists', ⟨sound', ?_⟩,
      keeps_of_trades old new passes (disturbs_of_returned old returned)⟩
    rw [Ledger.after_asked asked]
    exact ((book.without nodup old returned).grant (pointer_fresh sound' new)
      (sound'.reported mem)).perm new.symm
  | @rewrote x p' contents mem writes trades =>
    subst writes
    obtain ⟨cells', lists', others, sound', old, new, passes⟩ := trades
    have follow : l.after p p' (.rewrite x.pointer contents) (.ok (.count x.size)) = l := by
      funext q
      simp only [Ledger.after, Ledger.without, Call.returns, List.not_mem_nil, if_false]
    refine ⟨cells', lists', ⟨sound', ?_⟩, keeps_of_trades old new passes ?_⟩
    · rw [follow]
      exact book.perm (old.trans new.symm)
    · intro y own
      rw [List.mem_singleton.mp own]
      exact .inr (List.mem_singleton_self _)

end Call

/-! Sessions -/

namespace Session

variable {s s' : Session} {n : Nat} {cells : List Cell} {lists : SizeClass → List Nat}

theorem Stands.step (stands : s.Stands n cells lists) (bound : n + 1 < UInt64.size) (call : Call) :
    ∃ result s' cells' lists', s.step call = .ok (result, s') ∧
      call.Ends s.pool n cells result s'.pool ∧ s'.Stands (n + 1) cells' lists' ∧
      call.Keeps s.pool s'.pool result cells cells' := by
  obtain ⟨result, p', run, ends⟩ := call.ends stands.pool bound
  obtain ⟨cells', lists', stands', keeps⟩ := ends.follows stands.pool stands.book
  exact ⟨result, ⟨p', _⟩, cells', lists', step_eq run, ends, stands', keeps⟩

theorem Stands.run (stands : s.Stands n cells lists) (calls : List Call)
    (bound : n + calls.length < UInt64.size) :
    ∃ s' cells' lists', s.run calls = .ok s' ∧ s'.Stands (n + calls.length) cells' lists' ∧
      s.pool.Passes s'.pool [] := by
  induction calls generalizing s n cells lists with
  | nil => exact ⟨s, cells, lists, rfl, stands, .refl _ _⟩
  | cons call rest ih =>
    rw [List.length_cons] at bound
    obtain ⟨result, s₁, cells₁, lists₁, first, -, stands₁, keeps⟩ := stands.step (by omega) call
    obtain ⟨s', cells', lists', later, stands', passes⟩ := ih stands₁ (by omega)
    refine ⟨s', cells', lists', ?_, ?_, keeps.passes.trans passes (List.Subset.refl _)⟩
    · simp only [Session.run, first, later, Checked.ok_bind]
    · rw [List.length_cons, show n + (rest.length + 1) = n + 1 + rest.length by omega]
      exact stands'

theorem Sound.step (sound : s.Sound n cells lists) (bound : n + 1 < UInt64.size) (call : Call) :
    ∃ result s' cells' lists', s.step call = .ok (result, s') ∧
      call.Ends s.pool n cells result s'.pool ∧ s'.Sound (n + 1) cells' lists' ∧
      call.Keeps s.pool s'.pool result cells cells' := by
  obtain ⟨result, s', cells', lists', run, ends, stands, keeps⟩ := sound.toStands.step bound call
  exact ⟨result, s', cells', lists', run, ends, ⟨stands, keeps.passes.small sound.small⟩, keeps⟩

theorem Sound.run (sound : s.Sound n cells lists) (calls : List Call)
    (bound : n + calls.length < UInt64.size) :
    ∃ s' cells' lists', s.run calls = .ok s' ∧ s'.Sound (n + calls.length) cells' lists' := by
  obtain ⟨s', cells', lists', run, stands, passes⟩ := sound.toStands.run calls bound
  exact ⟨s', cells', lists', run, stands, passes.small sound.small⟩

theorem run_append (calls later : List Call) :
    s.run (calls ++ later) = s.run calls >>= fun s => s.run later := by
  induction calls generalizing s with
  | nil => rfl
  | cons call rest ih =>
    cases taken : s.step call with
    | error f => simp only [List.cons_append, Session.run, taken, Checked.error_bind]
    | ok answered => simp only [List.cons_append, Session.run, taken, Checked.ok_bind, ih]

end Session

theorem Construction.build_spec (b : Buffer) {k : Construction} (proper : k.Proper) :
    (∃ e, k.build b = .ok (.error e)) ∨ (UInt32.size ≤ b.size ∧ k.build b = .error .overflow) ∨
      ∃ p x lists, k.build b = .ok (.ok p) ∧ x.status = .filed ∧ p.tally = {} ∧
        p.Sound 0 [x] lists ∧
        OnlyTouches b p.buffer (Set.Ico p.layout.firstBlock (p.layout.sentinel + 8)) := by
  cases k with
  | whole => exact Pool.create_spec b 0 none none (by simp)
  | region start size registry =>
    exact Pool.create_spec b start size registry fun r mem => (proper r mem).forest
  | config c => exact Pool.ofConfig_spec b c

theorem Construction.built_sound {b : Buffer} {k : Construction} (proper : k.Proper) {p : Pool}
    (built : k.build b = .ok (.ok p)) :
    ∃ x lists, x.status = .filed ∧ p.tally = {} ∧ p.Sound 0 [x] lists ∧
      OnlyTouches b p.buffer (Set.Ico p.layout.firstBlock (p.layout.sentinel + 8)) := by
  rcases k.build_spec b proper with ⟨e, refused⟩ | ⟨-, wrapped⟩ | ⟨p', x, lists, built', spec⟩
  · rw [built] at refused
    cases refused
  · rw [built] at wrapped
    cases wrapped
  · rw [built] at built'
    cases built'
    exact ⟨x, lists, spec⟩

theorem Construction.stands {b : Buffer} {k : Construction} (proper : k.Proper) {p : Pool}
    (built : k.build b = .ok (.ok p)) :
    ∃ x lists, p.tally = {} ∧ Session.Stands ⟨p, .empty⟩ 0 [x] lists ∧
      OnlyTouches b p.buffer (Set.Ico p.layout.firstBlock (p.layout.sentinel + 8)) := by
  obtain ⟨x, lists, filed, fresh, sound, touched⟩ := Construction.built_sound proper built
  refine ⟨x, lists, fresh, ⟨sound, ?_⟩, touched⟩
  rw [usedCells_free (by simp [filed])]
  exact Ledger.agrees_empty

theorem Construction.opens {b : Buffer} (small : b.size < 2 ^ 31) {k : Construction}
    (proper : k.Proper) {p : Pool} (built : k.build b = .ok (.ok p)) :
    ∃ x lists, p.tally = {} ∧ Session.Sound ⟨p, .empty⟩ 0 [x] lists ∧
      OnlyTouches b p.buffer (Set.Ico p.layout.firstBlock (p.layout.sentinel + 8)) := by
  obtain ⟨x, lists, fresh, stands, touched⟩ := Construction.stands proper built
  exact ⟨x, lists, fresh, ⟨stands, touched.size.symm ▸ small⟩, touched⟩

theorem Construction.starts {b : Buffer} (small : b.size < 2 ^ 31) {k : Construction}
    (proper : k.Proper) {p : Pool} (built : k.build b = .ok (.ok p)) :
    ∃ cells lists, Session.Sound ⟨p, .empty⟩ 0 cells lists ∧
      OnlyTouches b p.buffer (Set.Ico p.layout.firstBlock (p.layout.sentinel + 8)) := by
  obtain ⟨x, lists, -, opened⟩ := Construction.opens small proper built
  exact ⟨[x], lists, opened⟩

namespace Session

variable {s s' : Session} {n : Nat}

theorem runs_sound {b : Buffer} (small : b.size < 2 ^ 31) {k : Construction} (proper : k.Proper)
    {p : Pool} (built : k.build b = .ok (.ok p)) (calls : List Call) (few : calls.length < 2 ^ 63) :
    ∃ s cells lists, Session.run ⟨p, .empty⟩ calls = .ok s ∧ s.Sound calls.length cells lists := by
  obtain ⟨cells, lists, start, -⟩ := Construction.starts small proper built
  have limit : UInt64.size = 18446744073709551616 := rfl
  obtain ⟨s, cells', lists', run, sound⟩ := start.run calls (by omega)
  rw [Nat.zero_add] at sound
  exact ⟨s, cells', lists', run, sound⟩

theorem After.sound (after : s.After n) (bound : n < 2 ^ 63) :
    ∃ cells lists, s.Sound n cells lists := by
  obtain ⟨b, k, p, calls, small, proper, built, rfl, run⟩ := after
  obtain ⟨s', cells, lists, run', sound⟩ := runs_sound small proper built calls bound
  rw [run] at run'
  cases run'
  exact ⟨cells, lists, sound⟩

theorem Reachable.sound (reach : s.Reachable) :
    ∃ n cells lists, n + 1 < UInt64.size ∧ s.Sound n cells lists := by
  obtain ⟨n, bound, after⟩ := reach
  obtain ⟨cells, lists, sound⟩ := after.sound bound
  have limit : UInt64.size = 18446744073709551616 := rfl
  exact ⟨n, cells, lists, by omega, sound⟩

theorem reachable_of_session? {b : Buffer} (small : b.size < 2 ^ 31) {k : Construction}
    (proper : k.Proper) {calls : List Call} (few : calls.length < 2 ^ 63)
    (made : k.session? b calls = some s) : s.Reachable := by
  obtain ⟨p, built, run⟩ := Construction.of_session? made
  exact ⟨calls.length, few, b, k, p, calls, small, proper, built, rfl, run⟩

theorem After.run (after : s.After n) {calls : List Call} (run : s.run calls = .ok s') :
    s'.After (n + calls.length) := by
  obtain ⟨b, k, p, before, small, proper, built, rfl, start⟩ := after
  refine ⟨b, k, p, before ++ calls, small, proper, built, List.length_append, ?_⟩
  rw [run_append, start, Checked.ok_bind, run]

end Session

end Tlsf
