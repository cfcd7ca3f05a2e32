import Tlsf.Proofs.Carriage
import Tlsf.Proofs.ReleaseOrder

/-!
The same resize again. Whatever a resize had to do to succeed, the block that it
leaves is as large as was asked for and has too little to spare for another block,
and its owner, if one was named, is registered. So the same resize has nothing left
to do: it counts itself and changes nothing else.
-/

namespace Tlsf

open Dimensions

namespace Registry

variable {r : Registry} {p q : Pointer}

theorem register_contains (r : Registry) (p : Pointer) (owner : OwnerId) (parent : Option Pointer) :
    (r.register p owner parent).contains p = true := by
  simp [register, contains]

theorem repoint_contains {s : Registry} (other : p ≠ q) (run : r.repoint p q = (true, s)) :
    s.contains q = true := by
  cases node : (r.unregister q).node? p with
  | none =>
    rw [repoint_untracked other node] at run
    cases run
  | some n =>
    simp only [repoint, if_neg other, node] at run
    obtain ⟨-, rfl⟩ := Prod.mk.inj run
    simp [contains]

end Registry

def Tally.countUnchanged (t : Tally) : Tally :=
  { t with
    reallocate := t.reallocate.addSuccess
    resizes := { t.resizes with unchanged := t.resizes.unchanged + 1 } }

theorem Tally.Peaked.unchanged {t t' : Tally} {size : Nat} (peaked : t.Peaked)
    (run : t.reallocated .unchanged size size = .ok t') : t' = t.countUnchanged := by
  obtain ⟨calls, counted, run⟩ := Checked.of_bind run
  obtain ⟨resizes, resized, run⟩ := Checked.of_bind run
  obtain ⟨others, less, run⟩ := Checked.of_bind run
  obtain ⟨used, more, run⟩ := Checked.of_bind run
  obtain ⟨unchanged, added, resized⟩ := Checked.of_bind resized
  obtain ⟨le, rfl⟩ := Checked.of_sub less
  obtain rfl := Checked.of_add more
  obtain rfl := Checked.of_add added
  obtain rfl := CallCounts.of_countSuccess counted
  cases resized
  cases run
  simp only [setUsed, countUnchanged, Nat.sub_add_cancel le, Nat.max_eq_left peaked.active,
    Nat.max_eq_left peaked.usedPayload]

namespace Pool

variable {p p' : Pool} {n : Nat} {cells : List Cell} {lists : SizeClass → List Nat} {x : Cell}
  {size payload : Nat} {o : Option Ownership} {ptr q : Pointer} {r : Registry}

def countUnchanged (p : Pool) : Pool := { p with tally := p.tally.countUnchanged }

theorem enter_contains (owned : o.isSome = true) : (enter r q o).contains q = true := by
  obtain ⟨own, rfl⟩ := Option.isSome_iff_exists.mp owned
  exact r.register_contains q own.owner own.parent

theorem followResize_self (known : o.isSome = true → r.contains q = true) :
    followResize r q q o = r := by
  cases o with
  | none => simp [followResize]
  | some own => simp [followResize, known rfl]

theorem followResize_contains (owned : o.isSome = true) : (followResize r ptr q o).contains q = true := by
  obtain ⟨own, rfl⟩ := Option.isSome_iff_exists.mp owned
  by_cases same : q = ptr
  · subst same
    by_cases tracked : r.contains q = true
    · rwa [followResize_self fun _ => tracked]
    · simp [followResize, tracked, Registry.register_contains]
  · rcases renamed : r.repoint ptr q with ⟨found, s⟩
    by_cases tracked : s.contains q = true
    · simp [followResize, same, renamed, tracked]
    · have unknown : found = false := by
        cases found with
        | false => rfl
        | true => exact absurd (Registry.repoint_contains (Ne.symm same) renamed) tracked
      simp [followResize, same, renamed, unknown, tracked, Registry.register_contains]

theorem Resizes.known (ends : p.Resizes ptr size o (.ok q) p') (asked : size ≠ 0) :
    ∀ r ∈ p'.registry, o.isSome = true → r.contains q = true := by
  generalize found_eq : (Except.ok q : Except Error Pointer) = found at ends
  intro r mem owned
  cases ends with
  | allocates null ends =>
    subst found_eq
    cases ends with
    | idle nothing counted => exact absurd nothing asked
    | granted asked counted =>
      obtain ⟨r, -, rfl⟩ := Option.map_eq_some_iff.mp mem
      exact enter_contains owned
  | frees nonnull nothing ends => exact absurd nothing asked
  | failed counted => cases found_eq
  | resized nonnull asked counted =>
    cases found_eq
    obtain ⟨r, -, rfl⟩ := Option.map_eq_some_iff.mp mem
    exact followResize_contains owned

theorem Sound.fitted (sound : p.Sound n cells lists) (bound : n + 1 < UInt64.size) (asked : size ≠ 0)
    (run : p.reallocateFor ptr size o = .ok (.ok q, p')) :
    ∃ cells' lists' x payload, p'.Sound (n + 1) cells' lists' ∧ x ∈ usedCells cells' ∧
      x.pointer = q ∧ payloadFor? size = some payload ∧ payload ≤ x.size ∧ x.size ≤ payload + 16 := by
  rcases pointer_cases cells ptr with null | ⟨nonnull, ⟨x, mem, rfl⟩ | dead⟩
  · have allocates : p.allocateFor size o = .ok (.ok q, p') := by
      rwa [reallocateFor, if_pos null] at run
    rcases sound.allocateFor_carves bound asked o with
      ⟨-, failed⟩ | ⟨pre, x, post, payload, p₁, rfl, request, -, carved, carves⟩
    · rw [failed] at allocates
      cases allocates
    · rw [carved] at allocates
      cases allocates
      obtain ⟨-, -, granular, -⟩ := payloadFor?_eq_some request
      exact ⟨_, _, _, payload, carves.sound, carves.mem, x.kept_pointer payload .used, request,
        Cell.kept_size_ge carves.enough,
        Cell.kept_size_close (sound.holds.placed (by simp)).2.2.2.1 granular⟩
  · obtain ⟨-, -, result, p₁, -, resized, -, -, ends⟩ := sound.reallocateFor_spec bound mem asked o
    rw [run] at resized
    cases resized
    obtain ⟨x', payload, same, request, fitted, cells', lists', others, sound', -, new, -⟩ := ends q rfl
    exact ⟨cells', lists', x', payload, sound', new.symm.subset (List.mem_cons_self ..), same, request,
      fitted.enough, fitted.close⟩
  · obtain ⟨v, refused, -⟩ := reallocateFor_dead sound bound nonnull asked o dead
    rw [run] at refused
    cases refused

theorem Sound.reallocateFor_fitting (sound : p.Sound n cells lists) (bound : n + 1 < UInt64.size)
    (peaked : p.tally.Peaked) (mem : x ∈ usedCells cells) (asked : size ≠ 0)
    (request : payloadFor? size = some payload) (enough : payload ≤ x.size)
    (close : x.size ≤ payload + 16)
    (known : ∀ r ∈ p.registry, o.isSome = true → r.contains x.pointer = true) :
    p.reallocateFor x.pointer size o = .ok (.ok x.pointer, p.countUnchanged) ∧
      p.countUnchanged.Sound (n + 1) cells lists := by
  obtain ⟨memx, used⟩ := mem_usedCells.mp mem
  obtain ⟨pre, post, rfl⟩ := List.append_of_mem memx
  have stays := Arena.resize?_unchanged sound.holds request enough (by omega) p.stompFreed
  have perm := usedCells_perm (l := pre) (m := post) used
  obtain ⟨t, counted, counts⟩ := (sound.counts.perm perm).reallocated_spec (y := x) bound
    (payloadSum_perm perm ▸ sound.holds.payloadSum_lt) .unchanged
  obtain rfl := peaked.unchanged counted
  have registry : p.registry.map (followResize · x.pointer x.pointer o) = p.registry := by
    cases tracked : p.registry with
    | none => rfl
    | some r => exact congrArg some (followResize_self (known r tracked))
  have sized : Block.size p.arena.buffer x.header = .ok x.size := size_live sound mem
  refine ⟨?_, sound.count (counts.perm perm.symm)⟩
  simp only [reallocateFor, sound.pointer_ne_null mem, asked, header_live sound mem, stays, sized,
    counted, Checked.ok_bind, Checked.pure_eq, Bool.false_eq_true, if_false]
  change Except.ok (Except.ok x.pointer, { p with
    registry := p.registry.map (followResize · x.pointer x.pointer o)
    tally := p.tally.countUnchanged }) = _
  rw [registry]
  rfl

end Pool

namespace Session

variable {s s' : Session} {size : Nat} {ptr q : Pointer} {o : Option Pool.Ownership}

theorem resizes_repeat (reach : s.Reachable) (asked : size ≠ 0)
    (run : s.step (.reallocateFor ptr size o) = .ok (.ok (.pointer q), s')) :
    s'.step (.reallocateFor q size o) = .ok (.ok (.pointer q), ⟨s'.pool.countUnchanged, s'.ledger⟩) ∧
      ∃ st, s'.pool.statistics = .ok st ∧ s'.pool.countUnchanged.statistics = .ok { st with
        reallocate := st.reallocate.addSuccess
        resizes := { st.resizes with unchanged := st.resizes.unchanged + 1 } } := by
  have peaked := reach.peaked
  obtain ⟨n, few, after⟩ := reach
  have limit : UInt64.size = 18446744073709551616 := rfl
  obtain ⟨cells, lists, sound⟩ := after.sound few
  have raised := Call.raised peaked (step_run run).1
  obtain ⟨resized, ledger⟩ := of_step_reallocateFor asked run
  obtain ⟨cells', lists', x, payload, sound', mem, rfl, request, enough, close⟩ :=
    sound.pool.fitted (by omega) asked resized
  obtain ⟨again, later⟩ := sound'.reallocateFor_fitting (by omega) raised.peaked mem asked request
    enough close ((Pool.reallocateFor_ends resized).known asked)
  have entry : s'.ledger x.pointer = some x.size := by
    rw [ledger, Ledger.grant, if_pos rfl, sound'.reported mem]
  refine ⟨(step_reallocateFor again).trans ?_, _, sound'.statistics_eq, later.statistics_eq⟩
  congr 3
  funext r
  rw [Except.map, Ledger.after_reallocateFor asked]
  simp only [Ledger.grant, Ledger.without, List.mem_singleton, later.reported mem]
  by_cases same : r = x.pointer
  · rw [if_pos same, same, entry]
  · rw [if_neg same, if_neg same]

theorem resizes_repeat_sample : ∃ s s',
    (Construction.region 0 none (some .empty)).session? (.filled 256 0x21)
        [.allocateOwned 24 ⟨7⟩ none, .allocate 24] = some s ∧
      s.step (.reallocateOwned ⟨8⟩ 40 ⟨9⟩ (some ⟨40⟩)) = .ok (.ok (.pointer ⟨72⟩), s') ∧
      s'.step (.reallocateOwned ⟨72⟩ 40 ⟨9⟩ (some ⟨40⟩)) =
        .ok (.ok (.pointer ⟨72⟩), ⟨s'.pool.countUnchanged, s'.ledger⟩) := by
  let k := Construction.region 0 none (some .empty)
  have made : ((k.session? (.filled 256 0x21) [.allocateOwned 24 ⟨7⟩ none, .allocate 24]).bind
      fun s => (s.step (.reallocateOwned ⟨8⟩ 40 ⟨9⟩ (some ⟨40⟩))).toOption.map fun taken =>
        taken.1.toOption) = some (some (.pointer ⟨72⟩)) := by decide +kernel
  obtain ⟨s, session, taken⟩ := Option.bind_eq_some_iff.mp made
  obtain ⟨⟨result, s'⟩, step, answer⟩ := Option.map_eq_some_iff.mp taken
  have step := Checked.of_toOption step
  have small : (Buffer.filled 256 0x21).size < 2 ^ 31 := by decide +kernel
  have proper : k.Proper := Construction.proper_empty 0 none
  have reach := reachable_of_session? small proper (by decide) session
  cases result with
  | error e => cases answer
  | ok found =>
    obtain rfl : found = .pointer ⟨72⟩ := Option.some.inj answer
    have moved : s.step (.reallocateFor ⟨8⟩ 40 (some ⟨⟨9⟩, some ⟨40⟩⟩)) =
        .ok (.ok (.pointer ⟨72⟩), s') := step
    exact ⟨s, s', session, step, (resizes_repeat reach (by decide) moved).1⟩

end Session

end Tlsf
