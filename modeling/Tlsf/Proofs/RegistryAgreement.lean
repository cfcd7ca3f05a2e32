import Tlsf.Proofs.RegistryEffects
import Tlsf.Proofs.Uncounted

/-!
The registry and the pool in step. `Deeds` is a book of owners that a host keeps from
its calls and their answers: a pointer gets a deed when it is granted to an owner,
loses it when it is given back, and a resized block takes its deed along. As long as
nobody edits the registry, it tracks exactly the pointers with a deed, for the owner
of the deed, and all of them are live. That outlasts any number of calls, over
buffers of any size.
-/

namespace Tlsf

open Dimensions Buffer

/-! Deeds -/

abbrev Deeds : Type := Pointer → Option OwnerId

namespace Deeds

def empty : Deeds := fun _ => none

def without (d : Deeds) (ptrs : List Pointer) : Deeds := fun q => if q ∈ ptrs then none else d q

/-- A granted pointer has the deed of the block that it was made from, or else one for the owner
that the call names. -/
def grant (d : Deeds) (call : Call) (ptr : Pointer) (returned : List Pointer) : Deeds := fun q =>
  if q = ptr then (call.resized.bind d).or (call.owns.map (·.owner)) else d.without returned q

def after (d : Deeds) (p : Pool) (call : Call) : Except Error Answer → Deeds
  | .error _ => d
  | .ok (.pointer ptr) =>
    if call.asks = 0 then d.without (call.returns p) else d.grant call ptr (call.returns p)
  | .ok _ => d.without (call.returns p)

section After

variable {d : Deeds} {p : Pool} {call : Call} {answer : Answer} {ptr : Pointer}

theorem after_silent (silent : ∀ ptr, answer = .pointer ptr → call.asks = 0) :
    d.after p call (.ok answer) = d.without (call.returns p) := by
  cases answer with
  | pointer ptr => exact if_pos (silent ptr rfl)
  | _ => rfl

theorem after_asked (asked : call.asks ≠ 0) :
    d.after p call (.ok (.pointer ptr)) = d.grant call ptr (call.returns p) := if_neg asked

end After

def afterAll (d : Deeds) (s : Session) : List Call → Deeds
  | [] => d
  | call :: rest =>
    match s.step call with
    | .ok (result, s') => (d.after s.pool call result).afterAll s' rest
    | .error _ => d

end Deeds

/-- The pointers that the pool granted, has not had back, and vouches for. -/
def Session.Live (s : Session) (ptr : Pointer) : Prop :=
  s.ledger ptr ≠ none ∧ s.pool.violation? ptr = .ok none

/-- What a call leaves of the registry: a tracked pointer that is not given back keeps its owner,
and a resized one its owner and its place. -/
structure Call.Retains (call : Call) (p : Pool) (result : Except Error Answer) (r r' : Registry) :
    Prop where
  stays : ∀ q o, r.owner? q = some o → (∀ answer, result = .ok answer → q ∉ call.returns p) →
    r'.owner? q = some o
  carries : ∀ ptr q, call.resized = some ptr → result = .ok (.pointer q) → call.asks ≠ 0 →
    r.contains ptr = true → r.Carries r' ptr q

/-- The registry `r` of a session agrees with its pool and with the deeds `d`, and goes on so. -/
structure Session.Agreement (s : Session) (r : Registry) (d : Deeds) : Prop where
  registry : s.pool.registry = some r
  live : ∀ q n, r.node? q = some n → s.Live q ∧ (∀ u ∈ n.parent, s.Live u) ∧ ∀ c ∈ n.children, s.Live c
  deeds : ∀ q, r.owner? q = d q
  retains : ∀ call, ¬ call.EditsRegistry → ∀ result s', s.step call = .ok (result, s') →
    ∃ r', s'.pool.registry = some r' ∧ call.Retains s.pool result r r'
  recursive : ∀ ptr, s.Live ptr →
    (∃ p', s.pool.freeRecursive ptr = .ok (.ok (s.pool.subtree ptr).length, p')) ∨
      s.pool.freeRecursive ptr = .error .overflow

/-! One call -/

/-- The registry tracks the pointers with a deed, and no others than granted ones. -/
structure Registry.InStep (r : Registry) (l : Ledger) (d : Deeds) : Prop where
  forest : r.Forest
  deeds : ∀ q, r.owner? q = d q
  granted : ∀ q, r.owner? q ≠ none → l q ≠ none

namespace Registry.InStep

variable {r : Registry} {l : Ledger} {d : Deeds} {p p' : Pool} {call : Call} {answer : Answer}
  {q : Pointer} {n : Registration}

theorem node_granted (inStep : r.InStep l d) (node : r.node? q = some n) : l q ≠ none :=
  inStep.granted q (by simp [owner?_of_node node])

theorem untracked (inStep : r.InStep l d) (alone : l q = none) : r.owner? q = none := by
  by_contra tracked
  exact inStep.granted q tracked alone

theorem dropped (inStep : r.InStep l d) (null : ∀ q, q.isNull = true → l q = none)
    (silent : ∀ q, answer = .pointer q → call.asks = 0) :
    ((nonnull (call.returns p)).foldl unregister r).InStep (l.after p p' call (.ok answer))
        (d.after p call (.ok answer)) ∧
      call.Retains p (.ok answer) r ((nonnull (call.returns p)).foldl unregister r) := by
  have owners : ∀ x, ((nonnull (call.returns p)).foldl unregister r).owner? x =
      if x ∈ call.returns p then none else r.owner? x := by
    intro x
    rw [foldl_unregister_owner? inStep.forest]
    by_cases back : x ∈ call.returns p
    · cases isNull : x.isNull with
      | false => simp [mem_nonnull, back, isNull]
      | true => simp [mem_nonnull, back, isNull, inStep.untracked (null x isNull)]
    · simp [mem_nonnull, back]
  refine ⟨⟨foldl_unregister_forest inStep.forest _, fun x => ?_, fun x tracked => ?_⟩,
    fun x o owned kept => ?_, fun ptr q resizes same asked => ?_⟩
  · rw [owners, Deeds.after_silent silent, Deeds.without, inStep.deeds]
  · rw [owners] at tracked
    rw [Ledger.after_silent silent, Ledger.without]
    by_cases back : x ∈ call.returns p
    · rw [if_pos back] at tracked
      exact absurd rfl tracked
    · rw [if_neg back] at tracked ⊢
      exact inStep.granted x tracked
  · rw [owners, if_neg (kept answer rfl), owned]
  · exact absurd (silent q (Except.ok.inj same)) asked

end Registry.InStep

/-- The registry `r'` is `r` after a call on `p` was granted `q`. -/
structure Call.Grants (call : Call) (p : Pool) (q : Pointer) (r r' : Registry) : Prop where
  forest : r'.Forest
  owners : ∀ x, r'.owner? x =
    if x = q then (call.resized.bind r.owner?).or (call.owns.map (·.owner))
    else if x ∈ call.returns p then none else r.owner? x
  carries : ∀ ptr, call.resized = some ptr → r.contains ptr = true → r.Carries r' ptr q

namespace Call

open Registry Pool

variable {r r' : Registry} {l : Ledger} {d : Deeds} {p p' : Pool} {call : Call} {q ptr : Pointer}

theorem grants_enter (f : r.Forest) (fresh : r.owner? q = none)
    (nothing : ∀ x ∈ call.returns p, r.owner? x = none)
    (anew : ∀ x ∈ call.resized, r.owner? x = none) : call.Grants p q r (enter r q call.owns) := by
  have base : call.resized.bind r.owner? = none := by
    rw [Option.bind_eq_none_iff]
    exact anew
  refine ⟨enter_forest f, fun x => ?_, fun ptr resizes tracked => ?_⟩
  · rw [enter_owner? f fresh, base, Option.none_or]
    by_cases back : x ∈ call.returns p
    · rw [if_pos back, nothing x back]
    · rw [if_neg back]
  · obtain ⟨n, node⟩ := contains_iff.mp tracked
    have untracked := anew ptr resizes
    rw [owner?_of_node node] at untracked
    cases untracked

theorem grants_followResize (f : r.Forest) (fresh : q ≠ ptr → r.owner? q = none)
    (resizes : call.resized = some ptr) (returns : call.returns p = [ptr]) :
    call.Grants p q r (followResize r ptr q call.owns) := by
  cases node : r.node? ptr with
  | none =>
    have untracked : r.owner? ptr = none := owner?_eq_none_iff.mpr node
    have fresh' : r.owner? q = none := by
      by_cases same : q = ptr
      · rw [same, untracked]
      · exact fresh same
    rw [followResize_untracked node (owner?_eq_none_iff.mp fresh')]
    refine grants_enter f fresh' (fun x back => ?_) fun x same => ?_
    · rw [returns, List.mem_singleton] at back
      rw [back, untracked]
    · rw [resizes] at same
      rw [← Option.some.inj same, untracked]
  | some n =>
    obtain ⟨carries, owners⟩ := followResize_tracked (o := call.owns) f node
      fun other => owner?_eq_none_iff.mp (fresh other)
    refine ⟨followResize_forest f _ _ _, fun x => ?_, fun ptr' resizes' _ => ?_⟩
    · rw [owners, resizes, Option.bind_some, owner?_of_node node, Option.some_or, returns]
      simp only [List.mem_singleton]
    · rw [resizes] at resizes'
      exact Option.some.inj resizes' ▸ carries

namespace Grants

theorem inStep (grants : call.Grants p q r r') (inStep : r.InStep l d) (asked : call.asks ≠ 0) :
    r'.InStep (l.after p p' call (.ok (.pointer q))) (d.after p call (.ok (.pointer q))) := by
  have same : r.owner? = d := funext inStep.deeds
  refine ⟨grants.forest, fun x => ?_, fun x tracked => ?_⟩
  · rw [grants.owners, Deeds.after_asked asked, Deeds.grant, Deeds.without, same]
  · rw [grants.owners] at tracked
    rw [Ledger.after_asked asked, Ledger.grant, Ledger.without]
    by_cases here : x = q
    · simp [here]
    · rw [if_neg here] at tracked ⊢
      by_cases back : x ∈ call.returns p
      · rw [if_pos back] at tracked
        exact absurd rfl tracked
      · rw [if_neg back] at tracked ⊢
        exact inStep.granted x tracked

theorem retains (grants : call.Grants p q r r') (fresh : q ∉ call.returns p → r.owner? q = none) :
    call.Retains p (.ok (.pointer q)) r r' := by
  refine ⟨fun x o owned kept => ?_, fun ptr q' resizes same _ tracked => ?_⟩
  · have out := kept _ rfl
    have other : x ≠ q := by
      rintro rfl
      rw [fresh out] at owned
      cases owned
    rw [grants.owners, if_neg other, if_neg out, owned]
  · cases same
    exact grants.carries ptr resizes tracked

end Grants

theorem Ends.registry_failed {n : Nat} {cells : List Cell} {e : Error}
    (ends : call.Ends p n cells (.error e) p') : p'.registry = p.registry := by
  cases ends with
  | refused kind trades => rfl

theorem Ends.fresh {n : Nat} {cells : List Cell} (ends : call.Ends p n cells (.ok (.pointer q)) p')
    (asked : call.asks ≠ 0) (out : q ∉ call.returns p) : ∀ x ∈ usedCells cells, x.pointer ≠ q := by
  generalize result_eq : (Except.ok (.pointer q) : Except Error Answer) = result at ends
  cases ends with
  | refused kind trades => cases result_eq
  | kept gone silent returned trades => exact absurd (silent q (Except.ok.inj result_eq.symm)) asked
  | rewrote mem writes trades => cases result_eq
  | @granted g p' gone asked large returned trades =>
    cases result_eq
    obtain ⟨cells', lists', others, sound, old, new, -⟩ := trades
    intro x mem same
    refine (List.mem_append.mp (old.subset mem)).elim (fun back => ?_) fun stays => ?_
    · exact out (same ▸ (returned x mem).mp back)
    · exact pointer_fresh sound new x stays same

end Call

namespace Session

open Registry

variable {s s' : Session} {r : Registry} {d : Deeds} {cells : List Cell} {lists : SizeClass → List Nat}
  {calls : List Call}

theorem Rests.null (rests : s.Rests cells lists) (q : Pointer) (null : q.isNull = true) :
    s.ledger q = none :=
  (rests.book.none_iff q).mpr fun _ mem => rests.pool.pointer_ne null mem

theorem Rests.live (rests : s.Rests cells lists) {q : Pointer} (granted : s.ledger q ≠ none) :
    s.Live q := by
  refine ⟨granted, ?_⟩
  obtain ⟨x, mem, rfl⟩ := (rests.book.granted_iff q).mp granted
  have vouched := Pool.violation?_live rests.pool mem
  exact vouched

theorem Rests.registry_step (rests : s.Rests cells lists) (tracked : s.pool.registry = some r)
    (inStep : r.InStep s.ledger d) {call : Call} (own : ¬ call.EditsRegistry)
    {result : Except Error Answer} (run : s.step call = .ok (result, s')) :
    ∃ r', s'.pool.registry = some r' ∧ r'.InStep s'.ledger (d.after s.pool call result) ∧
      call.Retains s.pool result r r' := by
  obtain ⟨t, cells', lists', ends, -⟩ := rests.step run
  obtain ⟨⟨result, p'⟩, called, same⟩ := Checked.of_bind run
  cases same
  cases result with
  | error e =>
    have kept : p'.registry = s.pool.registry := ends.registry_failed
    exact ⟨r, kept.trans tracked, inStep, fun q o owned _ => owned, fun _ _ _ same => nomatch same⟩
  | ok answer =>
    have registers := call.registers called own
    generalize p'.registry = after at registers
    cases registers with
    | dropped silent =>
      obtain ⟨next, retains⟩ := inStep.dropped rests.null silent
      exact ⟨_, by rw [tracked, Option.map_some], next, retains⟩
    | @entered q asked nothing anew =>
      have free : ∀ x : Pointer, x.isNull = true → r.owner? x = none :=
        fun x null => inStep.untracked (rests.null x null)
      -- the pointer may be one that the call itself gives back; that is null here, and null has no owner
      have fresh : r.owner? q = none := by
        by_cases back : q ∈ call.returns s.pool
        · exact free q (nothing q back)
        · exact inStep.untracked ((rests.book.none_iff q).mpr (ends.fresh asked back))
      have grants : call.Grants s.pool q r (Pool.enter r q call.owns) :=
        Call.grants_enter inStep.forest fresh (fun x back => free x (nothing x back))
          fun x same => free x (anew x same)
      exact ⟨_, by rw [tracked, Option.map_some], grants.inStep inStep asked,
        grants.retains fun _ => fresh⟩
    | @followed ptr q asked resizes returns =>
      have fresh : q ∉ call.returns s.pool → r.owner? q = none := fun out =>
        inStep.untracked ((rests.book.none_iff q).mpr (ends.fresh asked out))
      have grants : call.Grants s.pool q r (Pool.followResize r ptr q call.owns) :=
        Call.grants_followResize inStep.forest
          (fun other => fresh (by simpa [returns] using other)) resizes returns
      exact ⟨_, by rw [tracked, Option.map_some], grants.inStep inStep asked,
        grants.retains fresh⟩

/-! Runs -/

theorem Rests.registry_run (rests : s.Rests cells lists) (tracked : s.pool.registry = some r)
    (inStep : r.InStep s.ledger d) (own : ∀ call ∈ calls, ¬ call.EditsRegistry)
    (run : s.run calls = .ok s') :
    ∃ cells' lists' r', s'.Rests cells' lists' ∧ s'.pool.registry = some r' ∧
      r'.InStep s'.ledger (d.afterAll s calls) := by
  induction calls generalizing s r d cells lists with
  | nil =>
    obtain rfl : s = s' := Except.ok.inj run
    exact ⟨cells, lists, r, rests, tracked, inStep⟩
  | cons call rest ih =>
    obtain ⟨ownCall, ownRest⟩ := List.forall_mem_cons.mp own
    obtain ⟨⟨result, s₁⟩, first, later⟩ := Checked.of_bind run
    obtain ⟨-, cells₁, lists₁, -, rests₁⟩ := rests.step first
    obtain ⟨r₁, tracked₁, inStep₁, -⟩ := rests.registry_step tracked inStep ownCall first
    have follow : d.afterAll s (call :: rest) = (d.after s.pool call result).afterAll s₁ rest := by
      simp only [Deeds.afterAll, first]
    rw [follow]
    exact ih rests₁ tracked₁ inStep₁ ownRest later

end Session

namespace Pool

open Registry

theorem descendants_tracked {r : Registry} (f : r.Forest) {x ptr : Pointer}
    (mem : x ∈ r.descendants ptr) : ∃ n, r.node? x = some n := by
  obtain ⟨q, up, -⟩ := f.parent?_of_descends (f.mem_descendants_iff.mp mem)
  exact tracked_of_parent? up

theorem Sound.freeRecursive_live {p : Pool} {n : Nat} {cells : List Cell}
    {lists : SizeClass → List Nat} (sound : p.Sound n cells lists) (bound : n + 1 < UInt64.size)
    {ptr : Pointer} (nonnull : ptr.isNull = false)
    (live : ∀ q ∈ p.subtree ptr, ∃ x ∈ usedCells cells, x.pointer = q) :
    ∃ p', p.freeRecursive ptr = .ok (.ok (p.subtree ptr).length, p') := by
  rcases freeRecursive_spec sound bound nonnull with ⟨v, q, -, mem, dead, -⟩ | ⟨gone, p', run, pointers, -⟩
  · obtain ⟨x, memx, same⟩ := live q mem
    exact absurd same (dead x memx)
  · rw [← pointers, List.length_map]
    exact ⟨p', run⟩

end Pool

theorem Construction.registry_eq {b : Buffer} {k : Construction} {p : Pool}
    (built : k.build b = .ok (.ok p)) (start : Nat) (size : Option Nat) (registry : Option Registry)
    (region : k = .region start size registry) : p.registry = registry := by
  subst region
  rcases Pool.create_laid b start size registry with
    ⟨e, refused⟩ | ⟨-, wrapped⟩ | ⟨a, l, lists, made, -⟩
  · cases built.symm.trans refused
  · cases built.symm.trans wrapped
  · cases built.symm.trans made
    rfl

theorem Construction.proper_of_empty {b : Buffer} {k : Construction} {p : Pool}
    (built : k.build b = .ok (.ok p)) (empty : p.registry = some .empty) : k.Proper := by
  cases k with
  | whole => trivial
  | config c => trivial
  | region start size registry =>
    rw [← Construction.registry_eq built start size registry rfl, empty]
    exact Construction.proper_empty start size

namespace Session

open Registry

variable {s : Session} {r : Registry} {d : Deeds} {cells : List Cell} {lists : SizeClass → List Nat}

theorem subtree_granted (tracked : s.pool.registry = some r) (inStep : r.InStep s.ledger d)
    {ptr : Pointer} (granted : s.ledger ptr ≠ none) : ∀ q ∈ s.pool.subtree ptr, s.ledger q ≠ none := by
  intro q mem
  rw [Pool.subtree, tracked] at mem
  rcases List.mem_append.mp mem with below | last
  · obtain ⟨n, node⟩ := Pool.descendants_tracked inStep.forest below
    exact inStep.node_granted node
  · rwa [List.mem_singleton.mp last]

theorem Stands.freeRecursive {n : Nat} (stands : s.Stands n cells lists)
    (bound : n + 1 < UInt64.size) (tracked : s.pool.registry = some r)
    (inStep : r.InStep s.ledger d) {ptr : Pointer} (granted : s.ledger ptr ≠ none) :
    ∃ p', s.pool.freeRecursive ptr = .ok (.ok (s.pool.subtree ptr).length, p') := by
  obtain ⟨x, mem, rfl⟩ := (stands.book.granted_iff ptr).mp granted
  exact stands.pool.freeRecursive_live bound (stands.pool.pointer_ne_null mem) fun q below =>
    (stands.book.granted_iff q).mp (subtree_granted tracked inStep granted q below)

theorem Rests.agreement (rests : s.Rests cells lists) (tracked : s.pool.registry = some r)
    (inStep : r.InStep s.ledger d) : s.Agreement r d := by
  refine ⟨tracked, fun q n node => ⟨rests.live (inStep.node_granted node), fun u up => ?_,
    fun c child => ?_⟩, inStep.deeds, fun call own result s' run => ?_, fun ptr live => ?_⟩
  · obtain ⟨m, node'⟩ := inStep.forest.closed q u ((parent?_eq node).trans up)
    exact rests.live (inStep.node_granted node')
  · obtain ⟨m, node'⟩ := tracked_of_parent? ((inStep.forest.children q n node c).mp child)
    exact rests.live (inStep.node_granted node')
  · obtain ⟨r', tracked', -, retains⟩ := rests.registry_step tracked inStep own run
    exact ⟨r', tracked', retains⟩
  · have few := rests.pool.used_few
    obtain ⟨p₀, run₀⟩ := Stands.freeRecursive rests (by omega) tracked inStep live.1
    have uncounted := s.pool.freeRecursive_uncounted (.holding (usedCells cells)) ptr
    rw [run₀] at uncounted
    refine uncounted.cases_ok.imp_left ?_
    rintro ⟨⟨found, p'⟩, run, rfl, -⟩
    exact ⟨p', run⟩

/-- Whatever calls a host makes on a pool that starts with an empty registry, as long as it leaves the
registry alone, the registry agrees with the pool and with the deeds. A recursive release of a live
pointer goes through; only one of `2 ^ 63` calls or more could overflow a counter. -/
theorem registry_agrees {b : Buffer} {k : Construction} {p : Pool} (built : k.build b = .ok (.ok p))
    (empty : p.registry = some .empty) {calls : List Call}
    (own : ∀ call ∈ calls, ¬ call.EditsRegistry) :
    (∀ s, Session.run ⟨p, .empty⟩ calls = .ok s →
      ∃ r, s.Agreement r (Deeds.empty.afterAll ⟨p, .empty⟩ calls)) ∧
    (calls.length < 2 ^ 63 → ∃ s, Session.run ⟨p, .empty⟩ calls = .ok s ∧
      ∀ ptr, s.Live ptr →
        ∃ p', s.pool.freeRecursive ptr = .ok (.ok (s.pool.subtree ptr).length, p')) := by
  have proper := Construction.proper_of_empty built empty
  obtain ⟨x, lists, -, start, -⟩ := Construction.stands proper built
  have inStep : Registry.InStep .empty Ledger.empty Deeds.empty := by
    have untracked : ∀ q, Registry.empty.owner? q = none := fun q => by
      simp [Registry.owner?, Registry.node?, Registry.empty]
    exact ⟨forest_empty, untracked, fun q tracked => absurd (untracked q) tracked⟩
  constructor
  · intro s run
    obtain ⟨cells', lists', r, rests, tracked, inStep'⟩ :=
      start.rests.registry_run empty inStep own run
    exact ⟨r, rests.agreement tracked inStep'⟩
  · intro few
    have limit : UInt64.size = 18446744073709551616 := rfl
    obtain ⟨s, cells', lists', run, stands, -⟩ := start.run calls (by omega)
    obtain ⟨cells'', lists'', r, -, tracked, inStep'⟩ :=
      start.rests.registry_run empty inStep own run
    exact ⟨s, run, fun ptr live => stands.freeRecursive (by omega) tracked inStep' live.1⟩

theorem registry_agrees_sample : ∃ p s r,
    (Construction.region 0 none (some .empty)).build (.filled 256 0x77) = .ok (.ok p) ∧
      Session.run ⟨p, .empty⟩ [.allocateOwned 24 ⟨7⟩ none, .allocateOwned 20 ⟨8⟩ (some ⟨8⟩),
        .reallocate ⟨8⟩ 60, .allocate 10] = .ok s ∧
      s.Agreement r (Deeds.empty.afterAll ⟨p, .empty⟩ [.allocateOwned 24 ⟨7⟩ none,
        .allocateOwned 20 ⟨8⟩ (some ⟨8⟩), .reallocate ⟨8⟩ 60, .allocate 10]) ∧
      r.owner? ⟨72⟩ = some ⟨7⟩ ∧ s.pool.subtree ⟨72⟩ = [⟨40⟩, ⟨72⟩] ∧ r.owner? ⟨8⟩ = none ∧
      s.ledger ⟨8⟩ = some 24 ∧ ∃ p', s.pool.freeRecursive ⟨72⟩ = .ok (.ok 2, p') := by
  let k := Construction.region 0 none (some .empty)
  let calls : List Call := [.allocateOwned 24 ⟨7⟩ none, .allocateOwned 20 ⟨8⟩ (some ⟨8⟩),
    .reallocate ⟨8⟩ 60, .allocate 10]
  have made : ((k.session? (.filled 256 0x77) calls).map fun s =>
      (s.pool.registry.elim [] fun r => [r.owner? ⟨72⟩, r.owner? ⟨8⟩], s.pool.subtree ⟨72⟩,
        s.ledger ⟨8⟩)) = some ([some ⟨7⟩, none], [⟨40⟩, ⟨72⟩], some 24) := by decide +kernel
  obtain ⟨s, session, entries⟩ := Option.map_eq_some_iff.mp made
  simp only [Prod.mk.injEq] at entries
  obtain ⟨owners, below, reused⟩ := entries
  obtain ⟨p, built, run⟩ := Construction.of_session? session
  have empty : p.registry = some .empty := Construction.registry_eq built 0 none (some .empty) rfl
  have own : ∀ call ∈ calls, ¬ call.EditsRegistry := by simp [calls, Call.EditsRegistry]
  obtain ⟨agrees, goes⟩ := registry_agrees built empty own
  obtain ⟨r, agreement⟩ := agrees s run
  obtain ⟨s', run', recursive⟩ := goes (by decide)
  obtain rfl : s = s' := Except.ok.inj (run.symm.trans run')
  rw [agreement.registry, Option.elim_some, List.cons.injEq, List.cons.injEq] at owners
  obtain ⟨owner, untracked, -⟩ := owners
  obtain ⟨n, node, -⟩ := Option.map_eq_some_iff.mp owner
  have freed := recursive ⟨72⟩ (agreement.live ⟨72⟩ n node).1
  rw [below] at freed
  exact ⟨p, s, r, built, run, agreement, owner, below, untracked, reused, freed⟩

end Session

end Tlsf
