import Tlsf.Proofs.Grants

/-!
Resizes against allocations. A live block stays where it is if it is large enough
already, or if the free block behind it makes it so; otherwise it goes where an
allocation of the same size would have gone, and stays as it is if that would have
failed. Whichever way it takes, the contents come along as far as they fit, and the
new block is as tight as a fresh one.
-/

namespace Tlsf

open Dimensions Buffer

/-- Whether an allocation of `old` bytes can have `size` bytes in its place. -/
def Pool.Fits (p : Pool) (ptr : Pointer) (old size : Nat) : Prop :=
  ∃ payload, payloadFor? size = some payload ∧ (payload ≤ old ∨ ∃ pre i j post,
    p.walk = .ok (pre ++ i :: j :: post) ∧ i.pointer = ptr ∧ j.isFree = true ∧
      payload ≤ old + headerSize + j.size)

/-- The allocation `ptr` of `old` bytes goes on as `q`, with `granted` bytes. -/
structure Session.Carries (s s' : Session) (ptr q : Pointer) (old payload granted : Nat) : Prop where
  reported : s'.pool.allocationSize q = .ok (.ok granted)
  enough : payload ≤ granted
  close : granted ≤ payload + 16
  contents : ∃ before after, s.pool.payload ptr = .ok (.ok before) ∧
    s'.pool.payload q = .ok (.ok after) ∧ before.size = old ∧ after.size = granted ∧
    after.extract 0 (min old granted) = before.extract 0 (min old granted)
  ledger : s'.ledger = Function.update (Function.update s.ledger ptr none) q (some granted)
  live : s'.pool.arena.live =
    (s.pool.arena.live.erase (ptr.offset - headerSize)).insert (q.offset - headerSize)

namespace Pool

variable {p p' : Pool} {n m : Nat} {cells cells' others pre post : List Cell}
  {lists lists' : SizeClass → List Nat} {x x' : Cell} {size payload : Nat} {o : Option Ownership}

def Resized (p : Pool) (n : Nat) (cells : List Cell) (x : Cell) (size : Nat) (q : Pointer)
    (p' : Pool) : Prop :=
  ∃ x' payload, x'.pointer = q ∧ payloadFor? size = some payload ∧
    Arena.Fitted p.buffer p'.buffer x x' payload ∧ p.Trades p' (n + 1) cells [x] [x']

theorem Sound.fits_iff (sound : p.Sound n (pre ++ x :: post) lists) :
    p.Fits x.pointer x.size size ↔
      ∃ payload, payloadFor? size = some payload ∧ Arena.Stays x post payload := by
  have settled := sound.stable.settled.behind.filed
  refine exists_congr fun payload => and_congr_right fun _ => or_congr_right ⟨?_, ?_⟩
  · rintro ⟨before, i, j, after, walk, same, free, room⟩
    rw [sound.walk] at walk
    obtain ⟨pre', rest, split, -, here⟩ := List.map_eq_append_iff.mp (Except.ok.inj walk)
    obtain ⟨y, rest, rfl, rfl, behind⟩ := List.map_eq_cons_iff.mp here
    obtain ⟨z, post', rfl, rfl, -⟩ := List.map_eq_cons_iff.mp behind
    -- a block is told by its pointer, and a tiling is split in one way at a block
    have memx : x ∈ pre ++ x :: post := by simp
    have memy : y ∈ pre ++ x :: post := split ▸ (by simp)
    have offsets := congrArg Pointer.offset same
    change y.pointer.offset = x.pointer.offset at offsets
    rw [Cell.pointer_offset (sound.holds.header_fits memx),
      Cell.pointer_offset (sound.holds.header_fits memy)] at offsets
    obtain ⟨-, -, rfl⟩ := sound.holds.tiles.split_unique split (Nat.add_right_cancel offsets).symm
    have filed := (Cell.used_or_filed (settled z (List.mem_cons_self ..))).resolve_left
      ((Cell.isFree_iff z).mp free)
    refine ⟨z, rfl, filed, ?_⟩
    change payload ≤ x.size + 8 + z.size at room
    omega
  · rintro ⟨z, head, filed, room⟩
    obtain ⟨post, rfl⟩ := List.head?_eq_some_iff.mp head
    refine ⟨pre.map Cell.info, x.info, z.info, post.map Cell.info, ?_, rfl,
      Cell.isFree_of_filed filed, ?_⟩
    · rw [sound.walk, List.map_append, List.map_cons, List.map_cons]
    · change payload ≤ x.size + 8 + z.size
      omega

theorem Sound.allocate_spec (sound : p.Sound n cells lists) (bound : n + 1 < UInt64.size)
    (asked : size ≠ 0) :
    ∃ found p', p.allocate size = .ok (found, p') ∧
      ((p.arena.allocate? size = .ok none ∧ found = .error (.outOfMemory size)) ∨
        ∃ h a, p.arena.allocate? size = .ok (some (h, a)) ∧ found = .ok (pointerOf h) ∧
          ∀ x ∈ usedCells cells, x.pointer ≠ pointerOf h) := by
  rcases sound.allocateFor_carves bound asked none with
    ⟨none, run⟩ | ⟨pre, x, post, payload, p', rfl, -, taken, run, carves⟩
  · exact ⟨_, _, run, .inl ⟨none, rfl⟩⟩
  · exact ⟨_, _, run, .inr ⟨x.header, _, taken, rfl, carves.fresh⟩⟩

/-- A resize either keeps the pointer or answers what an allocation would have answered. -/
theorem Sound.reallocateFor_spec (sound : p.Sound n cells lists) (bound : n + 1 < UInt64.size)
    (mem : x ∈ usedCells cells) (asked : size ≠ 0) (o : Option Ownership) :
    ∃ found p₁ result p', p.allocate size = .ok (found, p₁) ∧
      p.reallocateFor x.pointer size o = .ok (result, p') ∧
      (p.Fits x.pointer x.size size → result = .ok x.pointer) ∧
      (¬ p.Fits x.pointer x.size size → result = found ∧ found ≠ .ok x.pointer) ∧
      ∀ q, result = .ok q → p.Resized n cells x size q p' := by
  obtain ⟨found, p₁, allocated, answer⟩ := sound.allocate_spec bound asked
  obtain ⟨memx, used⟩ := mem_usedCells.mp mem
  obtain ⟨pre, post, rfl⟩ := List.append_of_mem memx
  have ends : ∀ {x' payload}, payloadFor? size = some payload →
      p.arena.ResizesTo p.layout.firstBlock p.layout.sentinel (pre ++ x :: post) x x' size payload
        p.stompFreed →
      ∃ p', p.reallocateFor x.pointer size o = .ok (.ok x'.pointer, p') ∧
        ∀ q, (.ok x'.pointer : Except Error Pointer) = .ok q →
          p.Resized n (pre ++ x :: post) x size q p' := by
    intro x' payload request resizes
    obtain ⟨p', run, fitted, trades⟩ := reallocateFor_resized sound bound mem asked o resizes
    exact ⟨p', run, fun q same => ⟨x', payload, Except.ok.inj same, request, fitted, trades⟩⟩
  by_cases fits : p.Fits x.pointer x.size size
  · obtain ⟨payload, request, stays⟩ := sound.fits_iff.mp fits
    obtain ⟨x', header, resizes⟩ := Arena.resize?_stays sound.stable used request stays p.stompFreed
    obtain ⟨p', run, resized⟩ := ends request resizes
    have same : x'.pointer = x.pointer := congrArg pointerOf header
    rw [same] at run resized
    exact ⟨found, p₁, _, p', allocated, run, fun _ => rfl, fun stuck => absurd fits stuck, resized⟩
  · rcases Arena.resize?_moved_effect sound.stable used
      (fun payload request stays => fits (sound.fits_iff.mpr ⟨payload, request, stays⟩)) p.stompFreed
      with ⟨none, stays⟩ | ⟨g, payload, a, request, taken, resizes⟩
    · have run := (reallocateFor_refused sound bound mem asked o stays).1
      rcases answer with ⟨-, rfl⟩ | ⟨h, a, taken, -⟩
      · exact ⟨_, p₁, _, _, allocated, run, fun fit => absurd fit fits, fun _ => ⟨rfl, nofun⟩, nofun⟩
      · rw [none] at taken
        cases taken
    · obtain ⟨p', run, resized⟩ := ends request resizes
      rcases answer with ⟨none, -⟩ | ⟨h, a', found', rfl, fresh⟩
      · rw [none] at taken
        cases taken
      · obtain ⟨rfl, rfl⟩ := Prod.mk.inj (Option.some.inj (Except.ok.inj (taken.symm.trans found')))
        exact ⟨_, p₁, _, p', allocated, run, fun fit => absurd fit fits,
          fun _ => ⟨rfl, fun same => fresh x mem (Except.ok.inj same).symm⟩, resized⟩

theorem Sound.mem_live_iff (sound : p.Sound n cells lists)
    (used : (usedCells cells).Perm (x :: others)) (h : Nat) :
    h ∈ p.arena.live ↔ x.header = h ∨ ∃ y ∈ others, y.header = h := by
  have split : ∀ y, y ∈ cells ∧ y.status = .used ↔ y = x ∨ y ∈ others := by
    intro y
    rw [← mem_usedCells, used.mem_iff, List.mem_cons]
  rw [sound.holds.live h, UsedAt]
  constructor
  · rintro ⟨y, mem, header, status⟩
    rcases (split y).mp ⟨mem, status⟩ with rfl | other
    · exact .inl header
    · exact .inr ⟨y, other, header⟩
  · rintro (header | ⟨y, other, header⟩)
    · obtain ⟨mem, status⟩ := (split x).mpr (.inl rfl)
      exact ⟨x, mem, header, status⟩
    · obtain ⟨mem, status⟩ := (split y).mpr (.inr other)
      exact ⟨y, mem, header, status⟩

theorem Sound.live_traded (sound : p.Sound n cells lists) (sound' : p'.Sound m cells' lists')
    (old : (usedCells cells).Perm (x :: others)) (new : (usedCells cells').Perm (x' :: others)) :
    p'.arena.live = (p.arena.live.erase x.header).insert x'.header := by
  have fresh := Call.pointer_fresh sound old
  refine Std.ExtTreeSet.ext_mem fun h => ?_
  rw [Std.ExtTreeSet.mem_insert, Std.ExtTreeSet.mem_erase, sound.mem_live_iff old,
    sound'.mem_live_iff new, Std.compare_eq_iff_eq, Ne, Std.compare_eq_iff_eq]
  constructor
  · rintro (own | ⟨y, other, rfl⟩)
    · exact .inl own
    · exact .inr ⟨fun same => fresh y other (congrArg pointerOf same.symm), .inr ⟨y, other, rfl⟩⟩
  · rintro (own | ⟨differ, here | there⟩)
    · exact .inl own
    · exact absurd here differ
    · exact .inr there

end Pool

namespace Session

variable {s : Session} {n old size : Nat} {cells : List Cell} {lists : SizeClass → List Nat} {x : Cell}
  {ptr q : Pointer} {p : Pool}

theorem Sound.carries (sound : s.Sound n cells lists) (mem : x ∈ usedCells cells)
    (resized : s.pool.Resized n cells x size q p) {s' : Session} (pool : s'.pool = p)
    (ledger : s'.ledger = (s.ledger.without [x.pointer]).grant p q) :
    ∃ payload granted, payloadFor? size = some payload ∧
      s.Carries s' x.pointer q x.size payload granted := by
  subst pool
  obtain ⟨x', payload, rfl, request, fitted, cells', lists', others, sound', old, new, -⟩ := resized
  have mem' : x' ∈ usedCells cells' := new.symm.subset (List.mem_cons_self ..)
  refine ⟨payload, x'.size, request, Pool.allocationSize_live sound' mem', fitted.enough, fitted.close,
    ?_, ?_, ?_⟩
  · obtain ⟨before, run, size, bytes⟩ := sound.pool.reads mem
    obtain ⟨after, run', size', bytes'⟩ := sound'.reads mem'
    refine ⟨before, after, run, run', size, size', ?_⟩
    apply ByteArray.ext_getElem
    · rw [ByteArray.size_extract, ByteArray.size_extract, size, size']
      omega
    · intro i inside inside'
      rw [ByteArray.size_extract] at inside inside'
      rw [ByteArray.getElem_extract, ByteArray.getElem_extract, bytes', bytes,
        sound'.pointer_offset mem', sound.pool.pointer_offset mem]
      simp only [Nat.zero_add]
      exact fitted.contents i (by omega)
  · funext r
    rw [ledger, Ledger.grant, Ledger.without, sound'.reported mem', Function.update_apply,
      Function.update_apply]
    simp only [List.mem_singleton]
  · rw [sound.pool.pointer_offset mem, sound'.pointer_offset mem']
    exact sound.pool.live_traded sound' old new

/-- A granted pointer that is resized stays if it fits and otherwise goes where an allocation would
have gone, and either way it takes its contents along. -/
theorem resizes_carry (reach : s.Reachable) (granted : s.ledger ptr = some old) (asked : size ≠ 0)
    (o : Option Pool.Ownership) :
    ∃ found p₁ result s', s.pool.allocate size = .ok (found, p₁) ∧
      s.step (.reallocateFor ptr size o) = .ok (result, s') ∧
      (s.pool.Fits ptr old size → result = .ok (.pointer ptr)) ∧
      (¬ s.pool.Fits ptr old size → result = found.map .pointer ∧ found ≠ .ok ptr) ∧
      ∀ q, result = .ok (.pointer q) → ∃ payload granted, payloadFor? size = some payload ∧
        s.Carries s' ptr q old payload granted := by
  obtain ⟨n, cells, lists, bound, sound⟩ := reach.sound
  obtain ⟨x, mem, rfl, rfl⟩ := (sound.book ptr old).mp granted
  obtain ⟨found, p₁, result, p, allocated, run, stays, moves, resized⟩ :=
    sound.pool.reallocateFor_spec bound mem asked o
  refine ⟨found, p₁, _, _, allocated, step_reallocateFor run, fun fits => ?_, fun stuck => ?_,
    fun q same => ?_⟩
  · rw [stays fits]
    rfl
  · obtain ⟨rfl, other⟩ := moves stuck
    exact ⟨rfl, other⟩
  · cases result with
    | error e => cases same
    | ok ptr =>
      obtain rfl : ptr = q := Answer.pointer.inj (Except.ok.inj same)
      exact sound.carries mem (resized ptr rfl) rfl (Ledger.after_reallocateFor asked)

theorem resizes_carry_sample : ∃ s s' granted,
    Construction.whole.session? (.filled 256 0x5A)
        [.allocate 24, .rewrite ⟨8⟩ .ofNat, .allocate 24] = some s ∧
      s.step (.reallocate ⟨8⟩ 40) = .ok (.ok (.pointer ⟨72⟩), s') ∧
      s.Carries s' ⟨8⟩ ⟨72⟩ 24 40 granted := by
  have made : ((Construction.whole.session? (.filled 256 0x5A)
      [.allocate 24, .rewrite ⟨8⟩ .ofNat, .allocate 24]).map fun s =>
        (s.ledger ⟨8⟩, (s.step (.reallocate ⟨8⟩ 40)).toOption.bind fun taken => taken.1.toOption)) =
      some (some 24, some (.pointer ⟨72⟩)) := by decide +kernel
  obtain ⟨s, session, entries⟩ := Option.map_eq_some_iff.mp made
  obtain ⟨granted, answer⟩ := Prod.mk.inj entries
  have small : (Buffer.filled 256 0x5A).size < 2 ^ 31 := by decide +kernel
  have proper : Construction.whole.Proper := trivial
  have reach : s.Reachable := reachable_of_session? small proper (by decide) session
  obtain ⟨found, p₁, result, s', -, step, -, -, carried⟩ :=
    resizes_carry reach granted (show 40 ≠ 0 by decide) none
  have step : s.step (.reallocate ⟨8⟩ 40) = .ok (result, s') := step
  rw [step] at answer
  cases result with
  | error e => cases answer
  | ok moved =>
    obtain rfl : moved = .pointer ⟨72⟩ := Option.some.inj answer
    obtain ⟨payload, held, request, carries⟩ := carried ⟨72⟩ rfl
    obtain rfl : 40 = payload := Option.some.inj request
    exact ⟨s, s', held, session, step, carries⟩

end Session

end Tlsf
