import Tlsf.Proofs.FreeListChecks

/-!
What an integrity check vouches for. `Pool.Vetted` is all that a passed check
says about the blocks and the lists, and a pool that is vetted passes. It falls
short of `Pool.Consistent` in one place: the blocks on the lists look like free
blocks and are as many as the free blocks, but they need not be those. Where
they are, the pool is consistent; where some are not, a check passes all the
same, and `check_passes_stray` is a pool for which that happens.
-/

namespace Tlsf

open Dimensions Buffer

namespace Pool

variable {p : Pool} {blocks : List BlockInfo} {lists : SizeClass → List Nat} {c : SizeClass} {h : Nat}

structure Vetted (p : Pool) (blocks : List BlockInfo) (lists : SizeClass → List Nat) : Prop where
  chained : Chained p.buffer p.layout.sentinel none p.layout.firstBlock blocks
  live : ∀ h, h ∈ p.arena.live ↔
    ∃ i ∈ blocks, i.isFree = false ∧ i.pointer.offset = h + headerSize
  entries : ∀ c, ∀ h ∈ lists c, p.Entry c h
  count : (allListed lists).length = (freeHeaders blocks).length
  once : ∀ c, (lists c).Nodup
  linked : ∀ c, DoublyLinked p.buffer none (lists c)
  heads : ∀ c, c.Inside → p.arena.index.head c = .ok (lists c).head?
  slots : ∀ (c : SizeClass) (_ : c.fl < 24), c.sl < 32 →
    (p.arena.index.slots[c.fl].getLsbD c.sl = true ↔ lists c ≠ [])
  rows : ∀ fl, p.arena.index.rows.getLsbD fl = true ↔ ∃ sl, lists ⟨fl, sl⟩ ≠ []
  blank : ∀ c : SizeClass, ¬ c.Inside → lists c = []

/-- Every block on a list starts where a block of the pool starts. -/
def Rooted (blocks : List BlockInfo) (lists : SizeClass → List Nat) : Prop :=
  ∀ c, ∀ h ∈ lists c, ∃ i ∈ blocks, i.pointer.offset = h + headerSize

theorem isSome_head?_iff {l : List Nat} : l.head?.isSome = true ↔ l ≠ [] := by
  cases l <;> simp

theorem slots_ne_zero_iff {fl : Nat} (row : fl < 24)
    (slots : ∀ sl < 32, p.arena.index.slots[fl].getLsbD sl = true ↔ lists ⟨fl, sl⟩ ≠ [])
    (blank : ∀ c : SizeClass, ¬ c.Inside → lists c = []) :
    p.arena.index.slots[fl] ≠ 0 ↔ ∃ sl, lists ⟨fl, sl⟩ ≠ [] := by
  constructor
  · intro some_
    by_contra none
    push Not at none
    refine some_ (BitVec.eq_of_getLsbD_eq fun sl slot => ?_)
    have clear : ¬ p.arena.index.slots[fl].getLsbD sl = true := fun bit =>
      (slots sl slot).mp bit (none sl)
    simpa using clear
  · rintro ⟨sl, nonempty⟩ zero
    have slot : sl < 32 := by
      by_contra high
      exact nonempty (blank ⟨fl, sl⟩ fun inside => high inside.slot)
    have bit := (slots sl slot).mpr nonempty
    rw [zero] at bit
    simp at bit

theorem vetted_iff (bounded : p.Bounded) : p.Vetted blocks lists ↔
    p.Surveyed blocks ∧ p.Filing lists ∧ (allListed lists).length = (freeHeaders blocks).length := by
  constructor
  · intro v
    refine ⟨⟨v.chained, fun h => ?_⟩, ⟨fun c inside => ?_, fun fl row => ?_, v.blank⟩, v.count⟩
    · rw [v.live h, v.chained.mem_usedHeaders]
    · refine ⟨⟨_, Vector.getElem?_eq_getElem inside.row, ?_⟩, v.heads c inside, v.linked c, v.entries c⟩
      rw [Bool.eq_iff_iff, v.slots c inside.row inside.slot, isSome_head?_iff]
    · rw [Bool.eq_iff_iff, v.rows fl, decide_eq_true_eq,
        slots_ne_zero_iff row (fun sl slot => v.slots ⟨fl, sl⟩ row slot) v.blank]
  · rintro ⟨⟨chained, live⟩, ⟨filed, rows, blank⟩, count⟩
    have slots : ∀ (c : SizeClass) (_ : c.fl < 24), c.sl < 32 →
        (p.arena.index.slots[c.fl].getLsbD c.sl = true ↔ lists c ≠ []) := by
      intro c row slot
      obtain ⟨bits, word, agrees⟩ := (filed c ⟨row, slot⟩).slot
      obtain ⟨_, rfl⟩ := Vector.getElem?_eq_some_iff.mp word
      rw [agrees, isSome_head?_iff]
    -- the check follows the lists of the index; the other classes have none
    have listed : ∀ c, DoublyLinked p.buffer none (lists c) ∧ ∀ h ∈ lists c, p.Entry c h := by
      intro c
      by_cases inside : c.Inside
      · exact ⟨(filed c inside).linked, (filed c inside).entries⟩
      · rw [blank c inside]
        exact ⟨trivial, fun h mem => nomatch mem⟩
    refine ⟨chained, fun h => ?_, fun c => (listed c).2, count, fun c => (listed c).1.nodup,
      fun c => (listed c).1, fun c inside => (filed c inside).head, slots, fun fl => ?_, blank⟩
    · rw [live h, chained.mem_usedHeaders]
    · by_cases row : fl < 24
      · rw [rows fl row, decide_eq_true_eq,
          slots_ne_zero_iff row (fun sl slot => slots ⟨fl, sl⟩ row slot) blank]
      · rw [bounded.blank fl (Nat.not_lt.mp row)]
        refine iff_of_false Bool.false_ne_true ?_
        rintro ⟨sl, nonempty⟩
        exact nonempty (blank ⟨fl, sl⟩ fun inside => row inside.row)

theorem check_eq_iff (bounded : p.Bounded) :
    p.check = .ok (.ok ()) ↔ ∃ blocks lists, p.Vetted blocks lists := by
  constructor
  · intro run
    obtain ⟨surveyed, found, run⟩ := Checked.of_bind run
    cases surveyed with
    | error d => cases run
    | ok count =>
      obtain ⟨listed, checked, run⟩ := Checked.of_bind run
      cases listed with
      | error d => cases run
      | ok _ =>
        obtain ⟨blocks, survey, rfl⟩ := (survey_eq_iff bounded count).mp found
        obtain ⟨lists, filing, count⟩ := (checkLists_eq_iff _).mp checked
        exact ⟨blocks, lists, (vetted_iff bounded).mpr ⟨survey, filing, count⟩⟩
  · rintro ⟨blocks, lists, vetted⟩
    obtain ⟨survey, filing, count⟩ := (vetted_iff bounded).mp vetted
    have found := (survey_eq_iff bounded _).mpr ⟨blocks, survey, rfl⟩
    have checked := (checkLists_eq_iff _).mpr ⟨lists, filing, count⟩
    simp only [check, found, checked, Checked.ok_bind, Checked.pure_eq]

/-! Lists of blocks of the pool -/

section Rooted

theorem Vetted.block_of_listed (v : p.Vetted blocks lists) (rooted : Rooted blocks lists)
    (mem : h ∈ lists c) : ∃ i ∈ blocks, i.isFree = true ∧ i.pointer.offset = h + headerSize ∧
      SizeClass.ofSize i.size = c := by
  obtain ⟨i, memi, offset⟩ := rooted c h mem
  obtain ⟨_, tells, -⟩ := v.chained.block memi
  rw [(v.chained.offset_iff memi).mp offset] at tells
  have entry := v.entries c h mem
  obtain ⟨size, sized, filed⟩ := entry.filed
  have isFree : i.isFree = true := Except.ok.inj (tells.free.symm.trans entry.free)
  obtain rfl : i.size = size := Except.ok.inj (tells.size.symm.trans sized)
  exact ⟨i, memi, isFree, offset, filed⟩

theorem Vetted.allListed_nodup (v : p.Vetted blocks lists) : (allListed lists).Nodup := by
  refine Pool.allListed_nodup v.once fun c d h memc memd => ?_
  obtain ⟨size, sized, filed⟩ := (v.entries c h memc).filed
  obtain ⟨size', sized', filed'⟩ := (v.entries d h memd).filed
  obtain rfl : size = size' := Except.ok.inj (sized.symm.trans sized')
  exact filed.symm.trans filed'

/-- As many different free blocks as there are on the lists are all of them. -/
theorem Vetted.consistent (v : p.Vetted blocks lists) (rooted : Rooted blocks lists) :
    p.Consistent blocks lists := by
  have sub : allListed lists ⊆ freeHeaders blocks := by
    intro h mem
    obtain ⟨c, -, listed⟩ := mem_allListed.mp mem
    obtain ⟨i, memi, isFree, offset, -⟩ := v.block_of_listed rooted listed
    exact v.chained.mem_freeHeaders.mpr ⟨i, memi, isFree, offset⟩
  have perm : (allListed lists).Perm (freeHeaders blocks) :=
    (List.subperm_of_subset v.allListed_nodup sub).perm_of_length_le (Nat.le_of_eq v.count.symm)
  refine ⟨v.chained, v.live, fun c h => ⟨v.block_of_listed rooted, ?_⟩, v.once, v.linked, v.heads,
    v.slots, v.rows⟩
  rintro ⟨i, memi, isFree, offset, rfl⟩
  have listed := perm.mem_iff.mpr (v.chained.mem_freeHeaders.mpr ⟨i, memi, isFree, offset⟩)
  obtain ⟨d, -, memd⟩ := mem_allListed.mp listed
  obtain ⟨j, memj, -, offset', rfl⟩ := v.block_of_listed rooted memd
  have same : i.header = j.header :=
    ((v.chained.offset_iff memi).mp offset).trans ((v.chained.offset_iff memj).mp offset').symm
  rwa [v.chained.eq_of_header_eq memi memj same]

theorem Consistent.rooted (cons : p.Consistent blocks lists) : Rooted blocks lists := by
  intro c h mem
  obtain ⟨i, memi, -, offset, -⟩ := (cons.listed c h).mp mem
  exact ⟨i, memi, offset⟩

theorem Consistent.class_unique (cons : p.Consistent blocks lists) {d : SizeClass}
    (memc : h ∈ lists c) (memd : h ∈ lists d) : c = d := by
  obtain ⟨i, memi, -, offset, rfl⟩ := (cons.listed c h).mp memc
  obtain ⟨j, memj, -, offset', rfl⟩ := (cons.listed d h).mp memd
  have same : i.header = j.header :=
    ((cons.chained.offset_iff memi).mp offset).trans ((cons.chained.offset_iff memj).mp offset').symm
  rw [cons.chained.eq_of_header_eq memi memj same]

theorem Consistent.entry (cons : p.Consistent blocks lists) (mem : h ∈ lists c) : p.Entry c h := by
  obtain ⟨i, memi, isFree, offset, filed⟩ := (cons.listed c h).mp mem
  obtain ⟨_, tells, -, low, high, least⟩ := cons.chained.block memi
  obtain rfl := (cons.chained.offset_iff memi).mp offset
  rw [isFree] at tells
  refine ⟨low, ?_, tells.free, i.size, tells.size, filed⟩
  simp only [headerSize, minPayload] at high least ⊢
  omega

theorem Consistent.inside (cons : p.Consistent blocks lists) (bounded : p.Bounded)
    (nonempty : lists c ≠ []) : c.Inside := by
  obtain ⟨h, mem⟩ := List.exists_mem_of_ne_nil _ nonempty
  obtain ⟨i, memi, -, -, rfl⟩ := (cons.listed c h).mp mem
  obtain ⟨-, -, -, low, high, -⟩ := cons.chained.block memi
  have span := bounded.span
  simp only [headerSize] at high
  exact SizeClass.ofSize_inside (by omega)

theorem Consistent.vetted (cons : p.Consistent blocks lists) (bounded : p.Bounded) :
    p.Vetted blocks lists := by
  refine ⟨cons.chained, cons.live, fun c h => cons.entry, ?_, cons.once, cons.linked, cons.heads,
    cons.slots, cons.rows, fun c outside => ?_⟩
  · have distinct := Pool.allListed_nodup cons.once fun c d h => cons.class_unique
    refine ((List.perm_ext_iff_of_nodup distinct (cons.chained.filter_nodup _)).mpr fun h => ?_).length_eq
    refine mem_allListed.trans (Iff.trans ?_ cons.chained.mem_freeHeaders.symm)
    constructor
    · rintro ⟨c, -, mem⟩
      obtain ⟨i, memi, isFree, offset, -⟩ := (cons.listed c h).mp mem
      exact ⟨i, memi, isFree, offset⟩
    · rintro ⟨i, memi, isFree, offset⟩
      have mem := (cons.listed _ h).mpr ⟨i, memi, isFree, offset, rfl⟩
      exact ⟨_, cons.inside bounded (List.ne_nil_of_mem mem), mem⟩
  · by_contra nonempty
    exact outside (cons.inside bounded nonempty)

theorem consistent_iff (bounded : p.Bounded) :
    p.Consistent blocks lists ↔ p.Vetted blocks lists ∧ Rooted blocks lists :=
  ⟨fun cons => ⟨cons.vetted bounded, cons.rooted⟩, fun ⟨v, rooted⟩ => v.consistent rooted⟩

end Rooted

theorem Sound.check {n : Nat} {cells : List Cell} (sound : p.Sound n cells lists) :
    p.check = .ok (.ok ()) :=
  (check_eq_iff sound.bounded).mpr ⟨_, lists, sound.consistent.vetted sound.bounded⟩

/-! Damaged pools -/

/-- The bytes of the buffer may have become any others; nothing else has changed. -/
def Scribbled (p p' : Pool) : Prop :=
  ∃ b : Buffer, b.size = p.buffer.size ∧ p' = { p with arena := { p.arena with buffer := b } }

theorem Scribbled.bounded {p' : Pool} (s : p.Scribbled p') (bounded : p.Bounded) : p'.Bounded := by
  obtain ⟨b, size, rfl⟩ := s
  exact ⟨bounded.aligned, bounded.inside, Nat.le_trans bounded.region (Nat.le_of_eq size.symm),
    bounded.low, bounded.span, bounded.blank⟩

theorem Scribbled.trans {p' p'' : Pool} (s : p.Scribbled p') (s' : p'.Scribbled p'') :
    p.Scribbled p'' := by
  obtain ⟨b, size, rfl⟩ := s
  obtain ⟨b', size', rfl⟩ := s'
  exact ⟨b', size'.trans size, rfl⟩

theorem overwrite_scribbled {p' : Pool} {offset : Nat} {data : ByteArray}
    (run : p.overwrite offset data = .ok p') : p.Scribbled p' := by
  obtain ⟨a, edited, made⟩ := Checked.of_bind run
  obtain ⟨b, patched, rest⟩ := Checked.of_bind edited
  obtain rfl := Except.ok.inj made
  obtain rfl := Except.ok.inj rest
  refine ⟨b, ?_, rfl⟩
  have patched : p.buffer.patch offset data = .ok b := patched
  unfold Buffer.patch at patched
  split at patched
  · obtain rfl := Except.ok.inj patched
    exact Buffer.size_update ..
  · cases patched

def overwriteAll (p : Pool) (writes : List (Nat × ByteArray)) : Checked Pool :=
  writes.foldlM (fun p w => p.overwrite w.1 w.2) p

theorem overwriteAll_scribbled {p' : Pool} {writes : List (Nat × ByteArray)}
    (run : p.overwriteAll writes = .ok p') : p.Scribbled p' := by
  induction writes generalizing p with
  | nil =>
    obtain rfl : p = p' := Except.ok.inj run
    exact ⟨p.buffer, rfl, rfl⟩
  | cons w rest ih =>
    obtain ⟨p₁, first, later⟩ := Checked.of_bind run
    exact (overwrite_scribbled first).trans (ih later)

end Pool

namespace Session

open Pool

/-- A check of a pool with any bytes passes exactly if the pool is vetted, and
a vetted pool is consistent exactly if its lists hold blocks of the pool. -/
theorem check_vouches {s : Session} {p : Pool} (reach : s.Reachable) (bytes : s.pool.Scribbled p) :
    (p.check = .ok (.ok ()) ↔ ∃ blocks lists, p.Vetted blocks lists) ∧
      ∀ blocks lists, p.Vetted blocks lists →
        p.walk = .ok blocks ∧ (p.Consistent blocks lists ↔ Rooted blocks lists) := by
  obtain ⟨n, cells, lists, -, sound⟩ := reach.sound
  have bounded := bytes.bounded sound.pool.bounded
  refine ⟨check_eq_iff bounded, fun blocks lists vetted => ⟨vetted.chained.walk, ?_⟩⟩
  rw [consistent_iff bounded, and_iff_right vetted]

theorem check_vouches_sample : ∃ s p blocks lists,
    Construction.whole.session? (.filled 256 0) [.allocate 48] = some s ∧
      s.pool.overwriteAll [(16, ⟨#[0x11, 0, 0, 0]⟩), (84, ⟨#[0xA1, 0, 0, 0]⟩)] = .ok p ∧
      p.walk = .ok blocks ∧ p.Vetted blocks lists := by
  have made : ((Construction.whole.session? (.filled 256 0) [.allocate 48]).bind fun s =>
      (s.pool.overwriteAll [(16, ⟨#[0x11, 0, 0, 0]⟩), (84, ⟨#[0xA1, 0, 0, 0]⟩)]).toOption.map
        Pool.check) = some (.ok (.ok ())) := by decide +kernel
  obtain ⟨s, session, rest⟩ := Option.bind_eq_some_iff.mp made
  obtain ⟨p, written, clear⟩ := Option.map_eq_some_iff.mp rest
  have written := Checked.of_toOption written
  have small : (Buffer.filled 256 0).size < 2 ^ 31 := by decide +kernel
  have proper : Construction.whole.Proper := trivial
  have reach : s.Reachable := reachable_of_session? small proper (by decide) session
  obtain ⟨passes, told⟩ := check_vouches reach (overwriteAll_scribbled written)
  obtain ⟨blocks, lists, vetted⟩ := passes.mp clear
  exact ⟨s, p, blocks, lists, session, written, (told blocks lists vetted).1, vetted⟩

/-- A used block grown over the header of the free block behind it, and a free
block made of the rest: the list still leads to the old header, which lies
inside a payload now, and there is one free block as before. -/
theorem check_passes_stray : ∃ s p, Construction.whole.session? (.filled 256 0) [.allocate 48] = some s ∧
    s.pool.overwriteAll
        [(4, ⟨#[0x48, 0, 0, 0]⟩), (84, ⟨#[0xA1, 0, 0, 0]⟩), (248, ⟨#[0x50, 0, 0, 0]⟩)] = .ok p ∧
      p.check = .ok (.ok ()) ∧ p.walk = .ok [⟨⟨8⟩, 72, false⟩, ⟨⟨88⟩, 160, true⟩] ∧
      p.arena.index.head ⟨0, 23⟩ = .ok (some 56) ∧ ∀ blocks lists, ¬ p.Consistent blocks lists := by
  have made : ((Construction.whole.session? (.filled 256 0) [.allocate 48]).bind fun s =>
      (s.pool.overwriteAll [(4, ⟨#[0x48, 0, 0, 0]⟩), (84, ⟨#[0xA1, 0, 0, 0]⟩),
        (248, ⟨#[0x50, 0, 0, 0]⟩)]).toOption.map fun p =>
          (p.check, p.walk, p.arena.index.head ⟨0, 23⟩)) =
      some (.ok (.ok ()), .ok [⟨⟨8⟩, 72, false⟩, ⟨⟨88⟩, 160, true⟩], .ok (some 56)) := by
    decide +kernel
  obtain ⟨s, session, rest⟩ := Option.bind_eq_some_iff.mp made
  obtain ⟨p, written, found⟩ := Option.map_eq_some_iff.mp rest
  obtain ⟨clear, reads⟩ := Prod.mk.inj found
  obtain ⟨walk, head⟩ := Prod.mk.inj reads
  refine ⟨s, p, session, Checked.of_toOption written, clear, walk, head, fun blocks lists cons => ?_⟩
  -- the head of the list would have to be the header of a free block
  have blocksEq := cons.chained.walk
  rw [show walkFrom p.buffer p.layout.firstBlock = p.walk from rfl, walk] at blocksEq
  obtain rfl := Except.ok.inj blocksEq
  have first := cons.heads ⟨0, 23⟩ ⟨by decide, by decide⟩
  rw [head] at first
  have listed : 56 ∈ lists ⟨0, 23⟩ := List.mem_of_mem_head? (Except.ok.inj first).symm
  obtain ⟨i, mem, -, offset, -⟩ := (cons.listed _ _).mp listed
  simp at mem
  rcases mem with rfl | rfl <;> exact absurd offset (by decide)

end Session

end Tlsf
