import Tlsf.Pool.Walk
import Tlsf.Proofs.SessionRuns

/-!
What a consistent pool is, in the pool's own reads. A walk gives the blocks in
address order; `Chained` follows them from header to header up to the sentinel
and says what each header holds. `Pool.Consistent` adds that the used blocks
are those that are handed out, that each free block is on the list of its class
once, that the lists are linked both ways, and that both bitmaps mirror them.

A sound pool is consistent, and its walk ends with its blocks.
-/

namespace Tlsf

open Dimensions Buffer

/-- What the header at `h` tells; `prev` is the header of the block before it, if that is free. -/
structure HeaderTells (b : Buffer) (h size : Nat) (free : Bool) (prev : Option Nat) : Prop where
  size : Block.size b h = .ok size
  free : Block.isFree b h = .ok free
  prevFree : Block.isPrevFree b h = .ok prev.isSome
  back : ∀ q ∈ prev, Block.prevPhysical b h = .ok q

/-- Blocks one behind the other from `h` to the sentinel. -/
def Chained (b : Buffer) (sentinel : Nat) : (prev : Option Nat) → (h : Nat) → List BlockInfo → Prop
  | prev, h, [] => h = sentinel ∧ HeaderTells b h 0 false prev
  | prev, h, i :: rest =>
    i.pointer.offset = h + headerSize ∧ h % alignment = 0 ∧ minPayload ≤ i.size ∧
      i.size % alignment = 0 ∧ HeaderTells b h i.size i.isFree prev ∧
      (i.isFree = true → prev = none) ∧
      Chained b sentinel (if i.isFree then some h else none) (h + headerSize + i.size) rest

/-- The blocks of a list, linked both ways; `back` is the one before them. -/
def DoublyLinked (b : Buffer) : (back : Option Nat) → List Nat → Prop
  | _, [] => True
  | back, h :: rest =>
    Block.nextLink b h = .ok rest.head? ∧ Block.prevLink b h = .ok back ∧
      DoublyLinked b (some h) rest

structure Pool.Consistent (p : Pool) (blocks : List BlockInfo) (lists : SizeClass → List Nat) :
    Prop where
  chained : Chained p.buffer p.layout.sentinel none p.layout.firstBlock blocks
  live : ∀ h, h ∈ p.arena.live ↔
    ∃ i ∈ blocks, i.isFree = false ∧ i.pointer.offset = h + headerSize
  listed : ∀ c h, h ∈ lists c ↔ ∃ i ∈ blocks,
    i.isFree = true ∧ i.pointer.offset = h + headerSize ∧ SizeClass.ofSize i.size = c
  once : ∀ c, (lists c).Nodup
  linked : ∀ c, DoublyLinked p.buffer none (lists c)
  heads : ∀ c, c.Inside → p.arena.index.head c = .ok (lists c).head?
  slots : ∀ (c : SizeClass) (_ : c.fl < 24), c.sl < 32 →
    (p.arena.index.slots[c.fl].getLsbD c.sl = true ↔ lists c ≠ [])
  rows : ∀ fl, p.arena.index.rows.getLsbD fl = true ↔ ∃ sl, lists ⟨fl, sl⟩ ≠ []

def Cell.info (x : Cell) : BlockInfo := ⟨x.pointer, x.size, x.isFree⟩

section Walk

variable {b : Buffer} {prev : Option Nat} {lo hi : Nat} {cells : List Cell}

theorem Sized.sizeWord_eq {x : Cell} {prevFree : Bool} (s : Sized b x prevFree) :
    ∃ w, Block.word b x.header = .ok w ∧ w.size = x.size ∧ w.isFree = x.isFree :=
  ⟨_, s.word_eq, SizeWord.size_ofParts _ _ s.fits s.granular,
    SizeWord.isFree_ofParts _ _ s.fits s.granular⟩

theorem walkFrom_stop {w : SizeWord} (read : Block.word b lo = .ok w) (empty : w.size = 0) :
    Pool.walkFrom b lo = .ok [] := by
  rw [Pool.walkFrom]
  split
  · rename_i e failed
    rw [read] at failed
    cases failed
  · rename_i w' read'
    rw [read] at read'
    cases read'
    exact if_pos empty

theorem walkFrom_next {w : SizeWord} (read : Block.word b lo = .ok w) (more : w.size ≠ 0) :
    Pool.walkFrom b lo = (do
      let rest ← Pool.walkFrom b (lo + headerSize + w.size)
      pure (⟨.ofOffset (lo + headerSize), w.size, w.isFree⟩ :: rest)) := by
  rw [Pool.walkFrom]
  split
  · rename_i e failed
    rw [read] at failed
    cases failed
  · rename_i w' read'
    rw [read] at read'
    cases read'
    exact if_neg more

theorem Tiles.walk (tiles : Tiles lo cells hi) (tags : Tags b prev (cells ++ [.sentinel hi])) :
    Pool.walkFrom b lo = .ok (cells.map Cell.info) := by
  induction cells generalizing lo prev with
  | nil =>
    obtain ⟨w, read, size, -⟩ := tags.1.sized.sizeWord_eq
    have stop : lo = hi := tiles
    rw [stop]
    exact walkFrom_stop read size
  | cons x rest ih =>
    obtain ⟨start, regular, behind⟩ := tiles
    obtain ⟨w, read, size, free⟩ := tags.1.sized.sizeWord_eq
    have least := regular.minimum
    rw [start] at read
    have next : Pool.walkFrom b (lo + headerSize + w.size) = .ok (rest.map Cell.info) := by
      rw [size, ← start]
      exact ih behind tags.2
    rw [walkFrom_next read (by omega), next, Checked.ok_bind, Checked.pure_eq, size, free, ← start]
    rfl

theorem Tagged.tells {x : Cell} (tag : Tagged b x prev) (fits : ∀ q ∈ prev, q < UInt32.size) :
    HeaderTells b x.header x.size x.isFree prev := by
  refine ⟨tag.sized.size_eq, tag.sized.isFree_eq, tag.sized.isPrevFree_eq, fun q mem => ?_⟩
  obtain rfl := Option.mem_def.mp mem
  exact tag.prevPhysical_eq (fits q rfl)

theorem Linked.doublyLinked {b : Buffer} {back : Option Nat} {l : List Nat}
    (linked : Linked b back l none) (room : ∀ h ∈ l, h + 16 ≤ b.size)
    (limit : ∀ h ∈ l, h < Block.nullLink.toNat) (limitBack : ∀ h ∈ back, h < Block.nullLink.toNat) :
    DoublyLinked b back l := by
  induction l generalizing back with
  | nil => trivial
  | cons h rest ih =>
    rw [List.forall_mem_cons] at room limit
    obtain ⟨forward, backward, behind⟩ := linked
    rw [Option.or_none] at forward
    have next := nextLink_eq room.1 forward fun o mem => limit.2 o (List.mem_of_mem_head? mem)
    refine ⟨next, prevLink_eq room.1 backward limitBack, ih behind room.2 limit.2 fun o mem => ?_⟩
    obtain rfl := Option.some.inj mem
    exact limit.1

theorem Tiles.chained (tiles : Tiles lo cells hi) (tags : Tags b prev (cells ++ [.sentinel hi]))
    (aligned : lo % 8 = 0) (fits : ∀ x ∈ cells, x.header + 8 < UInt32.size) (settled : Settled cells)
    (fitsPrev : ∀ q ∈ prev, q < UInt32.size)
    (apart : prev ≠ none → ∀ x ∈ cells.head?, x.status = .used) :
    Chained b hi prev lo (cells.map Cell.info) := by
  induction cells generalizing lo prev with
  | nil =>
    have stop : lo = hi := tiles
    have tells := tags.1.tells fitsPrev
    rw [Cell.isFree_of_used (Cell.sentinel_status hi)] at tells
    exact ⟨stop, stop ▸ tells⟩
  | cons x rest ih =>
    obtain ⟨start, regular, behind⟩ := tiles
    rw [List.forall_mem_cons] at fits
    have whole : Settled ([] ++ x :: rest) := settled
    have granular := regular.granular
    have next : x.stop % 8 = 0 := by
      rw [x.stop_eq]
      omega
    have follow : (if x.info.isFree then some lo else none) = x.freeHeader? := by
      rw [← start]
      rfl
    refine ⟨?_, aligned, regular.minimum, granular, ?_, fun free => ?_, ?_⟩
    · rw [← start]
      exact Cell.pointer_offset fits.1
    · rw [← start]
      exact tags.1.tells fitsPrev
    · by_contra behindFree
      exact (Cell.isFree_iff x).mp free (apart behindFree x rfl)
    · rw [follow, ← start]
      refine ih behind tags.2 next fits.2 whole.behind (fun q mem => ?_) fun free => ?_
      · by_cases here : x.isFree = true
        · rw [Cell.freeHeader?, if_pos here] at mem
          obtain rfl := Option.some.inj mem
          omega
        · rw [Cell.freeHeader?, if_neg here] at mem
          cases mem
      -- no two free blocks meet, so what follows a free one is used
      · refine (whole.neighbours fun used => free ?_).2
        rw [Cell.freeHeader?, Cell.isFree_of_used used]
        rfl

end Walk

namespace Pool

variable {p : Pool} {n : Nat} {cells : List Cell} {lists : SizeClass → List Nat}

theorem Sound.walk (sound : p.Sound n cells lists) : p.walk = .ok (cells.map Cell.info) :=
  sound.holds.tiles.walk sound.holds.tags

theorem Sound.filed_iff (sound : p.Sound n cells lists) {x : Cell} (mem : x ∈ cells) :
    x.status = .filed ↔ x.info.isFree = true := by
  constructor
  · exact Cell.isFree_of_filed
  · intro free
    refine (Cell.used_or_filed (sound.stable.settled.filed x mem)).resolve_left ?_
    exact (Cell.isFree_iff x).mp free

theorem Sound.info_offset (sound : p.Sound n cells lists) {x : Cell} (mem : x ∈ cells) {h : Nat} :
    x.info.pointer.offset = h + headerSize ↔ x.header = h := by
  have offset : x.info.pointer.offset = x.header + headerSize :=
    Cell.pointer_offset (sound.holds.header_fits mem)
  rw [offset]
  exact Nat.add_right_cancel_iff

theorem Sound.listed_iff (sound : p.Sound n cells lists) (c : SizeClass) (h : Nat) :
    h ∈ lists c ↔ ∃ i ∈ cells.map Cell.info,
      i.isFree = true ∧ i.pointer.offset = h + headerSize ∧ SizeClass.ofSize i.size = c := by
  rw [sound.holds.listed c h]
  constructor
  · rintro ⟨x, mem, header, filed, cls⟩
    exact ⟨x.info, List.mem_map_of_mem mem, (sound.filed_iff mem).mp filed,
      (sound.info_offset mem).mpr header, cls⟩
  · rintro ⟨i, mem, free, offset, cls⟩
    obtain ⟨x, memx, rfl⟩ := List.mem_map.mp mem
    exact ⟨x, memx, (sound.info_offset memx).mp offset, (sound.filed_iff memx).mpr free, cls⟩

theorem Sound.live_iff (sound : p.Sound n cells lists) (h : Nat) :
    h ∈ p.arena.live ↔
      ∃ i ∈ cells.map Cell.info, i.isFree = false ∧ i.pointer.offset = h + headerSize := by
  rw [sound.holds.live h]
  constructor
  · rintro ⟨x, mem, header, used⟩
    exact ⟨x.info, List.mem_map_of_mem mem, Cell.isFree_of_used used,
      (sound.info_offset mem).mpr header⟩
  · rintro ⟨i, mem, used, offset⟩
    obtain ⟨x, memx, rfl⟩ := List.mem_map.mp mem
    refine ⟨x, memx, (sound.info_offset memx).mp offset, ?_⟩
    by_contra free
    have isFree : x.info.isFree = true := (Cell.isFree_iff x).mpr free
    rw [used] at isFree
    cases isFree

theorem Sound.listed_inside (sound : p.Sound n cells lists) {c : SizeClass}
    (nonempty : lists c ≠ []) : c.Inside := by
  obtain ⟨h, mem⟩ := List.exists_mem_of_ne_nil _ nonempty
  obtain ⟨x, memx, -, -, rfl⟩ := (sound.holds.listed c h).mp mem
  obtain ⟨pre, post, rfl⟩ := List.append_of_mem memx
  exact Arena.class_inside sound.holds

theorem Sound.slot_iff (sound : p.Sound n cells lists) (c : SizeClass) (row : c.fl < 24)
    (slot : c.sl < 32) : p.arena.index.slots[c.fl].getLsbD c.sl = true ↔ lists c ≠ [] := by
  rw [sound.holds.mirror.slot c row slot]
  cases lists c <;> simp

theorem Sound.row_iff (sound : p.Sound n cells lists) (fl : Nat) :
    p.arena.index.rows.getLsbD fl = true ↔ ∃ sl, lists ⟨fl, sl⟩ ≠ [] := by
  have mirror := sound.holds.mirror
  constructor
  · intro bit
    have row : fl < 24 := by
      by_contra out
      rw [mirror.blank fl (Nat.not_lt.mp out)] at bit
      cases bit
    rw [mirror.row fl row, decide_eq_true_eq] at bit
    by_contra none
    push Not at none
    apply bit
    apply BitVec.eq_of_getLsbD_eq
    intro sl slot
    rw [mirror.slot ⟨fl, sl⟩ row slot, none sl]
    simp
  · rintro ⟨sl, nonempty⟩
    have inside := sound.listed_inside nonempty
    have slot := (sound.slot_iff ⟨fl, sl⟩ inside.row inside.slot).mpr nonempty
    rw [mirror.row fl inside.row, decide_eq_true_eq]
    intro zero
    rw [zero] at slot
    simp at slot

theorem Sound.consistent (sound : p.Sound n cells lists) :
    p.Consistent (cells.map Cell.info) lists := by
  have holds := sound.holds
  refine ⟨holds.tiles.chained holds.tags holds.aligned (fun x mem => holds.header_fits mem)
    sound.stable.settled (fun q mem => nomatch mem) (fun absent => absurd rfl absent),
    sound.live_iff, sound.listed_iff, holds.nodup, fun c => ?_, fun c i => holds.mirror.head_eq i,
    sound.slot_iff, sound.row_iff⟩
  have fileable := holds.files.fileable c
  exact (holds.links c).doublyLinked (fun h mem => (fileable h mem).room)
    (fun h mem => (fileable h mem).short) fun h mem => nomatch mem

end Pool

namespace Session

/-- Every run of calls on a new pool goes through and leaves a consistent pool. -/
theorem runs_consistent {b : Buffer} {k : Construction} {p : Pool} (small : b.size < 2 ^ 31)
    (proper : k.Proper) (built : k.build b = .ok (.ok p)) (calls : List Call)
    (few : calls.length < 2 ^ 63) :
    ∃ s blocks lists, Session.run ⟨p, .empty⟩ calls = .ok s ∧ s.pool.walk = .ok blocks ∧
      s.pool.Consistent blocks lists := by
  obtain ⟨s, cells, lists, run, sound⟩ := runs_sound small proper built calls few
  exact ⟨s, cells.map Cell.info, lists, run, sound.pool.walk, sound.pool.consistent⟩

theorem runs_consistent_sample : ∃ s blocks lists,
    Construction.whole.session? (.filled 256 0xA5)
        [.allocate 50, .allocateZeroed 16, .free ⟨8⟩, .reallocate ⟨8⟩ 3] = some s ∧
      s.ledger ⟨8⟩ = none ∧ s.ledger ⟨72⟩ = some 16 ∧ s.pool.walk = .ok blocks ∧
      s.pool.Consistent blocks lists := by
  have made : ((Construction.whole.session? (.filled 256 0xA5)
      [.allocate 50, .allocateZeroed 16, .free ⟨8⟩, .reallocate ⟨8⟩ 3]).map
        fun s => (s.ledger ⟨8⟩, s.ledger ⟨72⟩)) = some (none, some 16) := by decide +kernel
  obtain ⟨s, session, entries⟩ := Option.map_eq_some_iff.mp made
  obtain ⟨freed, kept⟩ := Prod.mk.inj entries
  obtain ⟨p, built, run⟩ := Construction.of_session? session
  have small : (Buffer.filled 256 0xA5).size < 2 ^ 31 := by decide +kernel
  have proper : Construction.whole.Proper := trivial
  obtain ⟨s', blocks, lists, run', walk, consistent⟩ := runs_consistent small proper built
    [.allocate 50, .allocateZeroed 16, .free ⟨8⟩, .reallocate ⟨8⟩ 3] (by decide)
  rw [run] at run'
  cases run'
  exact ⟨s, blocks, lists, session, freed, kept, walk, consistent⟩

end Session

end Tlsf
