import Tlsf.Proofs.BlockEdits
import Tlsf.Proofs.FiledLists

/-!
An arena and what it stands for. `a.Holds first stop cells lists` ties the
bytes, the index and the set of handed-out headers to a tiling of
`[first, stop)` and to one list of headers for each size class: the filed
cells are on the list of their class, once, and the used cells are live.

`Holds.retile` exchanges cells that are on no list, and `unlink_spec` and
`insertFree_spec` move one block off a list and onto one. Everything that the
arena does is a sequence of these.
-/

namespace Tlsf

open Dimensions Buffer

def UsedAt (cells : List Cell) (h : Nat) : Prop := ∃ x ∈ cells, x.header = h ∧ x.status = .used

def FiledAt (cells : List Cell) (c : SizeClass) (h : Nat) : Prop :=
  ∃ x ∈ cells, x.header = h ∧ x.status = .filed ∧ SizeClass.ofSize x.size = c

section Members

variable {l m : List Cell} {x : Cell} {c : SizeClass} {h : Nat}

@[simp] theorem usedAt_nil : ¬ UsedAt [] h := by simp [UsedAt]

@[simp] theorem usedAt_cons : UsedAt (x :: l) h ↔ (x.header = h ∧ x.status = .used) ∨ UsedAt l h := by
  simp [UsedAt]

@[simp] theorem usedAt_append : UsedAt (l ++ m) h ↔ UsedAt l h ∨ UsedAt m h := by
  simp [UsedAt, or_and_right, exists_or]

@[simp] theorem filedAt_cons : FiledAt (x :: l) c h ↔
    (x.header = h ∧ x.status = .filed ∧ SizeClass.ofSize x.size = c) ∨ FiledAt l c h := by
  simp [FiledAt]

@[simp] theorem filedAt_append : FiledAt (l ++ m) c h ↔ FiledAt l c h ∨ FiledAt m c h := by
  simp [FiledAt, or_and_right, exists_or]

theorem not_filedAt (loose : ∀ x ∈ l, x.status ≠ .filed) : ¬ FiledAt l c h := by
  rintro ⟨x, mem, -, filed, -⟩
  exact loose x mem filed

end Members

def allLinks (lists : SizeClass → List Nat) : Set Nat := {i | ∃ c, i ∈ linkArea (lists c)}

def pushBlock (lists : SizeClass → List Nat) (x : Cell) : SizeClass → List Nat :=
  Function.update lists (SizeClass.ofSize x.size) (x.header :: lists (SizeClass.ofSize x.size))

def dropBlock (lists : SizeClass → List Nat) (x : Cell) : SizeClass → List Nat :=
  Function.update lists (SizeClass.ofSize x.size)
    ((lists (SizeClass.ofSize x.size)).erase x.header)

section Moves

variable (lists : SizeClass → List Nat) (x : Cell)

theorem dropBlock_self : dropBlock lists x (SizeClass.ofSize x.size) =
    (lists (SizeClass.ofSize x.size)).erase x.header := Function.update_self ..

theorem dropBlock_other {c : SizeClass} (other : c ≠ SizeClass.ofSize x.size) :
    dropBlock lists x c = lists c := Function.update_of_ne other ..

end Moves

theorem allLinks_dropBlock (lists : SizeClass → List Nat) (x : Cell) :
    allLinks (dropBlock lists x) ⊆ allLinks lists := by
  rintro i ⟨c, h, mem, inside⟩
  refine ⟨c, h, ?_, inside⟩
  by_cases same : c = SizeClass.ofSize x.size
  · subst same
    rw [dropBlock_self] at mem
    exact List.mem_of_mem_erase mem
  · rwa [dropBlock_other lists x same] at mem

structure Arena.Holds (a : Arena) (first stop : Nat) (cells : List Cell)
    (lists : SizeClass → List Nat) : Prop where
  aligned : first % 8 = 0
  low : stop + 8 < UInt32.size
  span : stop < first + 8 + payloadLimit
  tiles : Tiles first cells stop
  tags : Tags a.buffer none (cells ++ [.sentinel stop])
  links : ∀ c, Linked a.buffer none (lists c) none
  mirror : a.index.Mirrors lists
  listed : ∀ c h, h ∈ lists c ↔ FiledAt cells c h
  nodup : ∀ c, (lists c).Nodup
  live : ∀ h, h ∈ a.live ↔ UsedAt cells h

namespace Arena.Holds

variable {a : Arena} {first stop : Nat} {cells pre post : List Cell}
  {lists : SizeClass → List Nat}

theorem sentinelTag (holds : a.Holds first stop cells lists) :
    Tagged a.buffer (.sentinel stop) (lastFree? none cells) :=
  (tags_append.mp holds.tags).2.1

theorem room (holds : a.Holds first stop cells lists) : stop + 8 ≤ a.buffer.size :=
  holds.sentinelTag.sized.inside

theorem placed (holds : a.Holds first stop cells lists) {x : Cell} (mem : x ∈ cells) :
    first ≤ x.header ∧ x.stop ≤ stop ∧ x.header % 8 = 0 ∧ x.Regular ∧ x.stop = x.header + 8 + x.size :=
  ⟨(holds.tiles.bounds mem).1, (holds.tiles.bounds mem).2,
    (holds.tiles.aligned holds.aligned).2 x mem, holds.tiles.regular mem, rfl⟩

theorem payload_apart (holds : a.Holds first stop cells lists) {x z : Cell} (mem : x ∈ cells)
    (memz : z ∈ cells ++ [.sentinel stop]) : z.header + 8 ≤ x.header + 8 ∨ x.stop ≤ z.header := by
  rcases List.mem_append.mp memz with inside | last
  · have stopz := z.stop_eq
    rcases holds.tiles.apart mem inside with rfl | below | above
    · omega
    · exact .inr below
    · omega
  · rw [List.mem_singleton.mp last]
    exact .inr (holds.tiles.bounds mem).2

theorem header_off_links (holds : a.Holds first stop cells lists) {z : Cell}
    (mem : z ∈ cells ++ [.sentinel stop]) {i : Nat} (low : z.header ≤ i) (high : i < z.header + 8) :
    i ∉ allLinks lists := by
  rintro ⟨c, h, listed, inside⟩
  obtain ⟨x, memx, rfl, -⟩ := (holds.listed c h).mp listed
  have away := holds.payload_apart memx mem
  have size := (holds.placed memx).2.2.2.1.minimum
  rw [x.stop_eq] at away
  omega

theorem seam {x : Cell} (holds : a.Holds first stop (pre ++ x :: post) lists) :
    ∃ y rest, post ++ [.sentinel stop] = y :: rest ∧ y.header = x.stop ∧
      Tagged a.buffer x (lastFree? none pre) ∧ Tagged a.buffer y x.freeHeader? ∧
      Tags a.buffer y.freeHeader? rest := by
  obtain ⟨lo, -, here⟩ := tiles_append.mp holds.tiles
  obtain ⟨y, rest, follow, header⟩ := here.2.2.next
  have tags := holds.tags
  rw [List.append_assoc, List.cons_append, follow, tags_append] at tags
  exact ⟨y, rest, follow, header, tags.2.1, tags.2.2.1, tags.2.2.2⟩

theorem size_eq (holds : a.Holds first stop cells lists) {x : Cell} (mem : x ∈ cells) :
    Block.size a.buffer x.header = .ok x.size := by
  obtain ⟨pre, post, rfl⟩ := List.append_of_mem mem
  obtain ⟨y, rest, -, -, tag, -⟩ := holds.seam
  exact tag.sized.size_eq

theorem fileable (holds : a.Holds first stop cells lists) {x : Cell} (mem : x ∈ cells) :
    Block.Fileable a.buffer (SizeClass.ofSize x.size) x.header := by
  obtain ⟨low, high, -, regular, end_⟩ := holds.placed mem
  have size := regular.minimum
  have room := holds.room
  have span := holds.span
  have below := holds.low
  have limit : Block.nullLink.toNat + 1 = UInt32.size := rfl
  exact ⟨⟨x.size, holds.size_eq mem, rfl⟩, SizeClass.ofSize_inside (by omega), by omega, by omega⟩

theorem clear (holds : a.Holds first stop cells lists) {x z : Cell} (mem : x ∈ cells)
    (memz : z ∈ cells) (other : x.header ≠ z.header) : Block.Clear x.header z.header := by
  have size := (holds.tiles.regular mem).minimum
  have sizez := (holds.tiles.regular memz).minimum
  rcases holds.tiles.apart mem memz with rfl | below | above
  · exact absurd rfl other
  · rw [x.stop_eq] at below
    exact .inl (by omega)
  · rw [z.stop_eq] at above
    exact .inr (by omega)

theorem files (holds : a.Holds first stop cells lists) : a.Files lists := by
  refine ⟨holds.mirror, holds.links, fun c h mem => ?_, holds.nodup, fun c d h memh k memk other => ?_⟩
  · obtain ⟨x, memx, rfl, -, rfl⟩ := (holds.listed c h).mp mem
    exact holds.fileable memx
  · obtain ⟨x, memx, rfl, -⟩ := (holds.listed c h).mp memh
    obtain ⟨z, memz, rfl, -⟩ := (holds.listed d k).mp memk
    exact holds.clear memx memz other

theorem links_off_stretch {lo hi : Nat} {mid : List Cell}
    (holds : a.Holds first stop (pre ++ (mid ++ post)) lists) (here : Tiles lo mid hi)
    (nonempty : mid ≠ []) (unlisted : ∀ z ∈ mid, z.status ≠ .filed) {i : Nat} (low : lo ≤ i)
    (high : i < hi + 8) : i ∉ allLinks lists := by
  rintro ⟨c, h, mem, inside⟩
  obtain ⟨lo', before, later⟩ := tiles_append.mp holds.tiles
  obtain ⟨hi', here', behind⟩ := tiles_append.mp later
  obtain ⟨rfl, rfl⟩ : lo' = lo ∧ hi' = hi := here.unique nonempty here'
  obtain ⟨z, memz, rfl, filed, -⟩ := (holds.listed c h).mp mem
  have size := (holds.tiles.regular memz).minimum
  rcases List.mem_append.mp memz with left | right
  · have below := (before.bounds left).2
    rw [z.stop_eq] at below
    omega
  · rcases List.mem_append.mp right with own | right
    · exact unlisted z own filed
    · have above := (behind.bounds right).1
      omega

/-- Cells that are on no list may be exchanged for others that fill the same
stretch, if nothing but that stretch and the header behind it was touched. -/
theorem retile (lo hi : Nat) (mid mid' : List Cell) {rest : List Cell} {y : Cell} {b : Buffer}
    {area : Set Nat} {live : Std.ExtTreeSet Nat}
    (holds : a.Holds first stop (pre ++ (mid ++ post)) lists)
    (follow : post ++ [.sentinel stop] = y :: rest) (before : Tiles lo mid hi)
    (after : Tiles lo mid' hi) (nonempty : mid ≠ [])
    (unlisted : ∀ z ∈ mid ++ mid', z.status ≠ .filed)
    (touched : OnlyTouches a.buffer b area) (within : ∀ i ∈ area, lo ≤ i ∧ i < hi + 8)
    (tags : Tags b (lastFree? none pre) (mid' ++ [y]))
    (handed : ∀ h, h ∈ live ↔ UsedAt (pre ++ (mid' ++ post)) h) :
    Arena.Holds ⟨b, a.index, live⟩ first stop (pre ++ (mid' ++ post)) lists := by
  obtain ⟨lo', tiles₁, tiles₂⟩ := tiles_append.mp holds.tiles
  obtain ⟨hi', tilesMid, tiles₃⟩ := tiles_append.mp tiles₂
  obtain ⟨rfl, rfl⟩ : lo' = lo ∧ hi' = hi := before.unique nonempty tilesMid
  have old := holds.tags
  rw [List.append_assoc, List.append_assoc, follow, tags_append, tags_append] at old
  obtain ⟨unlistedMid, unlistedMid'⟩ := List.forall_mem_append.mp unlisted
  refine ⟨holds.aligned, holds.low, holds.span, ?_, ?_, fun c => ?_, holds.mirror,
    fun c h => ?_, holds.nodup, handed⟩
  · exact tiles_append.mpr ⟨lo', tiles₁, tiles_append.mpr ⟨hi', after, tiles₃⟩⟩
  -- the tags split in three: before the stretch, in it with the header behind, and past that
  · rw [List.append_assoc, List.append_assoc, follow, tags_append, ← List.singleton_append,
      ← List.append_assoc, tags_append]
    refine ⟨old.1.of_touches touched fun z mem i low high inside => ?_, tags, ?_⟩
    · have below := (tiles₁.bounds mem).2
      rw [z.stop_eq] at below
      have start := (within i inside).1
      omega
    · rw [lastFree?_append]
      refine Tags.of_touches old.2.2.2 touched fun z mem i low high inside => ?_
      have above := tiles₃.later follow z mem
      have end_ := (within i inside).2
      omega
  · refine (holds.links c).of_touches touched fun h mem i low high inside => ?_
    obtain ⟨start, end_⟩ := within i inside
    exact holds.links_off_stretch before nonempty unlistedMid start end_ ⟨c, h, mem, low, high⟩
  · rw [holds.listed c h]
    simp only [filedAt_append, not_filedAt unlistedMid, not_filedAt unlistedMid', false_or]

end Arena.Holds

end Tlsf
