import Tlsf.Proofs.Releasing

/-!
What calls leave alone. `Spares b b' first stop kept` says that nothing outside
`[first, stop + 8)` and no payload of a kept cell differs between two buffers.
The arena writes its own data in headers and in the links of free blocks, the
`metadata` of a tiling, and no used payload meets that.
-/

namespace Tlsf

open Dimensions Buffer

def Cell.payload (x : Cell) : Set Nat := Set.Ico (x.header + 8) x.stop

structure Spares (b b' : Buffer) (first stop : Nat) (kept : List Cell) : Prop where
  outside : OnlyTouches b b' (Set.Ico first (stop + 8))
  payloads : ∀ u ∈ kept, ∀ i ∈ u.payload, b'.byteAt i = b.byteAt i

namespace Spares

variable {b b' b'' : Buffer} {first stop : Nat} {kept kept' : List Cell}

theorem refl (b : Buffer) (first stop : Nat) (kept : List Cell) : Spares b b first stop kept :=
  ⟨.refl b _, fun _ _ _ _ => rfl⟩

theorem trans (s : Spares b b' first stop kept) (s' : Spares b' b'' first stop kept) :
    Spares b b'' first stop kept := by
  refine ⟨(s.outside.trans s'.outside).mono (Set.union_self _).subset, fun u mem i inside => ?_⟩
  exact (s'.payloads u mem i inside).trans (s.payloads u mem i inside)

theorem mono (s : Spares b b' first stop kept) (sub : kept' ⊆ kept) : Spares b b' first stop kept' :=
  ⟨s.outside, fun u mem => s.payloads u (sub mem)⟩

theorem of_touches {area : Set Nat} (touched : OnlyTouches b b' area)
    (inside : area ⊆ Set.Ico first (stop + 8)) (off : ∀ u ∈ kept, ∀ i ∈ u.payload, i ∉ area) :
    Spares b b' first stop kept :=
  ⟨touched.mono inside, fun u mem i here => touched.byte i (off u mem i here)⟩

end Spares

def metadata (cells : List Cell) (stop : Nat) : Set Nat :=
  {i | ∃ z ∈ cells ++ [.sentinel stop], z.header ≤ i ∧ i < z.header + if z.isFree then 16 else 8}

section Metadata

variable {a : Arena} {first stop : Nat} {cells pre post : List Cell} {x : Cell}
  {lists : SizeClass → List Nat}

theorem header_metadata (mem : x ∈ cells ++ [.sentinel stop]) :
    Set.Ico x.header (x.header + 8) ⊆ metadata cells stop := by
  intro i inside
  refine ⟨x, mem, inside.1, Nat.lt_of_lt_of_le inside.2 ?_⟩
  split <;> omega

theorem links_metadata (mem : x ∈ cells) (free : x.isFree = true) :
    Set.Ico x.header (x.header + 16) ⊆ metadata cells stop := by
  intro i inside
  refine ⟨x, List.mem_append_left _ mem, inside.1, ?_⟩
  rw [if_pos free]
  exact inside.2

namespace Arena.Holds

theorem allLinks_metadata (holds : a.Holds first stop cells lists) :
    allLinks lists ⊆ metadata cells stop := by
  rintro i ⟨c, h, mem, inside⟩
  obtain ⟨z, memz, rfl, filed, -⟩ := (holds.listed c h).mp mem
  exact links_metadata memz (Cell.isFree_of_filed filed) ⟨by omega, inside.2⟩

theorem next_metadata (holds : a.Holds first stop (pre ++ x :: post) lists) :
    Set.Ico x.stop (x.stop + 8) ⊆ metadata (pre ++ x :: post) stop := by
  obtain ⟨y, rest, follow, next, -⟩ := holds.seam
  rw [← next]
  refine header_metadata ?_
  rw [List.append_assoc, List.cons_append, follow]
  simp

theorem metadata_inside (holds : a.Holds first stop cells lists) :
    metadata cells stop ⊆ Set.Ico first (stop + 8) := by
  rintro i ⟨z, mem, low, high⟩
  rcases List.mem_append.mp mem with block | last
  · obtain ⟨start, end_, -, regular, stopz⟩ := holds.placed block
    have least := regular.minimum
    refine ⟨by omega, ?_⟩
    split at high <;> omega
  · have start := holds.tiles.le
    rw [List.mem_singleton.mp last] at low high
    rw [Cell.isFree_of_used (Cell.sentinel_status stop)] at high
    exact ⟨Nat.le_trans start low, high⟩

theorem metadata_off (holds : a.Holds first stop cells lists) (mem : x ∈ usedCells cells) {i : Nat}
    (inside : i ∈ x.payload) : i ∉ metadata cells stop := by
  obtain ⟨memx, used⟩ := mem_usedCells.mp mem
  obtain ⟨low, high⟩ := inside
  rintro ⟨z, memz, start, end_⟩
  have away := holds.payload_apart memx memz
  rcases List.mem_append.mp memz with block | last
  · have least := (holds.placed block).2.2.2.1.minimum
    have stopz := z.stop_eq
    have stopx := x.stop_eq
    rcases holds.tiles.apart memx block with rfl | below | above
    · rw [Cell.isFree_of_used used] at end_
      simp only [Bool.false_eq_true, if_false] at end_
      omega
    · omega
    · split at end_ <;> omega
  · have below := (holds.placed memx).2.1
    rw [List.mem_singleton.mp last, Cell.sentinel_header] at start
    omega

theorem rewrite {b : Buffer} (holds : a.Holds first stop cells lists) (mem : x ∈ usedCells cells)
    (touched : OnlyTouches a.buffer b x.payload) :
    Arena.Holds { a with buffer := b } first stop cells lists := by
  obtain ⟨memx, used⟩ := mem_usedCells.mp mem
  obtain ⟨pre, post, rfl⟩ := List.append_of_mem memx
  obtain ⟨y, rest, follow, next, tagx, tagy, -⟩ := holds.seam
  have stopx := x.stop_eq
  have tiles : Tiles x.header [x] x.stop := ⟨rfl, (holds.placed memx).2.2.2.1, rfl⟩
  refine holds.retile x.header x.stop [x] [x] follow tiles tiles (by simp) (by simp [used])
    touched (fun i inside => ?_) ⟨?_, ?_, trivial⟩ holds.live
  · exact ⟨by have := inside.1; omega, by have := inside.2; omega⟩
  · exact tagx.of_touches touched fun i low high inside => by
      have start := inside.1
      omega
  · exact tagy.of_touches touched fun i low high inside => by
      have last := inside.2
      omega

theorem mem_others {u : Cell} (mem : u ∈ usedCells pre ++ usedCells post) :
    u ∈ usedCells (pre ++ x :: post) := by
  rw [← usedCells_append, mem_usedCells] at mem
  refine mem_usedCells.mpr ⟨?_, mem.2⟩
  rcases List.mem_append.mp mem.1 with left | right <;> simp [*]

theorem payload_off_block (holds : a.Holds first stop (pre ++ x :: post) lists) {u : Cell}
    (mem : u ∈ usedCells pre ++ usedCells post) {i : Nat} (inside : i ∈ u.payload) :
    i ∉ Set.Ico x.header x.stop := by
  have other : u.header ≠ x.header := by
    rw [← usedCells_append, mem_usedCells] at mem
    exact holds.tiles.ne_header u mem.1
  have memu := (mem_usedCells.mp (mem_others (x := x) mem)).1
  obtain ⟨low, high⟩ := inside
  rcases holds.tiles.apart memu (y := x) (by simp) with rfl | below | above
  · exact absurd rfl other
  · exact fun own => absurd own.1 (by omega)
  · exact fun own => absurd own.2 (by omega)

/-- Edits of one block, of metadata before and of metadata after spare the other payloads
that are used before and after. -/
theorem spares_others {a' : Arena} {cells' : List Cell} {lists' : SizeClass → List Nat}
    {area : Set Nat} (holds : a.Holds first stop (pre ++ x :: post) lists)
    (holds' : a'.Holds first stop cells' lists') (touched : OnlyTouches a.buffer a'.buffer area)
    (within : area ⊆ Set.Ico x.header x.stop ∪
      (metadata (pre ++ x :: post) stop ∪ metadata cells' stop))
    (after : usedCells pre ++ usedCells post ⊆ usedCells cells') :
    Spares a.buffer a'.buffer first stop (usedCells pre ++ usedCells post) := by
  refine .of_touches touched (within.trans (Set.union_subset ?_ (Set.union_subset
    holds.metadata_inside holds'.metadata_inside))) fun u mem i inside hit => ?_
  · obtain ⟨start, end_, -⟩ := holds.placed (x := x) (by simp)
    exact Set.Ico_subset_Ico start (by omega)
  · rcases within hit with own | old | new
    · exact holds.payload_off_block mem inside own
    · exact holds.metadata_off (mem_others mem) inside old
    · exact holds'.metadata_off (after mem) inside new

end Arena.Holds

end Metadata

namespace Arena

variable {a : Arena} {first stop : Nat} {pre post : List Cell} {x : Cell}
  {lists : SizeClass → List Nat}

theorem trimArea_metadata {a' : Arena} {cells : List Cell} {lists' : SizeClass → List Nat} {n : Nat}
    (links : allLinks lists ⊆ metadata cells stop)
    (own : Set.Ico x.header (x.header + 8) ⊆ metadata cells stop)
    (next : Set.Ico x.stop (x.stop + 8) ⊆ metadata cells stop)
    (holds' : a'.Holds first stop (pre ++ x.kept n :: trimRest x n post) lists') :
    trimArea lists x n post ⊆ metadata cells stop ∪
      metadata (pre ++ x.kept n :: trimRest x n post) stop := by
  by_cases cut : n + 24 ≤ x.size
  · simp only [Cell.kept, trimRest, trimArea, if_pos cut] at holds' ⊢
    have start : (x.rest n post).header = (x.tail n).header := joinNext_header
    have after := holds'
    rw [← List.singleton_append, ← List.append_assoc] at after
    have new : Set.Ico ((x.rest n post).turn .filed).header (((x.rest n post).turn .filed).header + 16) ⊆
        metadata (pre ++ x.front n :: (x.rest n post).turn .filed :: (joinNext (x.tail n) post).2)
          stop := links_metadata (by simp) rfl
    have far := after.next_metadata
    rw [List.append_assoc, List.singleton_append, Cell.turn_stop] at far
    rw [Cell.turn_header, start] at new
    rintro i ((((link | size) | tail) | behind) | last)
    · exact .inl (links link)
    · exact .inl (own ⟨by have := size.1; omega, size.2⟩)
    · exact .inr (new tail)
    · exact .inl (next behind)
    · exact .inr (far ⟨last.1, by have := last.2; omega⟩)
  · simp [trimArea, cut]

theorem releaseArea_metadata {a' : Arena} {lists' : SizeClass → List Nat}
    (holds : a.Holds first stop (pre ++ x :: post) lists)
    (holds' : a'.Holds first stop (releasedCells pre x post) lists') :
    releaseArea lists pre x post ⊆ metadata (pre ++ x :: post) stop ∪
      metadata (releasedCells pre x post) stop := by
  have own : Set.Ico x.header (x.header + 8) ⊆ metadata (pre ++ x :: post) stop :=
    header_metadata (by simp)
  have new : Set.Ico (releasedBlock pre x post).header ((releasedBlock pre x post).header + 16) ⊆
      metadata (releasedCells pre x post) stop :=
    links_metadata (x := (releasedBlock pre x post).turn .filed) (by simp [releasedCells]) rfl
  have far := holds'.next_metadata
  rw [Cell.turn_stop] at far
  rintro i ((((links | joined) | size) | next) | last)
  · exact .inl (holds.allLinks_metadata links)
  · exact .inr (new ⟨by have := joined.1; omega, joined.2⟩)
  · exact .inl (own ⟨by have := size.1; omega, size.2⟩)
  · exact .inl (holds.next_metadata next)
  · exact .inr (far ⟨last.1, by have := last.2; omega⟩)

end Arena

end Tlsf
