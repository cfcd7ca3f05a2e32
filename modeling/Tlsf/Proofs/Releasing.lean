import Tlsf.Proofs.Carving

/-!
Blocks taken back. `releasedBlock` is the free block that a used one ends up
in, joined with its free neighbours; `releasedCells` and `releasedLists` are
the pool around it. A stomped payload stays stomped: what follows touches
headers and links alone, and the links of the joined block lie before the
stomped bytes.
-/

namespace Tlsf

open Dimensions Buffer

section Released

variable (lists : SizeClass → List Nat) (pre : List Cell) (x : Cell) (post : List Cell)

def releasedBlock : Cell := (joinNext (joinPrev pre (x.turn .loose)).2 post).1

def releasedCells : List Cell :=
  (joinPrev pre (x.turn .loose)).1 ++ (releasedBlock pre x post).turn .filed ::
    (joinNext (joinPrev pre (x.turn .loose)).2 post).2

def releasedLists : SizeClass → List Nat :=
  pushBlock (dropFree (dropFree lists pre.getLast?) post.head?) (releasedBlock pre x post)

def releaseArea : Set Nat :=
  allLinks lists ∪ Set.Ico ((releasedBlock pre x post).header + 4) ((releasedBlock pre x post).header + 16) ∪
    Set.Ico (x.header + 4) (x.header + 8) ∪ Set.Ico x.stop (x.stop + 8) ∪
    Set.Ico (releasedBlock pre x post).stop ((releasedBlock pre x post).stop + 4)

def stompArea (stomp : Bool) : Set Nat := {i | stomp = true ∧ x.header + 16 ≤ i ∧ i < x.stop}

end Released

section Places

variable {pre post : List Cell} {x : Cell} {lo hi : Nat}

theorem joinNext_stop (next : ∀ z ∈ post.head?, z.header = x.stop) :
    x.stop ≤ (joinNext x post).1.stop := by
  cases post with
  | nil => exact Nat.le_refl _
  | cons z post =>
    by_cases free : z.isFree = true
    · have stopz := z.stop_eq
      have behind := next z rfl
      simp only [joinNext, if_pos free, Cell.join_stop behind]
      omega
    · simp [joinNext, free]

theorem joinPrev_place (t : Tiles lo (pre ++ x :: post) hi) :
    (joinPrev pre x).2.stop = x.stop ∧ (joinPrev pre x).2.header ≤ x.header := by
  rcases List.eq_nil_or_concat pre with rfl | ⟨init, w, rfl⟩
  · exact ⟨rfl, Nat.le_refl _⟩
  · rw [List.concat_eq_append] at *
    obtain ⟨mid, before, here⟩ := tiles_append.mp t
    obtain ⟨mid', -, last⟩ := tiles_append.mp before
    have next : x.header = w.stop := here.1.trans (tiles_singleton.mp last).2.2.symm
    by_cases free : w.isFree = true
    · have stopw := w.stop_eq
      simp only [joinPrev, List.getLast?_concat, if_pos free]
      refine ⟨Cell.join_stop next, ?_⟩
      rw [Cell.join_header, Cell.turn_header]
      omega
    · simp [joinPrev, free]

theorem releasedBlock_place (t : Tiles lo (pre ++ x :: post) hi) :
    (releasedBlock pre x post).header ≤ x.header ∧ x.stop ≤ (releasedBlock pre x post).stop := by
  obtain ⟨back, front⟩ := joinPrev_place (t.turn .loose)
  obtain ⟨mid, -, -, -, behind⟩ := tiles_append.mp t
  have next : ∀ z ∈ post.head?, z.header = (joinPrev pre (x.turn .loose)).2.stop := by
    intro z first
    obtain ⟨rest, rfl⟩ := List.head?_eq_some_iff.mp first
    rw [back]
    exact behind.1
  have far := joinNext_stop next
  rw [back] at far
  rw [releasedBlock, joinNext_header]
  exact ⟨front, far⟩

end Places

theorem Settled.released {pre post : List Cell} {x : Cell} (s : Settled (pre ++ x :: post)) :
    Settled (releasedCells pre x post) := by
  obtain ⟨before, left⟩ := s.before.joinPrev (x.turn .loose)
  obtain ⟨behind, right⟩ := s.behind.joinNext (Tlsf.joinPrev pre (x.turn .loose)).2
  exact before.between behind (by simp) (fun w last => .inl (left w last))
    fun z head => .inr (right z head)

theorem usedCells_released {pre post : List Cell} {x : Cell} (s : Settled (pre ++ x :: post)) :
    usedCells (releasedCells pre x post) = usedCells pre ++ usedCells post := by
  rw [releasedCells, usedCells_append, usedCells_free (by simp), s.before.usedCells_joinPrev,
    s.behind.usedCells_joinNext]

namespace Arena

variable {a : Arena} {first stop : Nat} {pre post : List Cell} {x : Cell}
  {lists : SizeClass → List Nat}

theorem stompIf_spec {b : Buffer} {prevFree : Bool} (sized : Sized b x prevFree)
    (inside : x.stop ≤ b.size) (stomp : Bool) :
    ∃ b', (if stomp then Block.stomp b x.header freedPattern else pure b) = .ok b' ∧
      OnlyTouches b b' (stompArea x stomp) ∧ ∀ i ∈ stompArea x stomp, b'.byteAt i = freedPattern := by
  cases stomp with
  | false => exact ⟨b, rfl, .refl _ _, fun i mem => nomatch mem.1⟩
  | true =>
    obtain ⟨b', run, touched, bytes⟩ := stomp_spec sized inside freedPattern
    exact ⟨b', run, touched.mono fun i mem => ⟨rfl, mem⟩, fun i mem => bytes i mem.2⟩

theorem Holds.live_erase (holds : a.Holds first stop (pre ++ x :: post) lists) (h : Nat) :
    h ∈ a.live.erase x.header ↔ UsedAt (pre ++ x.turn .loose :: post) h := by
  have others := holds.tiles.ne_header
  have unused : ¬ UsedAt (pre ++ post) x.header := by
    rintro ⟨z, mem, same, -⟩
    exact others z mem same
  rw [Std.ExtTreeSet.mem_erase, holds.live h]
  simp only [usedAt_append, usedAt_cons] at unused ⊢
  by_cases same : x.header = h
  · subst same
    simpa using unused
  · simp [same]

theorem takeBack_spec (holds : a.Holds first stop (pre ++ x :: post) lists)
    (used : x.status = .used) (stomp : Bool) :
    ∃ b, Arena.edit (fun b => do
          let b ← if stomp then Block.stomp b x.header freedPattern else pure b
          Block.markFree b x.header) { a with live := a.live.erase x.header } =
        .ok ⟨b, a.index, a.live.erase x.header⟩ ∧
      Arena.Holds ⟨b, a.index, a.live.erase x.header⟩ first stop (pre ++ x.turn .loose :: post) lists ∧
      OnlyTouches a.buffer b (stompArea x stomp ∪ (Set.Ico (x.header + 4) (x.header + 8) ∪
        Set.Ico x.stop (x.stop + 8))) ∧
      ∀ i ∈ stompArea x stomp, b.byteAt i = freedPattern := by
  obtain ⟨y, others, follow, next, tagx, tagy, -⟩ := holds.seam
  have place := holds.placed (x := x) (by simp)
  have least := place.2.2.2.1.minimum
  have stopx := x.stop_eq
  have room := holds.room
  obtain ⟨b₁, run₁, touched₁, stomped⟩ := stompIf_spec tagx.sized (by omega) stomp
  -- the stomped bytes begin behind the links, past both tags that are read
  have tagx₁ : Tagged b₁ x (lastFree? none pre) := tagx.of_touches touched₁ fun i low high mem => by
    have start := mem.2.1
    omega
  have tagy₁ : Tagged b₁ y x.freeHeader? := tagy.of_touches touched₁ fun i low high mem => by
    have last := mem.2.2
    omega
  obtain ⟨b, run₂, tagx₂, tagy₂, touched₂⟩ := markFree_spec tagx₁ tagy₁ next (by omega)
  rw [next] at touched₂
  refine ⟨b, ?_, ?_, touched₁.trans touched₂, fun i mem => ?_⟩
  · refine edit_eq ?_
    cases stomp with
    | false =>
      obtain rfl : a.buffer = b₁ := Except.ok.inj run₁
      exact run₂
    | true =>
      have run₁ : Block.stomp a.buffer x.header freedPattern = .ok b₁ := run₁
      simp only [if_true, run₁, run₂, Checked.ok_bind]
  · refine holds.retile x.header x.stop [x] [x.turn .loose] follow
      ⟨rfl, place.2.2.2.1, rfl⟩ ⟨rfl, Cell.turn_regular.mpr place.2.2.2.1, rfl⟩ (by simp)
      (by simp [used]) (touched₁.trans touched₂) (fun i mem => ?_) ⟨tagx₂, tagy₂, trivial⟩
      holds.live_erase
    simp only [Set.mem_union, Set.mem_Ico, stompArea, Set.mem_ofPred_eq] at mem
    omega
  · have byte := touched₂.byte i fun area => by
      have inside := mem.2
      simp only [Set.mem_union, Set.mem_Ico] at area
      omega
    exact byte.trans (stomped i mem)

theorem Holds.releaseArea_off (holds : a.Holds first stop (pre ++ x :: post) lists)
    (used : x.status = .used) {i : Nat} (low : x.header + 16 ≤ i) (high : i < x.stop) :
    i ∉ releaseArea lists pre x post := by
  obtain ⟨front, far⟩ := releasedBlock_place holds.tiles
  have whole : Tiles x.header [x] x.stop := ⟨rfl, holds.tiles.regular (by simp), rfl⟩
  have links := holds.links_off_stretch whole (by simp) (by simp [used])
    (show x.header ≤ i by omega) (show i < x.stop + 8 by omega)
  rintro ((((link | own) | size) | next) | last)
  · exact links link
  all_goals
    simp only [Set.mem_Ico] at *
    omega

theorem release_spec (stable : a.Stable first stop (pre ++ x :: post) lists)
    (used : x.status = .used) (stomp : Bool) :
    ∃ a', a.release x.header stomp = .ok a' ∧
      a'.Stable first stop (releasedCells pre x post) (releasedLists lists pre x post) ∧
      OnlyTouches a.buffer a'.buffer (stompArea x stomp ∪ releaseArea lists pre x post) ∧
      ∀ i ∈ stompArea x stomp, a'.buffer.byteAt i = freedPattern := by
  have holds := stable.holds
  obtain ⟨b, run₁, after₁, touched₁, stomped⟩ := takeBack_spec holds used stomp
  -- the joined block keeps the front of its predecessor, so the next steps start there
  obtain ⟨a₂, run₂, after₂, touched₂⟩ := mergePrev_spec after₁ rfl stable.settled.before.filed
  have loose : (joinPrev pre (x.turn .loose)).2.status = .loose := joinPrev_status rfl
  obtain ⟨a₃, run₃, after₃, touched₃⟩ := mergeNext_spec after₂ loose stable.settled.behind.filed
  obtain ⟨a₄, run₄, after₄, touched₄⟩ := insertFree_spec after₃ (by rw [joinNext_status, loose])
  obtain ⟨back, front⟩ := joinPrev_place after₁.tiles
  have drop₁ := allLinks_dropFree lists pre.getLast?
  have drop₂ := allLinks_dropFree (dropFree lists pre.getLast?) post.head?
  rw [Cell.turn_stop] at touched₂ back
  rw [Cell.turn_header] at front run₂
  rw [joinNext_header] at run₄ touched₄
  have touched : OnlyTouches b a₄.buffer (releaseArea lists pre x post) := by
    refine ((touched₂.trans touched₃).trans touched₄).mono fun i mem => ?_
    simp only [releaseArea, releasedBlock, joinNext_header, Set.mem_union, Set.mem_Ico] at mem ⊢
    rcases mem with (((links | own) | last) | (links | own) | last) | links | own
    · exact .inl (.inl (.inl (.inl links)))
    · exact .inl (.inl (.inl (.inr (by omega))))
    · exact .inl (.inr (by omega))
    · exact .inl (.inl (.inl (.inl (drop₁ links))))
    · exact .inl (.inl (.inl (.inr (by omega))))
    · exact .inr last
    · exact .inl (.inl (.inl (.inl (drop₁ (drop₂ links)))))
    · exact .inl (.inl (.inl (.inr (by omega))))
  refine ⟨a₄, ?_, ⟨after₄, stable.settled.released⟩, ?_, fun i mem => ?_⟩
  · simp only [release, run₁, run₂, run₃, run₄, Checked.ok_bind]
  · refine (touched₁.trans touched).mono (Set.union_subset (Set.union_subset_union_right _ ?_)
      Set.subset_union_right)
    intro i mem
    simp only [releaseArea, Set.mem_union] at mem ⊢
    tauto
  · have inside := mem.2
    rw [touched.byte i (holds.releaseArea_off used inside.1 inside.2)]
    exact stomped i mem

end Arena

end Tlsf
