import Tlsf.Proofs.ListMoves

/-!
Splitting and joining inside an arena. `joinNext` and `joinPrev` say which
neighbours a free block takes in, `dropFree` which lists lose them; the merges
of the arena do exactly that. The areas are exact enough to tell that no byte
of another payload is touched.
-/

namespace Tlsf

open Dimensions Buffer

/-- A block together with the one behind it if that is free, and what follows. -/
def joinNext (x : Cell) : List Cell → Cell × List Cell
  | [] => (x, [])
  | z :: post => if z.isFree then (x.join z, post) else (x, z :: post)

def joinPrev (pre : List Cell) (x : Cell) : List Cell × Cell :=
  match pre.getLast? with
  | none => (pre, x)
  | some w => if w.isFree then (pre.dropLast, (w.turn .loose).join x) else (pre, x)

def dropFree (lists : SizeClass → List Nat) : Option Cell → SizeClass → List Nat
  | none => lists
  | some z => if z.isFree then dropBlock lists z else lists

section Neighbours

variable {x z : Cell} {pre post : List Cell} {lists : SizeClass → List Nat}

theorem Cell.isFree_of_filed (filed : z.status = .filed) : z.isFree = true := by
  rw [Cell.isFree, filed]
  rfl

theorem Cell.isFree_of_used (used : z.status = .used) : z.isFree = false := by
  rw [Cell.isFree, used]
  rfl

theorem joinNext_used (used : ∀ z ∈ post.head?, z.status = .used) : joinNext x post = (x, post) := by
  cases post with
  | nil => rfl
  | cons z post => simp [joinNext, Cell.isFree_of_used (used z rfl)]

theorem joinNext_filed (filed : z.status = .filed) : joinNext x (z :: post) = (x.join z, post) :=
  if_pos (Cell.isFree_of_filed filed)

theorem joinPrev_used (used : ∀ z ∈ pre.getLast?, z.status = .used) : joinPrev pre x = (pre, x) := by
  unfold joinPrev
  cases last : pre.getLast? with
  | none => rfl
  | some w => simp [Cell.isFree_of_used (used w last)]

theorem joinPrev_filed (filed : z.status = .filed) :
    joinPrev (pre ++ [z]) x = (pre, (z.turn .loose).join x) := by
  simp [joinPrev, Cell.isFree_of_filed filed]

theorem dropFree_used {o : Option Cell} (used : ∀ z ∈ o, z.status = .used) :
    dropFree lists o = lists := by
  cases o with
  | none => rfl
  | some z => simp [dropFree, Cell.isFree_of_used (used z rfl)]

theorem dropFree_filed (filed : z.status = .filed) : dropFree lists (some z) = dropBlock lists z :=
  if_pos (Cell.isFree_of_filed filed)

theorem allLinks_dropFree (lists : SizeClass → List Nat) (o : Option Cell) :
    allLinks (dropFree lists o) ⊆ allLinks lists := by
  cases o with
  | none => exact fun _ h => h
  | some z =>
    by_cases free : z.isFree = true
    · rw [dropFree, if_pos free]
      exact allLinks_dropBlock lists z
    · rw [dropFree, if_neg free]

theorem Cell.used_or_filed (settled : z.status ≠ .loose) : z.status = .used ∨ z.status = .filed := by
  cases status : z.status with
  | used => exact .inl rfl
  | loose => exact absurd status settled
  | filed => exact .inr rfl

theorem lastFree?_used (used : ∀ z ∈ pre.getLast?, z.status = .used) : lastFree? none pre = none := by
  rcases List.eq_nil_or_concat pre with rfl | ⟨init, w, rfl⟩
  · rfl
  · rw [List.concat_eq_append] at *
    have last := Cell.isFree_of_used (used w (by simp))
    simp [lastFree?_append, lastFree?, Cell.freeHeader?, last]

theorem lastFree?_filed (filed : z.status = .filed) :
    lastFree? none (pre ++ [z]) = some z.header := by
  simp [lastFree?_append, lastFree?, Cell.freeHeader?, Cell.isFree_of_filed filed]

end Neighbours

namespace Arena

variable {a : Arena} {first stop : Nat} {pre post : List Cell} {x z : Cell}
  {lists : SizeClass → List Nat}

theorem Holds.absorbed (holds : a.Holds first stop (pre ++ x :: z :: post) lists)
    (loose : z.status = .loose) :
    ∃ b y rest, Block.absorb a.buffer x.header z.header = .ok b ∧
      post ++ [.sentinel stop] = y :: rest ∧ y.header = (x.join z).stop ∧ y.header = z.stop ∧
      Tagged b (x.join z) (lastFree? none pre) ∧ Tagged b y (some x.header) ∧
      OnlyTouches a.buffer b
        (Set.Ico (x.header + 4) (x.header + 8) ∪ Set.Ico z.stop (z.stop + 4)) := by
  obtain ⟨y₁, rest₁, follow₁, behind, tagx, tagz, -⟩ := holds.seam
  obtain ⟨rfl, rfl⟩ := List.cons.inj follow₁
  have holds' : a.Holds first stop ((pre ++ [x]) ++ z :: post) lists := by simpa using holds
  obtain ⟨y, rest, follow, next, -, tagy, -⟩ := holds'.seam
  have free : z.freeHeader? = some z.header := by simp [Cell.freeHeader?, Cell.isFree, loose]
  rw [free] at tagy
  have placex := holds.placed (x := x) (by simp)
  have placez := holds.placed (x := z) (by simp)
  have least := placex.2.2.2.1.minimum
  have room := holds.room
  have low := holds.low
  have fits : x.size + z.size + 8 < UInt32.size := by omega
  obtain ⟨b, run, tagx', tagy', touched⟩ :=
    Tlsf.absorb_spec tagx tagz tagy behind next (by omega) fits
  exact ⟨b, y, rest, run, follow, next.trans (Cell.join_stop behind).symm, next, tagx', tagy',
    next ▸ touched⟩

theorem Holds.rejoin {b : Buffer} {y : Cell} {rest : List Cell}
    (holds : a.Holds first stop (pre ++ x :: z :: post) lists)
    (follow : post ++ [.sentinel stop] = y :: rest) (unlisted : x.status ≠ .filed)
    (loose : z.status = .loose) (tagx : Tagged b (x.join z) (lastFree? none pre))
    (tagy : Tagged b y (x.join z).freeHeader?)
    (touched : OnlyTouches a.buffer b
      (Set.Ico (x.header + 4) (x.header + 8) ∪ Set.Ico z.stop (z.stop + 8))) :
    Arena.Holds { a with buffer := b } first stop (pre ++ x.join z :: post) lists := by
  obtain ⟨y₁, rest₁, follow₁, behind, -⟩ := holds.seam
  obtain ⟨rfl, rfl⟩ := List.cons.inj follow₁
  have placex := holds.placed (x := x) (by simp)
  have placez := holds.placed (x := z) (by simp)
  refine holds.retile x.header z.stop [x, z] [x.join z] follow
    ⟨rfl, placex.2.2.2.1, behind, placez.2.2.2.1, rfl⟩
    ⟨rfl, Cell.join_regular placex.2.2.2.1 placez.2.2.2.1, Cell.join_stop behind⟩
    (by simp) (by simp [unlisted, loose]) touched (fun i mem => ?_) ⟨tagx, tagy, trivial⟩
    (fun h => ?_)
  · have stopz := z.stop_eq
    simp only [Set.mem_union, Set.mem_Ico] at mem
    omega
  · rw [holds.live h]
    simp [loose]

theorem absorb_spec (holds : a.Holds first stop (pre ++ x :: z :: post) lists)
    (loosex : x.status = .loose) (loosez : z.status = .loose) :
    ∃ b, a.edit (fun b => Block.absorb b x.header z.header) = .ok { a with buffer := b } ∧
      Arena.Holds { a with buffer := b } first stop (pre ++ x.join z :: post) lists ∧
      OnlyTouches a.buffer b
        (Set.Ico (x.header + 4) (x.header + 8) ∪ Set.Ico z.stop (z.stop + 4)) := by
  obtain ⟨b, y, rest, run, follow, -, -, tagx, tagy, touched⟩ := holds.absorbed loosez
  have free : (x.join z).freeHeader? = some x.header := by
    simp [Cell.freeHeader?, Cell.isFree, loosex]
  refine ⟨b, edit_eq run, ?_, touched⟩
  refine holds.rejoin follow (by simp [loosex]) loosez tagx (free ▸ tagy) (touched.mono ?_)
  exact Set.union_subset_union_right _ (Set.Ico_subset_Ico_right (by omega))

theorem split_spec (holds : a.Holds first stop (pre ++ x :: post) lists)
    (unlisted : x.status ≠ .filed) {size : Nat} (room : size + 24 ≤ x.size) (least : 16 ≤ size)
    (granular : size % 8 = 0) :
    ∃ b, a.editWith (fun b => Block.split b x.header size) =
        .ok ((x.tail size).header, { a with buffer := b }) ∧
      Arena.Holds { a with buffer := b } first stop (pre ++ x.front size :: x.tail size :: post) lists ∧
      OnlyTouches a.buffer b (Set.Ico (x.header + 4) (x.header + 8) ∪
        Set.Ico (x.tail size).header ((x.tail size).header + 8) ∪ Set.Ico x.stop (x.stop + 8)) := by
  obtain ⟨y, rest, follow, behind, tagx, tagy, -⟩ := holds.seam
  obtain ⟨b, run, front, tail, tagy', touched⟩ :=
    Tlsf.split_spec tagx tagy behind room (by omega)
  have place := holds.placed (x := x) (by simp)
  have whole := place.2.2.2.1.granular
  have end_ : (x.tail size).stop = x.stop := Cell.tail_stop (by omega)
  refine ⟨b, editWith_eq run, ?_, behind ▸ touched⟩
  refine holds.retile x.header x.stop [x] [x.front size, x.tail size] follow ⟨rfl, place.2.2.2.1, rfl⟩
    ⟨rfl, ⟨least, granular⟩, rfl, ⟨by rw [Cell.tail_size]; omega, by rw [Cell.tail_size]; omega⟩, end_⟩
    (by simp) (by simp [unlisted]) touched (fun i mem => ?_) ⟨front, tail, tagy', trivial⟩ (fun h => ?_)
  · have stopx := x.stop_eq
    simp only [Set.mem_union, Set.mem_Ico, Cell.tail_header] at mem
    omega
  · rw [holds.live h]
    simp

theorem mergeNext_spec (holds : a.Holds first stop (pre ++ x :: post) lists)
    (loose : x.status = .loose) (settled : ∀ z ∈ post, z.status ≠ .loose) :
    ∃ a', a.mergeNext x.header = .ok a' ∧
      a'.Holds first stop (pre ++ (joinNext x post).1 :: (joinNext x post).2)
        (dropFree lists post.head?) ∧
      OnlyTouches a.buffer a'.buffer (allLinks lists ∪ Set.Ico (x.header + 4) (x.header + 8) ∪
        Set.Ico (joinNext x post).1.stop ((joinNext x post).1.stop + 4)) := by
  obtain ⟨y, rest, follow, behind, tagx, tagy, -⟩ := holds.seam
  have least := (holds.placed (x := x) (by simp)).2.2.2.1.minimum
  have next : Block.nextPhysical a.buffer x.header = .ok y.header := by
    rw [behind]
    exact tagx.sized.nextPhysical_eq (by omega)
  cases post with
  | nil =>
    obtain ⟨rfl, rfl⟩ := List.cons.inj follow
    refine ⟨a, ?_, holds, .refl _ _⟩
    simp only [mergeNext, next, tagy.sized.isLast_eq, Checked.ok_bind, Checked.pure_eq]
    rfl
  | cons z post =>
    obtain ⟨rfl, rfl⟩ := List.cons.inj follow
    have leastz := (holds.placed (x := z) (by simp)).2.2.2.1.minimum
    have more : (z.size == 0) = false := beq_eq_false_iff_ne.mpr (by omega)
    rcases Cell.used_or_filed (settled z (List.mem_cons_self ..)) with used | filed
    · have stays : ∀ w ∈ (z :: post).head?, w.status = .used := by simp [used]
      rw [joinNext_used stays, dropFree_used stays]
      refine ⟨a, ?_, holds, .refl _ _⟩
      simp only [mergeNext, next, tagy.sized.isLast_eq, tagy.sized.isFree_eq, more,
        Cell.isFree_of_used used, Checked.ok_bind, Checked.pure_eq, Bool.false_eq_true, if_false]
    · have holds₁ : a.Holds first stop ((pre ++ [x]) ++ z :: post) lists := by simpa using holds
      obtain ⟨a₁, run₁, after₁, touched₁⟩ := removeFree_spec holds₁ filed
      have after₁ : a₁.Holds first stop (pre ++ x :: z.turn .loose :: post) (dropBlock lists z) := by
        simpa using after₁
      obtain ⟨b, run₂, after₂, touched₂⟩ := absorb_spec after₁ loose rfl
      rw [joinNext_filed filed, List.head?_cons, dropFree_filed filed]
      refine ⟨{ a₁ with buffer := b }, ?_, after₂, (touched₁.trans touched₂).mono ?_⟩
      · rw [Cell.turn_header] at run₂
        simp only [mergeNext, next, tagy.sized.isLast_eq, tagy.sized.isFree_eq, more,
          Cell.isFree_of_filed filed, run₁, run₂, Checked.ok_bind, Bool.false_eq_true, if_false,
          if_true]
      · rw [Cell.join_stop behind, Cell.turn_stop, Set.union_assoc]

theorem mergePrev_spec (holds : a.Holds first stop (pre ++ x :: post) lists)
    (loose : x.status = .loose) (settled : ∀ z ∈ pre, z.status ≠ .loose) :
    ∃ a', a.mergePrev x.header = .ok ((joinPrev pre x).2.header, a') ∧
      a'.Holds first stop ((joinPrev pre x).1 ++ (joinPrev pre x).2 :: post)
        (dropFree lists pre.getLast?) ∧
      OnlyTouches a.buffer a'.buffer (allLinks lists ∪
        Set.Ico ((joinPrev pre x).2.header + 4) ((joinPrev pre x).2.header + 8) ∪
        Set.Ico x.stop (x.stop + 4)) := by
  obtain ⟨-, -, -, -, tagx, -⟩ := holds.seam
  by_cases stays : ∀ w ∈ pre.getLast?, w.status = .used
  · rw [joinPrev_used stays, dropFree_used stays]
    refine ⟨a, ?_, holds, .refl _ _⟩
    rw [lastFree?_used stays] at tagx
    simp only [mergePrev, tagx.sized.isPrevFree_eq, Checked.ok_bind, Checked.pure_eq,
      Option.isSome_none, Bool.false_eq_true, if_false]
  · push Not at stays
    obtain ⟨w, last, free⟩ := stays
    obtain ⟨init, rfl⟩ := List.getLast?_eq_some_iff.mp last
    have filed := (Cell.used_or_filed (settled w (by simp))).resolve_left free
    rw [lastFree?_filed filed] at tagx
    have holds₁ : a.Holds first stop (init ++ w :: x :: post) lists := by simpa using holds
    obtain ⟨y, rest, follow, behind, tagw, -⟩ := holds₁.seam
    obtain ⟨rfl, rfl⟩ := List.cons.inj follow
    obtain ⟨a₁, run₁, after₁, touched₁⟩ := removeFree_spec holds₁ filed
    obtain ⟨b, run₂, after₂, touched₂⟩ := absorb_spec after₁ rfl loose
    rw [joinPrev_filed filed, last, dropFree_filed filed]
    refine ⟨{ a₁ with buffer := b }, ?_, after₂, (touched₁.trans touched₂).mono ?_⟩
    · have limit : w.header < UInt32.size := by
        have place := holds₁.placed (x := w) (by simp)
        have low := holds.low
        omega
      have prev := tagx.prevPhysical_eq limit
      rw [Cell.turn_header] at run₂
      simp only [mergePrev, tagx.sized.isPrevFree_eq, prev, tagw.sized.isFree_eq,
        Cell.isFree_of_filed filed, run₁, run₂, Checked.ok_bind, Checked.require_eq_ok,
        Checked.pure_eq, Option.isSome_some, if_true]
      rfl
    · rw [Set.union_assoc]
      exact subset_refl _

end Arena

end Tlsf
