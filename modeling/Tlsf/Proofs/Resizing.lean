import Tlsf.Proofs.Sparing

/-!
Resizes, one statement for each way to meet them: the block is kept as it is,
cut down, grown over a free successor, or moved. A grown block takes in all of
its successor first and is cut down afterwards.
-/

namespace Tlsf

open Dimensions Buffer

theorem Cell.turn_self {x : Cell} {st : Status} (same : x.status = st) : x.turn st = x := by
  subst same
  rfl

namespace Arena

variable {a : Arena} {first stop : Nat} {pre post : List Cell} {x z : Cell}
  {lists : SizeClass → List Nat} {size payload : Nat}

theorem resize?_unchanged (holds : a.Holds first stop (pre ++ x :: post) lists)
    (request : payloadFor? size = some payload) (enough : payload ≤ x.size)
    (tight : x.size < payload + 24) (stomp : Bool) :
    a.resize? x.header size stomp = .ok (some (⟨x.header, .unchanged, x.size⟩, a)) := by
  obtain ⟨-, -, -, small⟩ := payloadFor?_eq_some request
  obtain ⟨y, rest, -, -, tag, -⟩ := holds.seam
  have can : Block.canSplit a.buffer x.header payload = .ok (decide (payload + 24 ≤ x.size)) :=
    tag.sized.canSplit_eq (word_fits small)
  have no : decide (payload + 24 ≤ x.size) = false := decide_eq_false (by omega)
  simp only [resize?, request, tag.sized.size_eq, can, no, enough, Checked.ok_bind, Checked.pure_eq,
    if_true, Bool.false_eq_true, if_false]

theorem resize?_shrunk (stable : a.Stable first stop (pre ++ x :: post) lists)
    (used : x.status = .used) (request : payloadFor? size = some payload)
    (cut : payload + 24 ≤ x.size) (stomp : Bool) :
    ∃ a', a.resize? x.header size stomp = .ok (some (⟨x.header, .shrunk, x.size⟩, a')) ∧
      a'.Stable first stop (pre ++ x.kept payload :: trimRest x payload post)
        (trimLists lists x payload post) ∧
      OnlyTouches a.buffer a'.buffer (trimArea lists x payload post) := by
  obtain ⟨-, least, granular, small⟩ := payloadFor?_eq_some request
  obtain ⟨y, rest, -, -, tag, -⟩ := stable.holds.seam
  have can : Block.canSplit a.buffer x.header payload = .ok (decide (payload + 24 ≤ x.size)) :=
    tag.sized.canSplit_eq (word_fits small)
  have enough : payload ≤ x.size := by omega
  obtain ⟨a', run, after, touched⟩ :=
    trimUsed_spec stable.holds used stable.settled.behind.filed least granular small
  refine ⟨a', ?_, ⟨after, ?_⟩, touched⟩
  · simp only [resize?, request, tag.sized.size_eq, can, decide_eq_true cut, enough, run,
      Checked.ok_bind, Checked.pure_eq, if_true]
  · exact stable.settled.before.insertUsed (stable.settled.behind.trimRest x payload) (by simp [used])

theorem engulf_spec (holds : a.Holds first stop (pre ++ x :: z :: post) lists)
    (used : x.status = .used) (loose : z.status = .loose) :
    ∃ b, a.edit (fun b => do
          let b ← Block.absorb b x.header z.header
          Block.markUsed b x.header) = .ok { a with buffer := b } ∧
      Arena.Holds { a with buffer := b } first stop (pre ++ x.join z :: post) lists ∧
      OnlyTouches a.buffer b
        (Set.Ico (x.header + 4) (x.header + 8) ∪ Set.Ico z.stop (z.stop + 8)) := by
  obtain ⟨b₁, y, rest, run₁, follow, next, next', tagx₁, tagy₁, touched₁⟩ := holds.absorbed loose
  obtain ⟨b, run₂, tagx₂, tagy₂, touched₂⟩ := markUsed_spec tagx₁ tagy₁ next (by simp)
  rw [Cell.turn_self (by simp [used])] at tagx₂
  rw [Cell.join_header] at run₂ touched₂
  have hidden : (x.join z).freeHeader? = none := by simp [Cell.freeHeader?, Cell.isFree, used]
  have touched : OnlyTouches a.buffer b
      (Set.Ico (x.header + 4) (x.header + 8) ∪ Set.Ico z.stop (z.stop + 8)) := by
    refine (touched₁.trans touched₂).mono fun i mem => ?_
    simp only [next', Set.mem_union, Set.mem_Ico] at mem ⊢
    omega
  refine ⟨b, edit_eq ?_, ?_, touched⟩
  · rw [run₁, Checked.ok_bind, run₂]
  · exact holds.rejoin follow (by simp [used]) loose tagx₂ (hidden ▸ tagy₂) touched

theorem resize?_grown (stable : a.Stable first stop (pre ++ x :: z :: post) lists)
    (used : x.status = .used) (filed : z.status = .filed)
    (request : payloadFor? size = some payload) (more : x.size < payload)
    (room : payload ≤ x.size + z.size + 8) (stomp : Bool) :
    ∃ a', a.resize? x.header size stomp = .ok (some (⟨x.header, .grown, x.size⟩, a')) ∧
      a'.Stable first stop (pre ++ (x.join z).kept payload :: trimRest (x.join z) payload post)
        (trimLists (dropBlock lists z) (x.join z) payload post) ∧
      OnlyTouches a.buffer a'.buffer (allLinks lists ∪ Set.Ico (x.header + 4) (x.header + 8) ∪
        Set.Ico z.stop (z.stop + 8) ∪ trimArea (dropBlock lists z) (x.join z) payload post) := by
  obtain ⟨-, least, granular, small⟩ := payloadFor?_eq_some request
  have holds := stable.holds
  obtain ⟨y, rest, follow, behind, tagx, tagz, -⟩ := holds.seam
  obtain ⟨rfl, rfl⟩ := List.cons.inj follow
  have leastx := (holds.placed (x := x) (by simp)).2.2.2.1.minimum
  have next : Block.nextPhysical a.buffer x.header = .ok z.header := by
    rw [behind]
    exact tagx.sized.nextPhysical_eq (by omega)
  have holds' : a.Holds first stop ((pre ++ [x]) ++ z :: post) lists := by simpa using holds
  obtain ⟨a₁, run₁, after₁, touched₁⟩ := removeFree_spec holds' filed
  have after₁ : a₁.Holds first stop (pre ++ x :: z.turn .loose :: post) (dropBlock lists z) := by
    simpa using after₁
  obtain ⟨b, run₂, after₂, touched₂⟩ := engulf_spec after₁ used rfl
  have settled : Settled ((pre ++ [x]) ++ z :: post) := by simpa using stable.settled
  obtain ⟨a', run₃, after₃, touched₃⟩ := trimUsed_spec after₂ used settled.behind.filed least granular small
  refine ⟨a', ?_, ⟨after₃, ?_⟩, ?_⟩
  · have large : ¬ payload ≤ x.size := by omega
    rw [Cell.turn_header] at run₂
    rw [Cell.join_header] at run₃
    simp only [resize?, request, tagx.sized.size_eq, large, next, tagz.sized.size_eq,
      tagz.sized.isFree_eq, Cell.isFree_of_filed filed, true_and, if_pos room, run₁, run₂, run₃,
      headerSize, Checked.ok_bind, Checked.pure_eq, if_false]
  · exact stable.settled.before.insertUsed (settled.behind.trimRest _ payload) (by simp [used])
  · refine ((touched₁.trans touched₂).trans touched₃).mono ?_
    rintro i ((links | own | last) | cut)
    · exact .inl (.inl (.inl links))
    · exact .inl (.inl (.inr own))
    · exact .inl (.inr last)
    · exact .inr cut

theorem resize?_elsewhere (holds : a.Holds first stop (pre ++ x :: post) lists)
    (settled : ∀ z ∈ post, z.status ≠ .loose) (request : payloadFor? size = some payload)
    (more : x.size < payload)
    (stuck : ∀ z ∈ post.head?, z.status = .filed → x.size + z.size + 8 < payload) (stomp : Bool) :
    a.resize? x.header size stomp = (do
      match ← a.allocate? size with
      | none => pure none
      | some (target, a) =>
        let count := min x.size (← Block.size a.buffer target)
        let a ← a.edit fun b => b.move (x.header + headerSize) (target + headerSize) count
        pure (some (⟨target, .moved, x.size⟩, ← a.release x.header stomp))) := by
  obtain ⟨y, rest, follow, behind, tagx, tagy, -⟩ := holds.seam
  have least := (holds.placed (x := x) (by simp)).2.2.2.1.minimum
  have large : ¬ payload ≤ x.size := by omega
  have next : Block.nextPhysical a.buffer x.header = .ok y.header := by
    rw [behind]
    exact tagx.sized.nextPhysical_eq (by omega)
  have no : ¬ (y.isFree = true ∧ payload ≤ x.size + y.size + headerSize) := by
    rintro ⟨free, room⟩
    cases post with
    | nil =>
      obtain ⟨rfl, rfl⟩ := List.cons.inj follow
      exact absurd free (by simp [Cell.isFree_of_used (Cell.sentinel_status stop)])
    | cons z post =>
      obtain ⟨rfl, rfl⟩ := List.cons.inj follow
      have filed := (Cell.used_or_filed (settled z (List.mem_cons_self ..))).resolve_left
        ((Cell.isFree_iff z).mp free)
      have short := stuck z rfl filed
      simp only [headerSize] at room
      omega
  simp only [resize?, request, tagx.sized.size_eq, large, next, tagy.sized.size_eq,
    tagy.sized.isFree_eq, Checked.ok_bind, if_false]
  exact if_neg no

theorem copy_spec {cells : List Cell} (holds : a.Holds first stop cells lists)
    (source : x ∈ usedCells cells) (target : z ∈ usedCells cells) :
    ∃ b, a.edit (fun b => b.move (x.header + headerSize) (z.header + headerSize)
          (min x.size z.size)) = .ok { a with buffer := b } ∧
      Arena.Holds { a with buffer := b } first stop cells lists ∧
      OnlyTouches a.buffer b z.payload ∧
      ∀ k < min x.size z.size, b.byteAt (z.header + 8 + k) = a.buffer.byteAt (x.header + 8 + k) := by
  have placex := holds.placed (mem_usedCells.mp source).1
  have placez := holds.placed (mem_usedCells.mp target).1
  have room := holds.room
  have inside : x.header + headerSize + min x.size z.size ≤ a.buffer.size ∧
      z.header + headerSize + min x.size z.size ≤ a.buffer.size := by
    simp only [headerSize]
    omega
  have within : Set.Ico (z.header + 8) (z.header + 8 + min x.size z.size) ⊆ z.payload := by
    intro i mem
    refine ⟨mem.1, ?_⟩
    have high := mem.2
    omega
  have touched := (OnlyTouches.update a.buffer
    (fun i => a.buffer.byteAt (x.header + 8 + (i - (z.header + 8)))) (z.header + 8)
    (min x.size z.size)).mono within
  refine ⟨_, edit_eq (if_pos inside), holds.rewrite target touched, touched, fun k small => ?_⟩
  simp only [headerSize]
  rw [byteAt_update, if_pos (by simp only [headerSize] at inside; omega)]
  congr 1
  omega

end Arena

end Tlsf
