import Tlsf.Proofs.Settling

/-!
Blocks handed out. A block is cut down to the request where its rest makes a
block of its own: `kept` is what stays, and `trimRest`, `trimLists` and
`trimArea` say what becomes of the rest. Both trims of the arena agree on this,
since a free block never has a free block behind it.
-/

namespace Tlsf

open Dimensions Buffer

section Trim

variable (lists : SizeClass → List Nat) (x : Cell) (n : Nat) (post : List Cell)

/-- The rest of a block that is cut down to `n` bytes, with a free successor joined to it. -/
def Cell.rest : Cell := (joinNext (x.tail n) post).1

def Cell.kept : Cell := if n + 24 ≤ x.size then x.front n else x

def trimRest : List Cell :=
  if n + 24 ≤ x.size then (x.rest n post).turn .filed :: (joinNext (x.tail n) post).2 else post

def trimLists : SizeClass → List Nat :=
  if n + 24 ≤ x.size then pushBlock (dropFree lists post.head?) (x.rest n post) else lists

def trimArea : Set Nat :=
  if n + 24 ≤ x.size then
    allLinks lists ∪ Set.Ico (x.header + 4) (x.header + 8) ∪
      Set.Ico (x.tail n).header ((x.tail n).header + 16) ∪ Set.Ico x.stop (x.stop + 8) ∪
      Set.Ico (x.rest n post).stop ((x.rest n post).stop + 4)
  else ∅

end Trim

section Kept

variable {x : Cell} {n : Nat}

@[simp] theorem Cell.kept_header : (x.kept n).header = x.header := by
  by_cases cut : n + 24 ≤ x.size <;> simp [Cell.kept, cut]

@[simp] theorem Cell.kept_status : (x.kept n).status = x.status := by
  by_cases cut : n + 24 ≤ x.size <;> simp [Cell.kept, cut]

theorem Cell.kept_size_ge (enough : n ≤ x.size) : n ≤ (x.kept n).size := by
  by_cases cut : n + 24 ≤ x.size
  · simp [Cell.kept, cut]
  · simpa [Cell.kept, cut] using enough

theorem Cell.kept_size_close (regular : x.Regular) (granular : n % 8 = 0) :
    (x.kept n).size ≤ n + 16 := by
  have whole := regular.granular
  by_cases cut : n + 24 ≤ x.size
  · simp [Cell.kept, cut]
  · simp only [Cell.kept, if_neg cut]
    omega

theorem Cell.kept_size_le : (x.kept n).size ≤ x.size := by
  by_cases cut : n + 24 ≤ x.size
  · simp only [Cell.kept, if_pos cut, Cell.front_size]
    omega
  · simp [Cell.kept, cut]

theorem Cell.kept_stop_le : (x.kept n).stop ≤ x.stop := by
  have size := x.kept_size_le (n := n)
  rw [Cell.stop_eq, Cell.stop_eq, Cell.kept_header]
  omega

theorem Cell.kept_turn (st st' : Status) : ((x.turn st).kept n).turn st' = (x.kept n).turn st' := by
  by_cases cut : n + 24 ≤ x.size <;> simp [Cell.kept, cut, Cell.turn, Cell.front]

end Kept

theorem trimArea_subset (lists : SizeClass → List Nat) (x : Cell) (n : Nat) {post : List Cell}
    (behind : ∀ z ∈ post.head?, z.status = .used) :
    trimArea lists x n post ⊆ allLinks lists ∪ Set.Ico (x.header + 4) (x.stop + 8) := by
  by_cases cut : n + 24 ≤ x.size
  · have stopx := x.stop_eq
    have end_ : (x.tail n).stop = x.stop := Cell.tail_stop (by omega)
    simp only [trimArea, if_pos cut, Cell.rest, joinNext_used behind, Cell.tail_header, end_]
    intro i mem
    simp only [Set.mem_union, Set.mem_Ico] at mem ⊢
    rcases mem with (((links | own) | front) | last) | last
    · exact .inl links
    all_goals exact .inr (by omega)
  · simp [trimArea, cut]

theorem Settled.trimRest {post : List Cell} (s : Settled post) (x : Cell) (n : Nat) :
    Settled (trimRest x n post) := by
  by_cases cut : n + 24 ≤ x.size
  · obtain ⟨behind, used⟩ := s.joinNext (x.tail n)
    simp only [Tlsf.trimRest, if_pos cut]
    have nothing : Settled [] := ⟨by simp, .nil⟩
    exact nothing.between behind (by simp) (by simp) fun z head => .inr (used z head)
  · simpa only [Tlsf.trimRest, if_neg cut] using s

theorem Settled.usedCells_trimRest {post : List Cell} (s : Settled post) (x : Cell) (n : Nat) :
    usedCells (Tlsf.trimRest x n post) = usedCells post := by
  by_cases cut : n + 24 ≤ x.size
  · simp only [Tlsf.trimRest, if_pos cut]
    rw [usedCells_free (by simp), s.usedCells_joinNext]
  · simp only [Tlsf.trimRest, if_neg cut]

theorem Settled.usedCells_carved {pre post : List Cell} {x : Cell} (s : Settled (pre ++ x :: post))
    (free : x.status ≠ .used) (n : Nat) :
    (usedCells (pre ++ (x.kept n).turn .used :: Tlsf.trimRest x n post)).Perm
      ((x.kept n).turn .used :: usedCells (pre ++ x :: post)) := by
  have rest : usedCells (pre ++ x :: post) = usedCells pre ++ usedCells post := by
    rw [usedCells_append, usedCells_free free]
  rw [rest, usedCells_append, usedCells_used rfl, s.behind.usedCells_trimRest]
  exact List.perm_middle

namespace Arena

variable {a : Arena} {first stop : Nat} {pre post : List Cell} {x : Cell}
  {lists : SizeClass → List Nat} {n : Nat}

theorem trimUsed_spec (holds : a.Holds first stop (pre ++ x :: post) lists)
    (used : x.status = .used) (settled : ∀ z ∈ post, z.status ≠ .loose) (least : 16 ≤ n)
    (granular : n % 8 = 0) (small : n < payloadLimit) :
    ∃ a', a.trimUsed x.header n = .ok a' ∧
      a'.Holds first stop (pre ++ x.kept n :: trimRest x n post) (trimLists lists x n post) ∧
      OnlyTouches a.buffer a'.buffer (trimArea lists x n post) := by
  obtain ⟨y, behind, follow, next, tag, -⟩ := holds.seam
  have can : Block.canSplit a.buffer x.header n = .ok (decide (n + 24 ≤ x.size)) :=
    tag.sized.canSplit_eq (word_fits small)
  by_cases cut : n + 24 ≤ x.size
  · obtain ⟨b, run₁, after₁, touched₁⟩ := split_spec holds (by simp [used]) cut least granular
    have after₁ : Arena.Holds { a with buffer := b } first stop
        ((pre ++ [x.front n]) ++ x.tail n :: post) lists := by simpa using after₁
    obtain ⟨a₂, run₂, after₂, touched₂⟩ := mergeNext_spec after₁ rfl settled
    obtain ⟨a₃, run₃, after₃, touched₃⟩ := insertFree_spec after₂ (by simp)
    rw [joinNext_header] at run₃ touched₃
    simp only [Cell.kept, trimRest, trimLists, trimArea, if_pos cut, Cell.rest]
    refine ⟨a₃, ?_, by simpa using after₃, ((touched₁.trans touched₂).trans touched₃).mono ?_⟩
    · simp only [trimUsed, tag.sized.isFree_eq, Cell.isFree_of_used used, can, decide_eq_true cut,
        Checked.require_eq_ok, Checked.ok_bind, if_true, run₁, run₂, run₃]
    · have drop := allLinks_dropFree lists post.head?
      intro i mem
      simp only [Set.mem_union, Set.mem_Ico] at mem ⊢
      rcases mem with (touch₁ | (links | own) | last) | links | own
      · omega
      · exact .inl (.inl (.inl (.inl links)))
      · omega
      · exact .inr last
      · exact .inl (.inl (.inl (.inl (drop links))))
      · omega
  · simp only [Cell.kept, trimRest, trimLists, trimArea, if_neg cut]
    refine ⟨a, ?_, holds, .refl _ _⟩
    simp only [trimUsed, tag.sized.isFree_eq, Cell.isFree_of_used used, can, decide_eq_false cut,
      Checked.require_eq_ok, Checked.ok_bind, Checked.pure_eq, Bool.false_eq_true, if_false]

theorem trimFree_spec (holds : a.Holds first stop (pre ++ x :: post) lists)
    (loose : x.status = .loose) (behind : ∀ z ∈ post.head?, z.status = .used) (least : 16 ≤ n)
    (granular : n % 8 = 0) (small : n < payloadLimit) :
    ∃ a', a.trimFree x.header n = .ok a' ∧
      a'.Holds first stop (pre ++ x.kept n :: trimRest x n post) (trimLists lists x n post) ∧
      OnlyTouches a.buffer a'.buffer (trimArea lists x n post) := by
  obtain ⟨y, others, follow, next, tag, -⟩ := holds.seam
  have can : Block.canSplit a.buffer x.header n = .ok (decide (n + 24 ≤ x.size)) :=
    tag.sized.canSplit_eq (word_fits small)
  have free : x.isFree = true := by
    rw [Cell.isFree, loose]
    rfl
  by_cases cut : n + 24 ≤ x.size
  · obtain ⟨b, run₁, after₁, touched₁⟩ := split_spec holds (by simp [loose]) cut least granular
    have after₁ : Arena.Holds { a with buffer := b } first stop
        ((pre ++ [x.front n]) ++ x.tail n :: post) lists := by simpa using after₁
    obtain ⟨a₂, run₂, after₂, touched₂⟩ := insertFree_spec after₁ rfl
    simp only [Cell.kept, trimRest, trimLists, trimArea, if_pos cut, Cell.rest, joinNext_used behind,
      dropFree_used behind]
    refine ⟨a₂, ?_, by simpa using after₂, (touched₁.trans touched₂).mono ?_⟩
    · simp only [trimFree, tag.sized.isFree_eq, free, can, decide_eq_true cut,
        Checked.require_eq_ok, Checked.ok_bind, if_true, run₁, run₂]
    · intro i mem
      simp only [Set.mem_union, Set.mem_Ico] at mem ⊢
      rcases mem with touch₁ | links | own
      · omega
      · exact .inl (.inl (.inl (.inl links)))
      · omega
  · simp only [Cell.kept, trimRest, trimLists, trimArea, if_neg cut]
    refine ⟨a, ?_, holds, .refl _ _⟩
    simp only [trimFree, tag.sized.isFree_eq, free, can, decide_eq_false cut,
      Checked.require_eq_ok, Checked.ok_bind, Checked.pure_eq, Bool.false_eq_true, if_false]

theorem handOut_spec (holds : a.Holds first stop (pre ++ x :: post) lists)
    (loose : x.status = .loose) :
    ∃ b, a.edit (fun b => Block.markUsed b x.header) = .ok { a with buffer := b } ∧
      Arena.Holds ⟨b, a.index, a.live.insert x.header⟩ first stop (pre ++ x.turn .used :: post) lists ∧
      OnlyTouches a.buffer b
        (Set.Ico (x.header + 4) (x.header + 8) ∪ Set.Ico (x.stop + 4) (x.stop + 8)) := by
  obtain ⟨y, others, follow, next, tagx, tagy, -⟩ := holds.seam
  have place := holds.placed (x := x) (by simp)
  have least := place.2.2.2.1.minimum
  obtain ⟨b, run, tagx', tagy', touched⟩ := markUsed_spec tagx tagy next (by omega)
  refine ⟨b, edit_eq run, ?_, next ▸ touched⟩
  refine holds.retile x.header x.stop [x] [x.turn .used] follow
    ⟨rfl, place.2.2.2.1, rfl⟩ ⟨rfl, Cell.turn_regular.mpr place.2.2.2.1, rfl⟩ (by simp)
    (by simp [loose]) touched (fun i mem => ?_) ⟨tagx', tagy', trivial⟩ (fun h => ?_)
  · have stopx := x.stop_eq
    simp only [Set.mem_union, Set.mem_Ico] at mem
    omega
  · rw [Std.ExtTreeSet.mem_insert, holds.live h]
    simp [loose, or_left_comm]

theorem allocate?_spec {cells : List Cell} (stable : a.Stable first stop cells lists) (size : Nat) :
    a.allocate? size = .ok none ∨
      ∃ pre x post payload a', cells = pre ++ x :: post ∧ x.status = .filed ∧
        payloadFor? size = some payload ∧ payload ≤ x.size ∧
        (lists (SizeClass.ofSize x.size)).head? = some x.header ∧
        a.allocate? size = .ok (some (x.header, a')) ∧
        a'.Stable first stop (pre ++ (x.kept payload).turn .used :: trimRest x payload post)
          (trimLists (dropBlock lists x) x payload post) ∧
        OnlyTouches a.buffer a'.buffer (allLinks lists ∪ Set.Ico (x.header + 4) (x.stop + 8)) := by
  cases request : payloadFor? size with
  | none =>
    refine .inl ?_
    simp only [allocate?, request, Checked.pure_eq]
  | some payload =>
    obtain ⟨-, least, granular, small⟩ := payloadFor?_eq_some request
    rcases takeFree?_spec stable.holds small granular with none | found
    · refine .inl ?_
      simp only [allocate?, request, none, Checked.ok_bind, Checked.pure_eq]
    · obtain ⟨pre, x, post, a₁, rfl, filed, enough, head, run₁, after₁, touched₁⟩ := found
      -- behind a free block stands a used one, so the rest has nothing to be joined with
      have behind := (stable.settled.neighbours (by simp [filed])).2
      obtain ⟨a₂, run₂, after₂, touched₂⟩ :=
        trimFree_spec after₁ rfl behind least granular small
      obtain ⟨b, run₃, after₃, touched₃⟩ := handOut_spec after₂ (by simp)
      rw [Cell.kept_turn] at after₃
      rw [Cell.kept_header] at run₃ after₃ touched₃
      refine .inr ⟨pre, x, post, payload, ⟨b, a₂.index, a₂.live.insert x.header⟩, rfl, filed, rfl,
        enough, head, ?_, ⟨after₃, ?_⟩, ((touched₁.trans touched₂).trans touched₃).mono ?_⟩
      · rw [Cell.turn_header] at run₂ run₃
        simp only [allocate?, request, run₁, run₂, run₃, Checked.ok_bind, Checked.pure_eq]
      · exact stable.settled.before.insertUsed (stable.settled.behind.trimRest x payload) (by simp)
      · have drop := allLinks_dropBlock lists x
        have trimmed := trimArea_subset (dropBlock lists x) (x.turn .loose) payload behind
        have keptStop := (x.turn .loose).kept_stop_le (n := payload)
        have start := ((x.turn .loose).kept payload).stop_eq
        rw [Cell.turn_stop] at keptStop
        rw [Cell.kept_header, Cell.turn_header] at start
        rintro i ((links | cut) | own)
        · exact .inl links
        · rcases trimmed cut with links | own
          · exact .inl (drop links)
          · exact .inr own
        · refine .inr ?_
          simp only [Set.mem_union, Set.mem_Ico, Cell.turn_header] at own ⊢
          omega

end Arena

end Tlsf
