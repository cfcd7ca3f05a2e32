import Mathlib.Data.List.Chain
import Tlsf.Proofs.Coalescing

/-!
Pools between two calls. A tiling is settled when no cell is loose and of two
neighbours at most one is free; `Arena.Stable` is `Holds` for a settled tiling.
Here is what joining neighbours does to settled stretches, and that the used
cells of a stretch survive it.
-/

namespace Tlsf

def Apart (x y : Cell) : Prop := x.status = .used ∨ y.status = .used

structure Settled (cells : List Cell) : Prop where
  filed : ∀ z ∈ cells, z.status ≠ .loose
  apart : cells.IsChain Apart

structure Arena.Stable (a : Arena) (first stop : Nat) (cells : List Cell)
    (lists : SizeClass → List Nat) : Prop where
  holds : a.Holds first stop cells lists
  settled : Settled cells

def usedCells (cells : List Cell) : List Cell := cells.filter fun x => x.status = .used

section UsedCells

variable {x : Cell} {l m : List Cell} {h : Nat}

@[simp] theorem usedCells_nil : usedCells [] = [] := rfl

@[simp] theorem usedCells_append : usedCells (l ++ m) = usedCells l ++ usedCells m :=
  List.filter_append ..

theorem usedCells_used (used : x.status = .used) : usedCells (x :: l) = x :: usedCells l := by
  simp [usedCells, used]

theorem usedCells_free (free : x.status ≠ .used) : usedCells (x :: l) = usedCells l := by
  simp [usedCells, free]

theorem mem_usedCells : x ∈ usedCells l ↔ x ∈ l ∧ x.status = .used := by
  simp [usedCells]

theorem usedCells_perm (used : x.status = .used) :
    (usedCells (l ++ x :: m)).Perm (x :: (usedCells l ++ usedCells m)) := by
  rw [usedCells_append, usedCells_used used]
  exact List.perm_middle

theorem Arena.Holds.size_used {a : Arena} {first stop : Nat} {lists : SizeClass → List Nat}
    (holds : a.Holds first stop l lists) (mem : x ∈ usedCells l) :
    Block.size a.buffer x.header = .ok x.size := by
  obtain ⟨pre, post, rfl⟩ := List.append_of_mem (mem_usedCells.mp mem).1
  obtain ⟨y, rest, -, -, tag, -⟩ := holds.seam
  exact tag.sized.size_eq

end UsedCells

namespace Settled

variable {pre post : List Cell} {x : Cell}

theorem before (s : Settled (pre ++ x :: post)) : Settled pre :=
  ⟨fun z mem => s.filed z (List.mem_append_left _ mem), (List.isChain_append.mp s.apart).1⟩

theorem behind (s : Settled (pre ++ x :: post)) : Settled post :=
  ⟨fun z mem => s.filed z (List.mem_append_right _ (List.mem_cons_of_mem x mem)),
    (List.isChain_cons.mp (List.isChain_append.mp s.apart).2.1).2⟩

theorem between (before : Settled pre) (behind : Settled post) (settled : x.status ≠ .loose)
    (left : ∀ w ∈ pre.getLast?, Apart w x) (right : ∀ z ∈ post.head?, Apart x z) :
    Settled (pre ++ x :: post) := by
  refine ⟨fun z mem => ?_, List.isChain_append.mpr ⟨before.apart, ?_, ?_⟩⟩
  · rcases List.mem_append.mp mem with old | new
    · exact before.filed z old
    · rcases List.mem_cons.mp new with rfl | old
      · exact settled
      · exact behind.filed z old
  · exact List.isChain_cons.mpr ⟨right, behind.apart⟩
  · intro w last z head
    obtain rfl : x = z := by simpa using head
    exact left w last

theorem insertUsed (before : Settled pre) (behind : Settled post) (used : x.status = .used) :
    Settled (pre ++ x :: post) :=
  before.between behind (by simp [used]) (fun _ _ => .inr used) (fun _ _ => .inl used)

theorem neighbours (s : Settled (pre ++ x :: post)) (free : x.status ≠ .used) :
    (∀ w ∈ pre.getLast?, w.status = .used) ∧ ∀ z ∈ post.head?, z.status = .used := by
  obtain ⟨-, behind, left⟩ := List.isChain_append.mp s.apart
  have right := (List.isChain_cons.mp behind).1
  exact ⟨fun w last => (left w last x rfl).resolve_right free,
    fun z head => (right z head).resolve_left free⟩

theorem joinNext (s : Settled post) (x : Cell) :
    Settled (joinNext x post).2 ∧ ∀ z ∈ (joinNext x post).2.head?, z.status = .used := by
  cases post with
  | nil => exact ⟨s, fun z head => nomatch head⟩
  | cons z post =>
    rcases Cell.used_or_filed (s.filed z (List.mem_cons_self ..)) with used | filed
    · rw [joinNext_used (by simp [used])]
      exact ⟨s, by simp [used]⟩
    · rw [joinNext_filed filed]
      have whole : Settled ([] ++ z :: post) := s
      exact ⟨whole.behind, (whole.neighbours (by simp [filed])).2⟩

theorem joinPrev (s : Settled pre) (x : Cell) :
    Settled (joinPrev pre x).1 ∧ ∀ w ∈ (joinPrev pre x).1.getLast?, w.status = .used := by
  rcases List.eq_nil_or_concat pre with rfl | ⟨init, w, rfl⟩
  · exact ⟨s, fun w last => nomatch last⟩
  · rw [List.concat_eq_append] at *
    rcases Cell.used_or_filed (s.filed w (by simp)) with used | filed
    · rw [joinPrev_used (by simp [used])]
      exact ⟨s, by simp [used]⟩
    · rw [joinPrev_filed filed]
      exact ⟨s.before, (s.neighbours (by simp [filed])).1⟩

theorem usedCells_joinNext (s : Settled post) (x : Cell) :
    usedCells (Tlsf.joinNext x post).2 = usedCells post := by
  cases post with
  | nil => rfl
  | cons z post =>
    rcases Cell.used_or_filed (s.filed z (List.mem_cons_self ..)) with used | filed
    · rw [joinNext_used (by simp [used])]
    · rw [joinNext_filed filed, usedCells_free (by simp [filed])]

theorem usedCells_joinPrev (s : Settled pre) (x : Cell) :
    usedCells (Tlsf.joinPrev pre x).1 = usedCells pre := by
  rcases List.eq_nil_or_concat pre with rfl | ⟨init, w, rfl⟩
  · rfl
  · rw [List.concat_eq_append] at *
    rcases Cell.used_or_filed (s.filed w (by simp)) with used | filed
    · rw [joinPrev_used (by simp [used])]
    · rw [joinPrev_filed filed, usedCells_append, usedCells_free (by simp [filed]), usedCells_nil,
        List.append_nil]

end Settled

section Joined

variable {x : Cell} {pre post : List Cell}

@[simp] theorem joinNext_header : (joinNext x post).1.header = x.header := by
  cases post with
  | nil => rfl
  | cons z post => by_cases free : z.isFree = true <;> simp [joinNext, free]

@[simp] theorem joinNext_status : (joinNext x post).1.status = x.status := by
  cases post with
  | nil => rfl
  | cons z post => by_cases free : z.isFree = true <;> simp [joinNext, free]

theorem joinPrev_status (loose : x.status = .loose) : (joinPrev pre x).2.status = .loose := by
  unfold joinPrev
  cases pre.getLast? with
  | none => exact loose
  | some w => by_cases free : w.isFree = true <;> simp [free, loose]

end Joined

end Tlsf
