import Tlsf.Pool
import Tlsf.Proofs.Resizing

/-!
Two arenas over different bytes. Twins fill the same layout with the same cells
and the same lists; what else their buffers hold is not compared. The cells and
the lists determine the index and the blocks that are handed out, so whatever
is asked of both, twins give the same answer and stay twins. The overwriting of
released payloads does not enter into this either.
-/

namespace Tlsf

open Dimensions Buffer

theorem Arena.Holds.lists_perm {a a' : Arena} {first stop : Nat} {cells : List Cell}
    {lists lists' : SizeClass → List Nat} (holds : a.Holds first stop cells lists)
    (holds' : a'.Holds first stop cells lists') (c : SizeClass) : (lists c).Perm (lists' c) :=
  (List.perm_ext_iff_of_nodup (holds.nodup c) (holds'.nodup c)).mpr fun h => by
    rw [holds.listed c h, holds'.listed c h]

theorem Arena.Holds.lists_unique {a a' : Arena} {first stop : Nat} {x : Cell}
    {lists lists' : SizeClass → List Nat} (holds : a.Holds first stop [x] lists)
    (holds' : a'.Holds first stop [x] lists') : lists' = lists := by
  funext c
  have only : ∀ h, FiledAt [x] c h → h = x.header := by
    rintro h ⟨z, mem, header, -⟩
    rw [← header, List.mem_singleton.mp mem]
  have left := List.eq_replicate_of_mem fun h mem => only h ((holds.listed c h).mp mem)
  have right := List.eq_replicate_of_mem fun h mem => only h ((holds'.listed c h).mp mem)
  rw [left, right, (holds.lists_perm holds' c).length_eq]

theorem Tiles.split_unique {lo hi : Nat} {pre pre' post post' : List Cell} {x x' : Cell}
    (tiles : Tiles lo (pre ++ x :: post) hi) (same : pre ++ x :: post = pre' ++ x' :: post')
    (header : x.header = x'.header) : pre = pre' ∧ x = x' ∧ post = post' := by
  have mem : x' ∈ pre ++ x :: post := same ▸ (by simp)
  obtain rfl := tiles.eq_of_header_eq (by simp) mem header
  have others := tiles.ne_header
  have left : x ∉ pre := fun here => others x (List.mem_append_left _ here) rfl
  have right : x ∉ post := fun here => others x (List.mem_append_right _ here) rfl
  exact (List.append_cons_inj_of_notMem left right).mp same

def FreeIndex.candidate (index : FreeIndex) (size : Nat) : Checked (Option Nat) := do
  match index.firstFrom? (← SizeClass.roundUp size) with
  | none => pure none
  | some c => index.head c

namespace Arena

structure Fills (a : Arena) (l : Layout) (cells : List Cell) (lists : SizeClass → List Nat) : Prop where
  stable : a.Stable l.firstBlock l.sentinel cells lists
  start : l.regionStart ≤ l.firstBlock
  inside : l.sentinel + 8 ≤ l.regionEnd
  region : l.regionEnd ≤ a.buffer.size
  low : l.regionEnd < UInt32.size

structure Twins (l : Layout) (a a' : Arena) (cells : List Cell) (lists : SizeClass → List Nat) :
    Prop where
  left : a.Fills l cells lists
  right : a'.Fills l cells lists

variable {l : Layout} {a a' b : Arena} {first stop : Nat} {cells cells' : List Cell} {x : Cell}
  {lists lists' : SizeClass → List Nat} {size payload : Nat}

theorem takeFree?_found {taken : Option (Nat × Arena)} (run : a.takeFree? size = .ok taken) :
    a.index.candidate size = .ok (taken.map Prod.fst) := by
  obtain ⟨c, rounded, run⟩ := Checked.of_bind run
  simp only [FreeIndex.candidate, rounded, Checked.ok_bind]
  cases search : a.index.firstFrom? c with
  | none =>
    rw [search] at run
    cases run
    rfl
  | some d =>
    rw [search] at run
    obtain ⟨head, found, run⟩ := Checked.of_bind run
    cases head with
    | none =>
      cases run
      exact found
    | some h =>
      obtain ⟨_, -, run⟩ := Checked.of_bind run
      obtain ⟨_, -, run⟩ := Checked.of_bind run
      obtain ⟨_, -, run⟩ := Checked.of_bind run
      cases run
      exact found

theorem allocate?_found (request : payloadFor? size = some payload) {given : Option (Nat × Arena)}
    (run : a.allocate? size = .ok given) :
    a.index.candidate payload = .ok (given.map Prod.fst) := by
  simp only [allocate?, request] at run
  obtain ⟨taken, found, run⟩ := Checked.of_bind run
  cases taken with
  | none =>
    cases run
    exact takeFree?_found found
  | some t =>
    obtain ⟨_, -, run⟩ := Checked.of_bind run
    obtain ⟨_, -, run⟩ := Checked.of_bind run
    cases run
    exact (takeFree?_found found).trans rfl

theorem Fills.after {area : Set Nat} (fills : a.Fills l cells lists)
    (stable : b.Stable l.firstBlock l.sentinel cells' lists')
    (touched : OnlyTouches a.buffer b.buffer area) : b.Fills l cells' lists' :=
  { fills with stable, region := touched.size ▸ fills.region }

def ResizesAlike (l : Layout) (a a' : Arena) (x : Cell) (size : Nat) (stomp stomp' : Bool) : Prop :=
  (a.resize? x.header size stomp = .ok none ∧ a'.resize? x.header size stomp' = .ok none) ∨
    ∃ (y : Cell) (how : Resize) (b b' : Arena) (cells' : List Cell) (lists' : SizeClass → List Nat),
      a.resize? x.header size stomp = .ok (some (⟨y.header, how, x.size⟩, b)) ∧
      a'.resize? x.header size stomp' = .ok (some (⟨y.header, how, x.size⟩, b')) ∧
      Twins l b b' cells' lists' ∧ y ∈ usedCells cells'

namespace Twins

variable (twins : Twins l a a' cells lists)
include twins

theorem index : a.index = a'.index :=
  twins.left.stable.holds.mirror.unique twins.right.stable.holds.mirror

theorem live : a.live = a'.live :=
  Std.ExtTreeSet.ext_mem fun h => by
    rw [twins.left.stable.holds.live h, twins.right.stable.holds.live h]

theorem allocate? (size : Nat) :
    (a.allocate? size = .ok none ∧ a'.allocate? size = .ok none) ∨
      ∃ g b b' cells' lists', a.allocate? size = .ok (some (g.header, b)) ∧
        a'.allocate? size = .ok (some (g.header, b')) ∧ Twins l b b' cells' lists' ∧
        (usedCells cells').Perm (g :: usedCells cells) := by
  rcases allocate?_spec twins.left.stable size with none | found
  · rcases allocate?_spec twins.right.stable size with none' | found'
    · exact .inl ⟨none, none'⟩
    · obtain ⟨pre', x', post', payload, b', -, -, request, -, -, run', -⟩ := found'
      have one := allocate?_found request none
      rw [twins.index, allocate?_found request run'] at one
      cases one
  · obtain ⟨pre, x, post, payload, b, rfl, filed, request, -, -, run, stable, touched⟩ := found
    have one := allocate?_found request run
    rw [twins.index] at one
    rcases allocate?_spec twins.right.stable size with none' | found'
    · rw [allocate?_found request none'] at one
      cases one
    · obtain ⟨pre', x', post', payload', b', split, -, request', -, -, run', stable', touched'⟩ := found'
      obtain rfl : payload = payload' := Option.some.inj (request.symm.trans request')
      -- both searches end at one header, and there the tiling splits in one way only
      rw [allocate?_found request run'] at one
      have header : x'.header = x.header := Option.some.inj (Except.ok.inj one)
      obtain ⟨rfl, rfl, rfl⟩ := twins.left.stable.holds.tiles.split_unique split header.symm
      refine .inr ⟨(x.kept payload).turn .used, b, b', _, _, ?_, ?_,
        ⟨twins.left.after stable touched, twins.right.after stable' touched'⟩,
        twins.left.stable.settled.usedCells_carved (by simp [filed]) payload⟩
      · rw [run, Cell.turn_header, Cell.kept_header]
      · rw [run', Cell.turn_header, Cell.kept_header]

theorem release (mem : x ∈ usedCells cells) (stomp stomp' : Bool) :
    ∃ b b' cells' lists', a.release x.header stomp = .ok b ∧ a'.release x.header stomp' = .ok b' ∧
      Twins l b b' cells' lists' ∧ (usedCells cells).Perm (x :: usedCells cells') := by
  obtain ⟨memx, used⟩ := mem_usedCells.mp mem
  obtain ⟨pre, post, rfl⟩ := List.append_of_mem memx
  obtain ⟨b, run, stable, touched, -⟩ := release_spec twins.left.stable used stomp
  obtain ⟨b', run', stable', touched', -⟩ := release_spec twins.right.stable used stomp'
  refine ⟨b, b', _, _, run, run',
    ⟨twins.left.after stable touched, twins.right.after stable' touched'⟩, ?_⟩
  rw [usedCells_released twins.left.stable.settled]
  exact usedCells_perm used

section Resize

variable {pre post : List Cell}

theorem resize?_inPlace (split : cells = pre ++ x :: post) (used : x.status = .used)
    (request : payloadFor? size = some payload) (enough : payload ≤ x.size) (stomp stomp' : Bool) :
    ResizesAlike l a a' x size stomp stomp' := by
  subst split
  by_cases cut : payload + 24 ≤ x.size
  · obtain ⟨b, run, stable, touched⟩ := resize?_shrunk twins.left.stable used request cut stomp
    obtain ⟨b', run', stable', touched'⟩ :=
      resize?_shrunk twins.right.stable used request cut stomp'
    refine .inr ⟨x.kept payload, .shrunk, b, b', _, _, ?_, ?_,
      ⟨twins.left.after stable touched, twins.right.after stable' touched'⟩,
      mem_usedCells.mpr ⟨by simp, by simp [used]⟩⟩
    · rw [run, Cell.kept_header]
    · rw [run', Cell.kept_header]
  · have run := resize?_unchanged twins.left.stable.holds request enough (by omega) stomp
    have run' := resize?_unchanged twins.right.stable.holds request enough (by omega) stomp'
    exact .inr ⟨x, .unchanged, a, a', _, _, run, run', twins, mem_usedCells.mpr ⟨by simp, used⟩⟩

theorem resize?_onward {z : Cell} (split : cells = pre ++ x :: z :: post) (used : x.status = .used)
    (filed : z.status = .filed) (request : payloadFor? size = some payload)
    (more : x.size < payload) (room : payload ≤ x.size + z.size + 8) (stomp stomp' : Bool) :
    ResizesAlike l a a' x size stomp stomp' := by
  subst split
  obtain ⟨b, run, stable, touched⟩ :=
    resize?_grown twins.left.stable used filed request more room stomp
  obtain ⟨b', run', stable', touched'⟩ :=
    resize?_grown twins.right.stable used filed request more room stomp'
  refine .inr ⟨(x.join z).kept payload, .grown, b, b', _, _, ?_, ?_,
    ⟨twins.left.after stable touched, twins.right.after stable' touched'⟩,
    mem_usedCells.mpr ⟨by simp, by simp [used]⟩⟩
  · rw [run, Cell.kept_header, Cell.join_header]
  · rw [run', Cell.kept_header, Cell.join_header]

theorem resize?_away (split : cells = pre ++ x :: post) (used : x.status = .used)
    (request : payloadFor? size = some payload) (more : x.size < payload)
    (stuck : ∀ z ∈ post.head?, z.status = .filed → x.size + z.size + 8 < payload)
    (stomp stomp' : Bool) : ResizesAlike l a a' x size stomp stomp' := by
  subst split
  have settled := twins.left.stable.settled.behind.filed
  have left := resize?_elsewhere twins.left.stable.holds settled request more stuck stomp
  have right := resize?_elsewhere twins.right.stable.holds settled request more stuck stomp'
  have old := usedCells_perm (l := pre) (m := post) used
  rcases twins.allocate? size with ⟨none, none'⟩ | found
  · refine .inl ⟨?_, ?_⟩
    · rw [left, none]
      rfl
    · rw [right, none']
      rfl
  · obtain ⟨g, b₁, b₁', cells₁, lists₁, run₁, run₁', twins₁, perm₁⟩ := found
    have target : g ∈ usedCells cells₁ := perm₁.symm.subset (List.mem_cons_self ..)
    have source : x ∈ usedCells cells₁ :=
      perm₁.symm.subset (List.mem_cons_of_mem g (old.symm.subset (List.mem_cons_self ..)))
    obtain ⟨c, run₂, holds₂, touched₂, -⟩ := copy_spec twins₁.left.stable.holds source target
    obtain ⟨c', run₂', holds₂', touched₂', -⟩ := copy_spec twins₁.right.stable.holds source target
    have twins₂ : Twins l { b₁ with buffer := c } { b₁' with buffer := c' } cells₁ lists₁ :=
      ⟨twins₁.left.after ⟨holds₂, twins₁.left.stable.settled⟩ touched₂,
        twins₁.right.after ⟨holds₂', twins₁.right.stable.settled⟩ touched₂'⟩
    obtain ⟨b₃, b₃', cells₃, lists₃, run₃, run₃', twins₃, perm₃⟩ :=
      twins₂.release source stomp stomp'
    -- the block that was granted is not the one that is released
    have perm : (usedCells cells₃).Perm (g :: (usedCells pre ++ usedCells post)) := by
      refine (List.Perm.trans perm₃.symm ?_).cons_inv (a := x)
      exact perm₁.trans ((old.cons g).trans (.swap x g _))
    refine .inr ⟨g, .moved, b₃, b₃', cells₃, lists₃, ?_, ?_, twins₃,
      perm.symm.subset (List.mem_cons_self ..)⟩
    · simp only [left, run₁, twins₁.left.stable.holds.size_used target, run₂, run₃, Checked.ok_bind,
        Checked.pure_eq]
    · simp only [right, run₁', twins₁.right.stable.holds.size_used target, run₂', run₃',
        Checked.ok_bind, Checked.pure_eq]

end Resize

theorem resize? (mem : x ∈ usedCells cells) (size : Nat) (stomp stomp' : Bool) :
    ResizesAlike l a a' x size stomp stomp' := by
  obtain ⟨memx, used⟩ := mem_usedCells.mp mem
  obtain ⟨pre, post, split⟩ := List.append_of_mem memx
  cases request : payloadFor? size with
  | none =>
    refine .inl ⟨?_, ?_⟩ <;> simp only [Arena.resize?, request, Checked.pure_eq]
  | some payload =>
    by_cases enough : payload ≤ x.size
    · exact twins.resize?_inPlace split used request enough stomp stomp'
    · by_cases room : ∃ z ∈ post.head?, z.status = .filed ∧ payload ≤ x.size + z.size + 8
      · obtain ⟨z, head, filed, room⟩ := room
        obtain ⟨post, rfl⟩ := List.head?_eq_some_iff.mp head
        exact twins.resize?_onward split used filed request (by omega) room stomp stomp'
      · push Not at room
        exact twins.resize?_away split used request (by omega) room stomp stomp'

end Twins

end Arena

end Tlsf
