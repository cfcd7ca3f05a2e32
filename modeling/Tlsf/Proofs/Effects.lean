import Tlsf.Proofs.Resizing

/-!
What an arena does, in the terms that a pool needs: which used blocks there are
afterwards, and that all others keep their payloads. Each operation answers on
every stable arena and leaves a stable one. A block that is resized takes its
contents along, in place by the same argument that spares other payloads: what
is written is metadata before or metadata after.
-/

namespace Tlsf.Arena

open Dimensions Buffer

variable {a : Arena} {first stop : Nat} {cells : List Cell} {x : Cell}
  {lists : SizeClass → List Nat}

theorem allocate?_effect (stable : a.Stable first stop cells lists) (size : Nat) :
    a.allocate? size = .ok none ∨
      ∃ g payload a' cells' lists', payloadFor? size = some payload ∧
        a.allocate? size = .ok (some (g.header, a')) ∧ a'.Stable first stop cells' lists' ∧
        (usedCells cells').Perm (g :: usedCells cells) ∧ payload ≤ g.size ∧ g.size ≤ payload + 16 ∧
        Spares a.buffer a'.buffer first stop (usedCells cells) := by
  rcases allocate?_spec stable size with none | found
  · exact .inl none
  · obtain ⟨pre, x, post, payload, a', rfl, filed, request, room, -, run, after, touched⟩ := found
    have free : x.status ≠ .used := by simp [filed]
    have new := stable.settled.usedCells_carved free payload
    obtain ⟨-, -, granular, -⟩ := payloadFor?_eq_some request
    have regular := (stable.holds.placed (x := x) (by simp)).2.2.2.1
    refine .inr ⟨(x.kept payload).turn .used, payload, a', _, _, request, ?_, after, new,
      Cell.kept_size_ge room, Cell.kept_size_close regular granular, ?_⟩
    · rw [run, Cell.turn_header, Cell.kept_header]
    · have old : usedCells (pre ++ x :: post) = usedCells pre ++ usedCells post := by
        rw [usedCells_append, usedCells_free free]
      rw [old] at new ⊢
      refine stable.holds.spares_others after.holds touched (fun i mem => ?_) ?_
      · rcases mem with links | own
        · exact .inr (.inl (stable.holds.allLinks_metadata links))
        · by_cases inside : i < x.stop
          · exact .inl ⟨by have := own.1; omega, inside⟩
          · exact .inr (.inl (stable.holds.next_metadata ⟨Nat.not_lt.mp inside, own.2⟩))
      · exact List.subset_of_cons_subset new.symm.subset

theorem release_effect (stable : a.Stable first stop cells lists) (mem : x ∈ usedCells cells)
    (stomp : Bool) :
    ∃ a' cells' lists', a.release x.header stomp = .ok a' ∧ a'.Stable first stop cells' lists' ∧
      (usedCells cells).Perm (x :: usedCells cells') ∧
      Spares a.buffer a'.buffer first stop (usedCells cells') := by
  obtain ⟨memx, used⟩ := mem_usedCells.mp mem
  obtain ⟨pre, post, rfl⟩ := List.append_of_mem memx
  obtain ⟨a', run, after, touched, -⟩ := release_spec stable used stomp
  have new := usedCells_released stable.settled
  refine ⟨a', _, _, run, after, ?_, ?_⟩
  · rw [new]
    exact usedCells_perm used
  · rw [new]
    refine stable.holds.spares_others after.holds touched (Set.union_subset_union ?_ ?_)
      (fun u mem => new ▸ mem)
    · rintro i ⟨-, low, high⟩
      exact ⟨by omega, high⟩
    · exact releaseArea_metadata stable.holds after.holds

/-- A block that was given room for `payload` bytes, with as much of its contents as fits. -/
structure Fitted (b b' : Buffer) (x x' : Cell) (payload : Nat) : Prop where
  enough : payload ≤ x'.size
  close : x'.size ≤ payload + 16
  contents : ∀ k < min x.size x'.size,
    b'.byteAt (x'.header + 8 + k) = b.byteAt (x.header + 8 + k)

theorem inPlace_effect {a' : Arena} {pre post : List Cell} {x' : Cell} {area : Set Nat}
    {lists' : SizeClass → List Nat} {tiles : List Cell} {payload : Nat}
    (stable : a.Stable first stop (pre ++ x :: post) lists)
    (after : a'.Stable first stop (pre ++ x' :: tiles) lists') (used : x.status = .used)
    (used' : x'.status = .used) (header : x'.header = x.header)
    (others : usedCells tiles = usedCells post) (touched : OnlyTouches a.buffer a'.buffer area)
    (within : area ⊆ metadata (pre ++ x :: post) stop ∪ metadata (pre ++ x' :: tiles) stop)
    (enough : payload ≤ x'.size) (close : x'.size ≤ payload + 16) :
    (usedCells (pre ++ x' :: tiles)).Perm (x' :: (usedCells pre ++ usedCells post)) ∧
      Fitted a.buffer a'.buffer x x' payload ∧
      Spares a.buffer a'.buffer first stop (usedCells pre ++ usedCells post) := by
  have new : usedCells (pre ++ x' :: tiles) = usedCells pre ++ x' :: usedCells post := by
    rw [usedCells_append, usedCells_used used', others]
  have source : x ∈ usedCells (pre ++ x :: post) := mem_usedCells.mpr ⟨by simp, used⟩
  have target : x' ∈ usedCells (pre ++ x' :: tiles) := mem_usedCells.mpr ⟨by simp, used'⟩
  refine ⟨new ▸ List.perm_middle, ⟨enough, close, fun k small => ?_⟩, ?_⟩
  · have startx := x.stop_eq
    have startx' := x'.stop_eq
    rw [header]
    refine touched.byte _ fun hit => ?_
    rcases within hit with old | later
    · exact stable.holds.metadata_off source ⟨by omega, by omega⟩ old
    · exact after.holds.metadata_off target ⟨by omega, by omega⟩ later
  · refine stable.holds.spares_others after.holds touched (within.trans Set.subset_union_right) ?_
    rw [new]
    exact List.append_subset.mpr ⟨List.subset_append_left .., List.subset_append_of_subset_right _
      (List.subset_cons_self ..)⟩

theorem rewrite_effect {others : List Cell} {b : Buffer} (holds : a.Holds first stop cells lists)
    (perm : (usedCells cells).Perm (x :: others)) (touched : OnlyTouches a.buffer b x.payload) :
    Spares a.buffer b first stop others := by
  obtain ⟨memx, used⟩ := mem_usedCells.mp (perm.symm.subset (List.mem_cons_self ..))
  obtain ⟨pre, post, rfl⟩ := List.append_of_mem memx
  rw [usedCells_append, usedCells_used used] at perm
  have rest : (usedCells pre ++ usedCells post).Perm others := (List.perm_middle.symm.trans perm).cons_inv
  obtain ⟨start, end_, -, -, stopx⟩ := holds.placed memx
  refine .of_touches touched (Set.Ico_subset_Ico (by omega) (by omega)) fun u mem i inside hit => ?_
  refine holds.payload_off_block (rest.symm.subset mem) inside ⟨?_, hit.2⟩
  have low := hit.1
  omega

/-- A resize of the used block `x` for `size` bytes, `payload` when rounded, that ends with `x'`. -/
def ResizesTo (a : Arena) (first stop : Nat) (cells : List Cell) (x x' : Cell) (size payload : Nat)
    (stomp : Bool) : Prop :=
  ∃ how a' cells' lists' others,
    a.resize? x.header size stomp = .ok (some (⟨x'.header, how, x.size⟩, a')) ∧
    a'.Stable first stop cells' lists' ∧ (usedCells cells).Perm (x :: others) ∧
    (usedCells cells').Perm (x' :: others) ∧ Fitted a.buffer a'.buffer x x' payload ∧
    Spares a.buffer a'.buffer first stop others

/-- Whether the block `x` can have `payload` bytes in its place, when `post` follows it. -/
def Stays (x : Cell) (post : List Cell) (payload : Nat) : Prop :=
  payload ≤ x.size ∨ ∃ z ∈ post.head?, z.status = .filed ∧ payload ≤ x.size + z.size + 8

section Resize

variable {pre post : List Cell} {size payload : Nat}

theorem resize?_unchanged_effect (stable : a.Stable first stop (pre ++ x :: post) lists)
    (used : x.status = .used) (request : payloadFor? size = some payload)
    (enough : payload ≤ x.size) (tight : x.size < payload + 24) (stomp : Bool) :
    a.ResizesTo first stop (pre ++ x :: post) x x size payload stomp := by
  have same := usedCells_perm (l := pre) (m := post) used
  have regular := (stable.holds.placed (x := x) (by simp)).2.2.2.1.granular
  obtain ⟨-, -, granular, -⟩ := payloadFor?_eq_some request
  refine ⟨.unchanged, a, _, _, _, resize?_unchanged stable.holds request enough tight stomp, stable,
    same, same, ⟨enough, ?_, fun _ _ => rfl⟩, .refl _ _ _ _⟩
  simp only [alignment] at granular
  omega

theorem resize?_shrunk_effect (stable : a.Stable first stop (pre ++ x :: post) lists)
    (used : x.status = .used) (request : payloadFor? size = some payload)
    (cut : payload + 24 ≤ x.size) (stomp : Bool) :
    a.ResizesTo first stop (pre ++ x :: post) x (x.kept payload) size payload stomp := by
  have holds := stable.holds
  have own : Set.Ico x.header (x.header + 8) ⊆ metadata (pre ++ x :: post) stop :=
    header_metadata (by simp)
  obtain ⟨-, -, granular, -⟩ := payloadFor?_eq_some request
  obtain ⟨a', run, after, touched⟩ := resize?_shrunk stable used request cut stomp
  obtain ⟨perm, fitted, spares⟩ := inPlace_effect stable after used (by simp [used]) (by simp)
    (stable.settled.behind.usedCells_trimRest x payload) touched
    (trimArea_metadata holds.allLinks_metadata own holds.next_metadata after.holds)
    (Cell.kept_size_ge (by omega)) (Cell.kept_size_close (holds.placed (by simp)).2.2.2.1 granular)
  refine ⟨.shrunk, a', _, _, _, ?_, after, usedCells_perm used, perm, fitted, spares⟩
  rw [run, Cell.kept_header]

theorem resize?_grown_effect {z : Cell}
    (stable : a.Stable first stop (pre ++ x :: z :: post) lists) (used : x.status = .used)
    (filed : z.status = .filed) (request : payloadFor? size = some payload)
    (more : x.size < payload) (room : payload ≤ x.size + z.size + 8) (stomp : Bool) :
    a.ResizesTo first stop (pre ++ x :: z :: post) x ((x.join z).kept payload) size payload stomp := by
  have holds := stable.holds
  have own : Set.Ico x.header (x.header + 8) ⊆ metadata (pre ++ x :: z :: post) stop :=
    header_metadata (by simp)
  obtain ⟨-, -, granular, -⟩ := payloadFor?_eq_some request
  obtain ⟨a', run, after, touched⟩ := resize?_grown stable used filed request more room stomp
  have holds' : a.Holds first stop ((pre ++ [x]) ++ z :: post) lists := by simpa using holds
  have end_ := holds'.next_metadata
  rw [List.append_assoc, List.singleton_append] at end_
  obtain ⟨y, rest, follow, behind, -⟩ := holds.seam
  obtain ⟨rfl, -⟩ := List.cons.inj follow
  have links := holds.allLinks_metadata
  have drop := allLinks_dropBlock lists z
  have settled : Settled ((pre ++ [x]) ++ z :: post) := by simpa using stable.settled
  have others : usedCells (trimRest (x.join z) payload post) = usedCells (z :: post) := by
    rw [settled.behind.usedCells_trimRest, usedCells_free (by simp [filed])]
  have regular : (x.join z).Regular :=
    Cell.join_regular (holds.placed (by simp)).2.2.2.1 (holds.placed (by simp)).2.2.2.1
  obtain ⟨perm, fitted, spares⟩ := inPlace_effect stable after used (by simp [used]) (by simp) others
    touched
    (Set.union_subset (Set.union_subset (Set.union_subset
      (links.trans Set.subset_union_left)
      (Set.subset_union_of_subset_left ((Set.Ico_subset_Ico_left (by omega)).trans own) _))
      (end_.trans Set.subset_union_left))
      (trimArea_metadata (drop.trans links) own
        (by rw [Cell.join_stop behind]; exact end_) after.holds))
    (Cell.kept_size_ge (by simpa using room)) (Cell.kept_size_close regular granular)
  refine ⟨.grown, a', _, _, _, ?_, after, usedCells_perm used, perm, fitted, spares⟩
  rw [run, Cell.kept_header, Cell.join_header]

theorem resize?_moved_effect (stable : a.Stable first stop (pre ++ x :: post) lists)
    (used : x.status = .used)
    (stuck : ∀ payload, payloadFor? size = some payload → ¬ Stays x post payload) (stomp : Bool) :
    (a.allocate? size = .ok none ∧ a.resize? x.header size stomp = .ok none) ∨
      ∃ g payload a₁, payloadFor? size = some payload ∧ a.allocate? size = .ok (some (g.header, a₁)) ∧
        a.ResizesTo first stop (pre ++ x :: post) x g size payload stomp := by
  have old := usedCells_perm (l := pre) (m := post) used
  have elsewhere : ∀ payload, payloadFor? size = some payload → _ := fun payload request =>
    resize?_elsewhere stable.holds stable.settled.behind.filed request
      (Nat.not_le.mp fun enough => stuck payload request (.inl enough))
      (fun z head filed => Nat.not_le.mp fun room => stuck payload request (.inr ⟨z, head, filed, room⟩))
      stomp
  rcases allocate?_effect stable size with none | found
  · refine .inl ⟨none, ?_⟩
    cases request : payloadFor? size with
    | none => simp only [resize?, request, Checked.pure_eq]
    | some payload =>
      rw [elsewhere payload request, none]
      rfl
  · obtain ⟨g, payload, a₁, cells₁, lists₁, request, run₁, stable₁, perm₁, large, close, spares₁⟩ := found
    have target : g ∈ usedCells cells₁ := perm₁.symm.subset (List.mem_cons_self ..)
    have source : x ∈ usedCells cells₁ :=
      perm₁.symm.subset (List.mem_cons_of_mem g (old.symm.subset (List.mem_cons_self ..)))
    obtain ⟨b, run₂, holds₂, touched₂, copied⟩ := copy_spec stable₁.holds source target
    have stable₂ : Arena.Stable { a₁ with buffer := b } first stop cells₁ lists₁ :=
      ⟨holds₂, stable₁.settled⟩
    obtain ⟨a₃, cells₃, lists₃, run₃, stable₃, perm₃, spares₃⟩ :=
      release_effect stable₂ source stomp
    have perm : (usedCells cells₃).Perm (g :: (usedCells pre ++ usedCells post)) := by
      refine (List.Perm.trans perm₃.symm ?_).cons_inv (a := x)
      exact perm₁.trans ((old.cons g).trans (.swap x g _))
    have kept : usedCells pre ++ usedCells post ⊆ usedCells (pre ++ x :: post) :=
      List.subset_of_cons_subset old.symm.subset
    refine .inr ⟨g, payload, a₁, request, run₁, .moved, a₃, cells₃, lists₃, _, ?_, stable₃, old, perm,
      ⟨large, close, fun k small => ?_⟩, ?_⟩
    · simp only [elsewhere payload request, run₁, stable₁.holds.size_used target, run₂, run₃, Checked.ok_bind,
        Checked.pure_eq]
    · -- the copy is taken after the allocation and has to outlive the release
      have startx := x.stop_eq
      have startg := g.stop_eq
      have later := spares₃.payloads g (perm.symm.subset (List.mem_cons_self ..)) (g.header + 8 + k)
        ⟨by omega, by omega⟩
      have before := spares₁.payloads x (old.symm.subset (List.mem_cons_self ..)) (x.header + 8 + k)
        ⟨by omega, by omega⟩
      exact later.trans ((copied k small).trans before)
    · have written := rewrite_effect stable₁.holds perm₁ touched₂
      refine ((spares₁.mono kept).trans (written.mono kept)).trans (spares₃.mono ?_)
      exact List.subset_of_cons_subset perm.symm.subset

theorem resize?_stays (stable : a.Stable first stop (pre ++ x :: post) lists)
    (used : x.status = .used) (request : payloadFor? size = some payload)
    (stays : Stays x post payload) (stomp : Bool) :
    ∃ x', x'.header = x.header ∧ a.ResizesTo first stop (pre ++ x :: post) x x' size payload stomp := by
  by_cases enough : payload ≤ x.size
  · by_cases cut : payload + 24 ≤ x.size
    · exact ⟨_, Cell.kept_header, resize?_shrunk_effect stable used request cut stomp⟩
    · exact ⟨x, rfl, resize?_unchanged_effect stable used request enough (by omega) stomp⟩
  · obtain ⟨z, head, filed, room⟩ := stays.resolve_left enough
    obtain ⟨post, rfl⟩ := List.head?_eq_some_iff.mp head
    exact ⟨_, by simp, resize?_grown_effect stable used filed request (by omega) room stomp⟩

end Resize

theorem resize?_effect (stable : a.Stable first stop cells lists) (mem : x ∈ usedCells cells)
    (size : Nat) (stomp : Bool) :
    a.resize? x.header size stomp = .ok none ∨ ∃ x' payload, payloadFor? size = some payload ∧
      a.ResizesTo first stop cells x x' size payload stomp := by
  obtain ⟨memx, used⟩ := mem_usedCells.mp mem
  obtain ⟨pre, post, rfl⟩ := List.append_of_mem memx
  by_cases stays : ∃ payload, payloadFor? size = some payload ∧ Stays x post payload
  · obtain ⟨payload, request, stays⟩ := stays
    obtain ⟨x', -, resizes⟩ := resize?_stays stable used request stays stomp
    exact .inr ⟨x', payload, request, resizes⟩
  · rcases resize?_moved_effect stable used (fun payload request stay => stays ⟨payload, request, stay⟩)
      stomp with ⟨-, none⟩ | ⟨g, payload, a₁, request, -, resizes⟩
    · exact .inl none
    · exact .inr ⟨g, payload, request, resizes⟩

end Tlsf.Arena
