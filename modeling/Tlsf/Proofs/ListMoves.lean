import Tlsf.Proofs.ArenaView

/-!
Blocks on and off the free lists. Each of `unlink`, `removeFree`, `insertFree`
and `takeFree?` turns one cell from filed to loose or back, changes the list of
its class and no other, and touches link words alone.
-/

namespace Tlsf.Arena

open Dimensions Buffer

variable {a : Arena} {first stop : Nat} {pre post : List Cell} {x : Cell}
  {lists : SizeClass → List Nat}

theorem Holds.listed_turn (holds : a.Holds first stop (pre ++ x :: post) lists) {st : Status}
    (c : SizeClass) (h : Nat) :
    FiledAt (pre ++ x.turn st :: post) c h ↔
      (h = x.header ∧ st = .filed ∧ SizeClass.ofSize x.size = c) ∨ (h ≠ x.header ∧ h ∈ lists c) := by
  have others : FiledAt (pre ++ post) c h ↔ h ≠ x.header ∧ h ∈ lists c := by
    rw [holds.listed c h]
    constructor
    · rintro ⟨z, mem, rfl, filed⟩
      refine ⟨holds.tiles.ne_header z mem, z, ?_, rfl, filed⟩
      rcases List.mem_append.mp mem with left | right
      · exact List.mem_append_left _ left
      · exact List.mem_append_right _ (List.mem_cons_of_mem x right)
    · rintro ⟨other, z, mem, rfl, filed⟩
      refine ⟨z, ?_, rfl, filed⟩
      rcases List.mem_append.mp mem with left | right
      · exact List.mem_append_left _ left
      · rcases List.mem_cons.mp right with rfl | right
        · exact absurd rfl other
        · exact List.mem_append_right _ right
  rw [← others, filedAt_append, filedAt_append, filedAt_cons]
  simp only [Cell.turn_header, Cell.turn_status, Cell.turn_size, eq_comm (a := h)]
  tauto

theorem class_inside (holds : a.Holds first stop (pre ++ x :: post) lists) :
    (SizeClass.ofSize x.size).Inside := (holds.fileable (x := x) (by simp)).inside

theorem Holds.class_of_listed (holds : a.Holds first stop (pre ++ x :: post) lists) {c : SizeClass}
    (mem : x.header ∈ lists c) : x.status = .filed ∧ SizeClass.ofSize x.size = c := by
  obtain ⟨z, memz, header, filed, cls⟩ := (holds.listed c _).mp mem
  obtain rfl := holds.tiles.eq_of_header_eq memz (by simp) header
  exact ⟨filed, cls⟩

section Relist

variable {a' : Arena} {l : List Nat} {st : Status}

theorem Holds.tags_relist (holds : a.Holds first stop (pre ++ x :: post) lists)
    (free : x.status ≠ .used) (free' : st ≠ .used)
    (touched : OnlyTouches a.buffer a'.buffer (linkArea l))
    (near : ∀ h ∈ l, h = x.header ∨ h ∈ lists (SizeClass.ofSize x.size)) :
    Tags a'.buffer none (pre ++ x.turn st :: post ++ [.sentinel stop]) := by
  have memx : x ∈ pre ++ x :: post := by simp
  have size := (holds.placed memx).2.2.2.1.minimum
  have tags : Tags a'.buffer none (pre ++ x :: post ++ [.sentinel stop]) := by
    refine holds.tags.of_touches touched fun z mem i low high inside => ?_
    obtain ⟨h, memh, start, end_⟩ := inside
    rcases near h memh with rfl | listed
    · have away := holds.payload_apart memx mem
      rw [x.stop_eq] at away
      omega
    · exact holds.header_off_links mem low high ⟨_, h, listed, start, end_⟩
  rw [List.append_assoc, List.cons_append] at tags ⊢
  refine tags.turn ?_
  rw [(Cell.isFree_iff x).mpr free, (Cell.isFree_iff _).mpr free']

theorem Holds.relist (holds : a.Holds first stop (pre ++ x :: post) lists)
    (free : x.status ≠ .used) (free' : st ≠ .used)
    (members : ∀ h, h ∈ l ↔ (h = x.header ∧ st = .filed) ∨
      (h ≠ x.header ∧ h ∈ lists (SizeClass.ofSize x.size)))
    (relists : a.Relists a' lists (SizeClass.ofSize x.size) l) :
    a'.Holds first stop (pre ++ x.turn st :: post)
      (Function.update lists (SizeClass.ofSize x.size) l) := by
  have files := relists.files
  have near : ∀ h ∈ l, h = x.header ∨ h ∈ lists (SizeClass.ofSize x.size) := fun h mem =>
    ((members h).mp mem).imp And.left And.right
  refine ⟨holds.aligned, holds.low, holds.span, holds.tiles.turn _,
    holds.tags_relist free free' relists.touched near, files.links, files.mirror, fun c h => ?_,
    files.nodup, fun h => ?_⟩
  · rw [holds.listed_turn]
    by_cases same : c = SizeClass.ofSize x.size
    · subst same
      rw [Function.update_self, members h]
      simp only [and_true]
    · rw [Function.update_of_ne same]
      have other : h ∈ lists c → h ≠ x.header := fun mem e =>
        same (holds.class_of_listed (e ▸ mem)).2.symm
      simp only [Ne.symm same, and_false, false_or]
      exact ⟨fun mem => ⟨other mem, mem⟩, And.right⟩
  · rw [relists.live, holds.live h]
    simp [free, free']

end Relist

theorem unlink_spec (holds : a.Holds first stop (pre ++ x :: post) lists) (filed : x.status = .filed) :
    ∃ a', a.unlink x.header (SizeClass.ofSize x.size) = .ok a' ∧
      a'.Holds first stop (pre ++ x.turn .loose :: post) (dropBlock lists x) ∧
      OnlyTouches a.buffer a'.buffer (allLinks lists) := by
  have listed : x.header ∈ lists (SizeClass.ofSize x.size) :=
    (holds.listed _ _).mpr ⟨x, by simp, rfl, filed, rfl⟩
  have nodup := holds.nodup (SizeClass.ofSize x.size)
  obtain ⟨l, m, fresh, split, rest⟩ := List.exists_erase_eq listed
  obtain ⟨a', run, relists⟩ := holds.files.unlink_relists split
  rw [← rest] at relists
  refine ⟨a', run, holds.relist (by simp [filed]) (by simp) (fun h => ?_) relists,
    relists.touched.mono fun i mem => ⟨_, linkArea_mono List.erase_subset mem⟩⟩
  rw [nodup.mem_erase_iff]
  simp

theorem removeFree_spec (holds : a.Holds first stop (pre ++ x :: post) lists)
    (filed : x.status = .filed) :
    ∃ a', a.removeFree x.header = .ok a' ∧
      a'.Holds first stop (pre ++ x.turn .loose :: post) (dropBlock lists x) ∧
      OnlyTouches a.buffer a'.buffer (allLinks lists) := by
  rw [removeFree_eq (holds.fileable (by simp))]
  exact unlink_spec holds filed

theorem insertFree_spec (holds : a.Holds first stop (pre ++ x :: post) lists)
    (loose : x.status = .loose) :
    ∃ a', a.insertFree x.header = .ok a' ∧
      a'.Holds first stop (pre ++ x.turn .filed :: post) (pushBlock lists x) ∧
      OnlyTouches a.buffer a'.buffer
        (allLinks lists ∪ Set.Ico (x.header + 8) (x.header + 16)) := by
  have memx : x ∈ pre ++ x :: post := by simp
  have unlisted : ∀ c, ∀ h ∈ lists c, h ≠ x.header := by
    rintro c h mem rfl
    have filed := (holds.class_of_listed mem).1
    rw [loose] at filed
    cases filed
  have unfiled : a.Unfiled lists (SizeClass.ofSize x.size) x.header := by
    refine ⟨holds.fileable memx, fun d k mem => ?_⟩
    have other := unlisted d k mem
    obtain ⟨z, memz, rfl, -⟩ := (holds.listed d k).mp mem
    exact holds.clear memx memz other.symm
  obtain ⟨a', run, relists⟩ := holds.files.insertFree_relists unfiled
  refine ⟨a', run, holds.relist (by simp [loose]) (by simp) (fun h => ?_) relists,
    relists.touched.mono ?_⟩
  · have other := unlisted (SizeClass.ofSize x.size) h
    rw [List.mem_cons]
    simp only [and_true]
    tauto
  · rintro i ⟨k, mem, inside⟩
    rcases List.mem_cons.mp mem with rfl | old
    · exact .inr inside
    · exact .inl ⟨_, k, old, inside⟩

theorem takeFree?_spec {cells : List Cell} (holds : a.Holds first stop cells lists) {size : Nat}
    (bound : size < payloadLimit) (granular : size % 8 = 0) :
    a.takeFree? size = .ok none ∨
      ∃ pre x post a', cells = pre ++ x :: post ∧ x.status = .filed ∧ size ≤ x.size ∧
        (lists (SizeClass.ofSize x.size)).head? = some x.header ∧
        a.takeFree? size = .ok (some (x.header, a')) ∧
        a'.Holds first stop (pre ++ x.turn .loose :: post) (dropBlock lists x) ∧
        OnlyTouches a.buffer a'.buffer (allLinks lists) := by
  obtain ⟨c, classOf, slot, holdsSize⟩ := SizeClass.roundUp_eq bound granular
  cases search : a.index.firstFrom? c with
  | none =>
    refine .inl ?_
    simp only [takeFree?, classOf, search, Checked.ok_bind, Checked.pure_eq]
  | some d =>
    obtain ⟨above, inside, found⟩ := holds.mirror.firstFrom?_some search
    obtain ⟨h, head⟩ := Option.isSome_iff_exists.mp found
    obtain ⟨x, memx, rfl, filed, rfl⟩ := (holds.listed d h).mp (List.mem_of_head? head)
    obtain ⟨pre, post, rfl⟩ := List.append_of_mem memx
    have large : size ≤ x.size :=
      Nat.le_trans holdsSize ((SizeClass.le_ofSize_iff slot x.size).mp above)
    have read := holds.size_eq memx
    obtain ⟨a', run, after⟩ := unlink_spec holds filed
    refine .inr ⟨pre, x, post, a', rfl, filed, large, head, ?_, after⟩
    simp only [takeFree?, classOf, search, holds.mirror.head_eq inside, head, read,
      Checked.require_eq_ok large, run, Checked.ok_bind, Checked.pure_eq]

end Tlsf.Arena
