import Mathlib.Data.List.Pairwise
import Tlsf.Proofs.FreeLinks
import Tlsf.Proofs.IndexMirror

/-!
The free lists of an arena as sequences of blocks. `a.Files lists` says that the blocks of each
list are filed under their size class, linked both ways, and mirrored by the index. It speaks of
the listed blocks alone: what lies between them, and who owns it, does not enter. Putting a block
in front of its list and taking one out from any place each exchange one sequence for another; the
links that they write belong to that sequence, and all blocks are clear of each other, so that no
other list and no size word is disturbed.
-/

namespace Tlsf

open Dimensions Buffer

structure Block.Fileable (b : Buffer) (c : SizeClass) (h : Nat) : Prop where
  size : ∃ size, Block.size b h = .ok size ∧ SizeClass.ofSize size = c
  inside : c.Inside
  room : h + 16 ≤ b.size
  short : h < nullLink.toNat

theorem Block.size_relinked {b b' : Buffer} {l : List Nat} {h : Nat}
    (touched : OnlyTouches b b' (linkArea l)) (clear : ∀ k ∈ l, k ≠ h → Clear k h) :
    Block.size b' h = Block.size b h := by
  have word : b'.wordAt (h + 4) = b.wordAt (h + 4) := by
    refine touched.wordAt fun i low high => ?_
    rintro ⟨k, mem, start, stop⟩
    by_cases same : k = h
    · omega
    · have away : k + 12 ≤ h ∨ h + 12 ≤ k := clear k mem same
      omega
  simp only [Block.size, Block.word, readWord, touched.size, word]

namespace Arena

/-- The free lists of an arena: `lists c` has the headers that are filed under class `c`, the head
of the list first. -/
structure Files (a : Arena) (lists : SizeClass → List Nat) : Prop where
  mirror : a.index.Mirrors lists
  links : ∀ c, Linked a.buffer none (lists c) none
  fileable : ∀ c, ∀ h ∈ lists c, Block.Fileable a.buffer c h
  nodup : ∀ c, (lists c).Nodup
  clear : ∀ c d, ∀ h ∈ lists c, ∀ k ∈ lists d, h ≠ k → Block.Clear h k

/-- A block for the list of class `c` that is on no list and clear of the blocks that are. -/
structure Unfiled (a : Arena) (lists : SizeClass → List Nat) (c : SizeClass) (h : Nat) : Prop where
  fileable : Block.Fileable a.buffer c h
  clear : ∀ d, ∀ k ∈ lists d, Block.Clear h k

/-- From `a` to `a'`, the list of class `c` became `l`, by writing links of the blocks of `l`. -/
structure Relists (a a' : Arena) (lists : SizeClass → List Nat) (c : SizeClass) (l : List Nat) :
    Prop where
  files : a'.Files (Function.update lists c l)
  live : a'.live = a.live
  touched : OnlyTouches a.buffer a'.buffer (linkArea l)
  size : ∀ h, (∀ k ∈ l, k ≠ h → Block.Clear k h) → Block.size a'.buffer h = Block.size a.buffer h

theorem Relists.trans {a a' a'' : Arena} {lists : SizeClass → List Nat} {c : SizeClass}
    {l m : List Nat} (first : a.Relists a' lists c l)
    (second : a'.Relists a'' (Function.update lists c l) c m) (sub : l ⊆ m) :
    a.Relists a'' lists c m := by
  have files := second.files
  rw [Function.update_idem] at files
  refine ⟨files, second.live.trans first.live, ?_, fun h clear => ?_⟩
  · exact (first.touched.trans second.touched).mono
      (Set.union_subset (linkArea_mono sub) subset_rfl)
  · rw [second.size h clear, first.size h fun k mem => clear k (sub mem)]

section Edits

variable {a : Arena}

theorem edit_eq {change : Buffer → Checked Buffer} {b : Buffer}
    (changed : change a.buffer = .ok b) : a.edit change = .ok { a with buffer := b } := by
  obtain ⟨buffer, index, live⟩ := a
  simp only [edit, changed, Checked.ok_bind, Checked.pure_eq]

theorem editWith_eq {α : Type} {change : Buffer → Checked (α × Buffer)} {found : α}
    {b : Buffer} (changed : change a.buffer = .ok (found, b)) :
    a.editWith change = .ok (found, { a with buffer := b }) := by
  obtain ⟨buffer, index, live⟩ := a
  simp only [editWith, changed, Checked.ok_bind, Checked.pure_eq]

theorem removeFree_eq {c : SizeClass} {h : Nat} (fileable : Block.Fileable a.buffer c h) :
    a.removeFree h = a.unlink h c := by
  obtain ⟨size, read, rfl⟩ := fileable.size
  simp only [removeFree, read, Checked.ok_bind]

end Edits

namespace Files

variable {a a' : Arena} {lists : SizeClass → List Nat} {c : SizeClass} {h : Nat} {l m : List Nat}

theorem class_unique (files : a.Files lists) {d : SizeClass} (memc : h ∈ lists c)
    (memd : h ∈ lists d) : c = d := by
  obtain ⟨size, read, rfl⟩ := (files.fileable c h memc).size
  obtain ⟨size', read', rfl⟩ := (files.fileable d h memd).size
  rw [read] at read'
  cases read'
  rfl

theorem spaced (files : a.Files lists) (c : SizeClass) : Spaced a.buffer (lists c) :=
  ⟨fun h mem => (files.fileable c h mem).room,
    (files.nodup c).imp_of_mem fun memh memk => files.clear c c _ memh _ memk⟩

theorem spaced_cons (files : a.Files lists) (unfiled : a.Unfiled lists c h) :
    Spaced a.buffer (h :: lists c) :=
  ⟨List.forall_mem_cons.mpr ⟨unfiled.fileable.room, (files.spaced c).room⟩,
    List.pairwise_cons.mpr ⟨unfiled.clear c, (files.spaced c).apart⟩⟩

theorem clear_other (files : a.Files lists) {d : SizeClass} (other : d ≠ c)
    (near : h ∈ lists c ∨ a.Unfiled lists c h) {k : Nat} (mem : k ∈ lists d) : Block.Clear h k := by
  rcases near with listed | unfiled
  · refine files.clear c d h listed k mem ?_
    rintro rfl
    exact other (files.class_unique mem listed)
  · exact unfiled.clear d k mem

/-- One list is exchanged for another; `l` may have new blocks if these are on no list. -/
theorem relist (files : a.Files lists) (near : ∀ k ∈ l, k ∈ lists c ∨ a.Unfiled lists c k)
    (spaced : Spaced a.buffer l) (linked : Linked a'.buffer none l none)
    (mirror : a'.index.Mirrors (Function.update lists c l)) (live : a'.live = a.live)
    (touched : OnlyTouches a.buffer a'.buffer (linkArea l)) : a.Relists a' lists c l := by
  have own : ∀ h ∈ l, ∀ k ∈ l, h ≠ k → Block.Clear h k := fun h memh k memk =>
    spaced.apart.forall memh memk
  have sizes : ∀ h, (∀ k ∈ l, k ≠ h → Block.Clear k h) →
      Block.size a'.buffer h = Block.size a.buffer h := fun h => Block.size_relinked touched
  have kept : ∀ {d k}, Block.Fileable a.buffer d k → (∀ n ∈ l, n ≠ k → Block.Clear n k) →
      Block.Fileable a'.buffer d k := fun fileable clear =>
    ⟨(sizes _ clear).symm ▸ fileable.size, fileable.inside, touched.size ▸ fileable.room,
      fileable.short⟩
  have others : ∀ d ≠ c, ∀ k ∈ lists d, ∀ n ∈ l, Block.Clear n k := fun d other k memk n memn =>
    files.clear_other other (near n memn) memk
  refine ⟨⟨mirror, ?links, ?fileable, ?nodup, ?clear⟩, live, touched, sizes⟩
  case links =>
    refine (Function.forall_update_iff lists fun _ m => Linked a'.buffer none m none).mpr
      ⟨linked, fun d other => ?_⟩
    refine (files.links d).of_touches touched fun k memk i low high => ?_
    rintro ⟨n, memn, start, stop⟩
    have away : n + 12 ≤ k ∨ k + 12 ≤ n := others d other k memk n memn
    omega
  case fileable =>
    refine (Function.forall_update_iff lists fun d m => ∀ k ∈ m, Block.Fileable a'.buffer d k).mpr
      ⟨fun k memk => ?_, fun d other k memk => ?_⟩
    · have fileable : Block.Fileable a.buffer c k :=
        (near k memk).elim (files.fileable c k) Unfiled.fileable
      exact kept fileable fun n memn => own n memn k memk
    · exact kept (files.fileable d k memk) fun n memn _ => others d other k memk n memn
  case nodup =>
    exact (Function.forall_update_iff lists fun _ m => m.Nodup).mpr
      ⟨spaced.nodup, fun d _ => files.nodup d⟩
  case clear =>
    -- a pair of lists: both the new one, one of them, or neither
    refine (Function.forall_update_iff lists fun _ m => ∀ e, ∀ h ∈ m,
      ∀ k ∈ Function.update lists c l e, h ≠ k → Block.Clear h k).mpr ⟨?_, fun d other => ?_⟩
    · exact (Function.forall_update_iff lists fun _ m => ∀ h ∈ l, ∀ k ∈ m, h ≠ k → Block.Clear h k).mpr
        ⟨own, fun e other h memh k memk _ => others e other k memk h memh⟩
    · exact (Function.forall_update_iff lists fun _ m =>
        ∀ h ∈ lists d, ∀ k ∈ m, h ≠ k → Block.Clear h k).mpr
        ⟨fun h memh k memk _ => (others d other h memh k memk).symm, fun e _ => files.clear d e⟩

theorem insertFree_relists (files : a.Files lists) (unfiled : a.Unfiled lists c h) :
    ∃ a', a.insertFree h = .ok a' ∧ a.Relists a' lists c (h :: lists c) := by
  obtain ⟨size, read, classOf⟩ := unfiled.fileable.size
  have inside := unfiled.fileable.inside
  have spaced := files.spaced_cons unfiled
  obtain ⟨b, run, linked, touched⟩ := pushLinks_spec (files.links c) spaced
  obtain ⟨index, changed, mirror⟩ := files.mirror.setHead inside (h :: lists c)
  refine ⟨⟨b, index, a.live⟩, ?_, files.relist (fun k mem => ?_) spaced linked mirror rfl touched⟩
  · have edited : a.edit (fun b => do
        let b ← Block.setNextLink b h (lists c).head?
        let b ← Block.setPrevLink b h none
        setBackLink b (lists c).head? (some h)) = .ok ⟨b, a.index, a.live⟩ := edit_eq run
    rw [List.head?_cons] at changed
    simp only [insertFree, read, classOf, files.mirror.head_eq inside, Checked.ok_bind, edited,
      setHead, changed, Checked.pure_eq]
  · rcases List.mem_cons.mp mem with rfl | old
    · exact .inr unfiled
    · exact .inl old

theorem leaveHead (files : a.Files lists) (inside : c.Inside) (b : Buffer)
    (split : lists c = l ++ h :: m) :
    ∃ index, (do
        if (← a.index.head c) = some h then setHead ⟨b, a.index, a.live⟩ c m.head?
        else pure ⟨b, a.index, a.live⟩) = Except.ok ⟨b, index, a.live⟩ ∧
      index.Mirrors (Function.update lists c (l ++ m)) := by
  rw [files.mirror.head_eq inside, Checked.ok_bind, split]
  cases l with
  | nil =>
    obtain ⟨index, changed, mirror⟩ := files.mirror.setHead inside m
    refine ⟨index, ?_, mirror⟩
    simp only [List.nil_append, List.head?_cons, if_true, setHead, changed, Checked.ok_bind,
      Checked.pure_eq]
  | cons k l =>
    have other : k ≠ h := by
      have nodup := files.nodup c
      rw [split, List.cons_append, List.nodup_cons] at nodup
      rintro rfl
      exact nodup.1 (by simp)
    refine ⟨a.index, ?_, files.mirror.congr fun d => ?_⟩
    · simp only [List.cons_append, List.head?_cons, Option.some.injEq, other, if_false,
        Checked.pure_eq]
    · by_cases same : d = c
      · subst same
        rw [Function.update_self, split]
        rfl
      · rw [Function.update_of_ne same]

theorem unlink_relists (files : a.Files lists) (split : lists c = l ++ h :: m) :
    ∃ a', a.unlink h c = .ok a' ∧ a.Relists a' lists c (l ++ m) := by
  have fileable : ∀ k ∈ l ++ h :: m, Block.Fileable a.buffer c k := split ▸ files.fileable c
  have linked : Linked a.buffer none (l ++ h :: m) none := split ▸ files.links c
  have spaced : Spaced a.buffer (l ++ h :: m) := split ▸ files.spaced c
  have shorter : (l ++ m).Sublist (l ++ h :: m) := (List.sublist_cons_self h m).append_left l
  have own := fileable h (by simp)
  obtain ⟨-, forward, back, -⟩ := linked_append.mp linked
  rw [Option.or_none] at forward back
  have next := nextLink_eq own.room forward fun k mem =>
    (fileable k (by simp [List.mem_of_mem_head? mem])).short
  have prev := prevLink_eq own.room back fun k mem =>
    (fileable k (by simp [List.mem_of_mem_getLast? mem])).short
  obtain ⟨b, run, linked', touched⟩ := unlinkLinks_spec linked spaced
  obtain ⟨index, moved, mirror⟩ := files.leaveHead own.inside b split
  refine ⟨⟨b, index, a.live⟩, ?_, files.relist (fun k mem => ?_) (spaced.sublist shorter) linked'
    mirror rfl touched⟩
  · have edited : a.edit (fun b => do
        let b ← setBackLink b m.head? l.getLast?
        setForwardLink b l.getLast? m.head?) = .ok ⟨b, a.index, a.live⟩ := edit_eq run
    simp only [unlink, next, prev, Checked.ok_bind, edited]
    exact moved
  · rw [split]
    exact .inl (shorter.subset mem)

theorem removeFree_relists (files : a.Files lists) (split : lists c = l ++ h :: m) :
    ∃ a', a.removeFree h = .ok a' ∧ a.Relists a' lists c (l ++ m) := by
  have listed : h ∈ lists c := by simp [split]
  rw [removeFree_eq (files.fileable c h listed)]
  exact files.unlink_relists split

theorem unfiled_of_split (files : a.Files lists) (split : lists c = l ++ h :: m)
    (relists : a.Relists a' lists c (l ++ m)) : a'.Unfiled (Function.update lists c (l ++ m)) c h := by
  have listed : h ∈ lists c := by simp [split]
  have fileable := files.fileable c h listed
  have spaced : Spaced a.buffer (l ++ h :: m) := split ▸ files.spaced c
  have own : ∀ k ∈ l ++ m, Block.Clear h k := by
    intro k mem
    obtain ⟨-, behind, before⟩ := List.pairwise_append.mp spaced.apart
    rcases List.mem_append.mp mem with left | right
    · exact (before k left h (List.mem_cons_self ..)).symm
    · exact (List.pairwise_cons.mp behind).1 k right
  have size := relists.size h fun k mem _ => (own k mem).symm
  refine ⟨⟨size ▸ fileable.size, fileable.inside, relists.touched.size ▸ fileable.room,
    fileable.short⟩, fun d k mem => ?_⟩
  by_cases same : d = c
  · subst same
    rw [Function.update_self] at mem
    exact own k mem
  · rw [Function.update_of_ne same] at mem
    exact files.clear_other same (.inl listed) mem

theorem links_restored (files : a.Files lists) (files' : a'.Files lists)
    (touched : OnlyTouches a.buffer a'.buffer (linkArea (l ++ lists c))) :
    OnlyTouches a.buffer a'.buffer (linkArea l) := by
  refine ⟨touched.size, fun i out => ?_⟩
  by_cases listed : i ∈ linkArea (lists c)
  · exact (files.links c).bytes_unique (files'.links c) i listed
  · refine touched.byte i ?_
    rw [linkArea_append, Set.mem_union, not_or]
    exact ⟨out, listed⟩

theorem insert_remove (files : a.Files lists) (relists : a.Relists a' lists c (h :: lists c)) :
    ∃ a'', a'.removeFree h = .ok a'' ∧ a''.Files lists ∧ a''.index = a.index ∧
      a''.live = a.live ∧ OnlyTouches a.buffer a''.buffer (linkArea [h]) := by
  have front : Function.update lists c (h :: lists c) c = [] ++ h :: lists c :=
    Function.update_self ..
  obtain ⟨a'', run, back⟩ := relists.files.removeFree_relists front
  have restored : a''.Files lists := by
    have filed := back.files
    rwa [List.nil_append, Function.update_idem, Function.update_eq_self] at filed
  have touched : OnlyTouches a.buffer a''.buffer (linkArea ([h] ++ lists c)) := by
    refine (relists.touched.trans back.touched).mono (Set.union_subset subset_rfl ?_)
    exact linkArea_mono (List.subset_append_right [h] (lists c))
  exact ⟨a'', run, restored, restored.mirror.unique files.mirror, back.live.trans relists.live,
    files.links_restored restored touched⟩

theorem remove_insert (files : a.Files lists) (split : lists c = l ++ h :: m)
    (relists : a.Relists a' lists c (l ++ m)) :
    ∃ a'', a'.insertFree h = .ok a'' ∧ a.Relists a'' lists c (h :: (l ++ m)) ∧
      (l = [] → a'' = a) := by
  have unfiled := files.unfiled_of_split split relists
  obtain ⟨a'', run, back⟩ := relists.files.insertFree_relists unfiled
  rw [Function.update_self] at back
  have both := relists.trans back (List.subset_cons_self h (l ++ m))
  refine ⟨a'', run, both, ?_⟩
  rintro rfl
  have whole : h :: ([] ++ m) = lists c := split.symm
  have restored : a''.Files lists := by
    have filed := both.files
    rwa [whole, Function.update_eq_self] at filed
  have touched : OnlyTouches a.buffer a''.buffer (linkArea ([] ++ lists c)) := whole ▸ both.touched
  have links := files.links_restored restored touched
  rw [linkArea_nil] at links
  have index := restored.mirror.unique files.mirror
  have buffer := links.eq_of_none
  have live := both.live
  obtain ⟨_, _, _⟩ := a
  obtain ⟨_, _, _⟩ := a''
  cases index
  cases buffer
  cases live
  rfl

end Files

/-- The free lists behave as sequences: a block on no list goes to the front of the list of its
class, and a listed block leaves its list from any place in it. No other list changes, and neither
does the size of any block that is clear of that list. The two undo each other. -/
theorem Files.sequences {a : Arena} {lists : SizeClass → List Nat} (files : a.Files lists)
    (c : SizeClass) (h : Nat) :
    (a.Unfiled lists c h →
      ∃ a' a'', a.insertFree h = .ok a' ∧ a.Relists a' lists c (h :: lists c) ∧
        a'.removeFree h = .ok a'' ∧ a''.Files lists ∧ a''.index = a.index ∧
        a''.live = a.live ∧ OnlyTouches a.buffer a''.buffer (linkArea [h])) ∧
    (∀ l m, lists c = l ++ h :: m →
      ∃ a' a'', a.removeFree h = .ok a' ∧ a.Relists a' lists c (l ++ m) ∧
        a'.insertFree h = .ok a'' ∧ a.Relists a'' lists c (h :: (l ++ m)) ∧
        (l = [] → a'' = a)) := by
  constructor
  · intro unfiled
    obtain ⟨a', inserted, relists⟩ := files.insertFree_relists unfiled
    obtain ⟨a'', removed, restored⟩ := files.insert_remove relists
    exact ⟨a', a'', inserted, relists, removed, restored⟩
  · intro l m split
    obtain ⟨a', removed, relists⟩ := files.removeFree_relists split
    obtain ⟨a'', inserted, restored⟩ := files.remove_insert split relists
    exact ⟨a', a'', removed, relists, inserted, restored⟩

/-! An arena with three blocks on one list, one block on the next, and a free block at 72 that is
not filed yet. -/

def sampleLists : SizeClass → List Nat :=
  Function.update (Function.update (fun _ => []) ⟨0, 2⟩ [0, 24, 48]) ⟨0, 3⟩ [96]

def sample : Arena where
  buffer := Buffer.filled 128 0
    |>.setWord 4 17 |>.setWord 8 24 |>.setWord 12 Block.nullLink
    |>.setWord 28 17 |>.setWord 32 48 |>.setWord 36 0
    |>.setWord 52 17 |>.setWord 56 Block.nullLink |>.setWord 60 24
    |>.setWord 76 17
    |>.setWord 100 25 |>.setWord 104 Block.nullLink |>.setWord 108 Block.nullLink
  index := {
    rows := FreeIndex.bit 0
    slots := FreeIndex.empty.slots.setIfInBounds 0 (FreeIndex.bit 2 ||| FreeIndex.bit 3)
    heads := FreeIndex.empty.heads.setIfInBounds 0
      (((Vector.replicate 32 none).setIfInBounds 2 (some 0)).setIfInBounds 3 (some 96)) }
  live := ∅

theorem sample_mirrors : sample.index.Mirrors sampleLists := by
  obtain ⟨i, first, mirror⟩ :=
    FreeIndex.mirrors_empty.setHead (c := ⟨0, 2⟩) ⟨by decide, by decide⟩ [0, 24, 48]
  obtain ⟨j, second, mirror'⟩ := mirror.setHead (c := ⟨0, 3⟩) ⟨by decide, by decide⟩ [96]
  have both : (do
      let i ← FreeIndex.empty.setHead ⟨0, 2⟩ (some 0)
      i.setHead ⟨0, 3⟩ (some 96)) = .ok sample.index := rfl
  rw [List.head?_cons] at first second
  rw [first, Checked.ok_bind, second] at both
  cases both
  exact mirror'

theorem sample_fileable : (∀ h ∈ [0, 24, 48, 72], Block.Fileable sample.buffer ⟨0, 2⟩ h) ∧
    ∀ h ∈ [96], Block.Fileable sample.buffer ⟨0, 3⟩ h := by
  have first : ∀ h ∈ [0, 24, 48, 72], Block.size sample.buffer h = .ok 16 ∧
      h + 16 ≤ sample.buffer.size ∧ h < Block.nullLink.toNat := by decide +kernel
  have second : ∀ h ∈ [96], Block.size sample.buffer h = .ok 24 ∧
      h + 16 ≤ sample.buffer.size ∧ h < Block.nullLink.toNat := by decide +kernel
  constructor
  · intro h mem
    obtain ⟨size, room, short⟩ := first h mem
    exact ⟨⟨16, size, rfl⟩, ⟨by decide, by decide⟩, room, short⟩
  · intro h mem
    obtain ⟨size, room, short⟩ := second h mem
    exact ⟨⟨24, size, rfl⟩, ⟨by decide, by decide⟩, room, short⟩

theorem sampleLists_cases (c : SizeClass) : (c = ⟨0, 2⟩ ∧ sampleLists c = [0, 24, 48]) ∨
    (c = ⟨0, 3⟩ ∧ sampleLists c = [96]) ∨ sampleLists c = [] := by
  by_cases second : c = ⟨0, 3⟩
  · subst second
    exact .inr (.inl ⟨rfl, rfl⟩)
  · by_cases first : c = ⟨0, 2⟩
    · subst first
      exact .inl ⟨rfl, rfl⟩
    · refine .inr (.inr ?_)
      rw [sampleLists, Function.update_of_ne second, Function.update_of_ne first]

theorem sampleLists_subset (c : SizeClass) : sampleLists c ⊆ [0, 24, 48, 96] := by
  obtain ⟨-, list⟩ | ⟨-, list⟩ | list := sampleLists_cases c
  all_goals
    rw [list]
    decide

theorem sample_files : sample.Files sampleLists := by
  have clear : ∀ h ∈ [0, 24, 48, 96], ∀ k ∈ [0, 24, 48, 96], h ≠ k → Block.Clear h k := by decide
  refine ⟨sample_mirrors, fun c => ?links, fun c => ?fileable, fun c => ?nodup, fun c d h memh k memk =>
    clear h (sampleLists_subset c memh) k (sampleLists_subset d memk)⟩
  case links =>
    obtain ⟨-, list⟩ | ⟨-, list⟩ | list := sampleLists_cases c
    all_goals
      rw [list]
      decide +kernel
  case fileable =>
    obtain ⟨rfl, list⟩ | ⟨rfl, list⟩ | list := sampleLists_cases c
    · rw [list]
      exact fun h mem => sample_fileable.1 h (List.mem_append_left [72] mem)
    · rw [list]
      exact sample_fileable.2
    · rw [list]
      exact fun h mem => nomatch mem
  case nodup =>
    obtain ⟨-, list⟩ | ⟨-, list⟩ | list := sampleLists_cases c
    all_goals
      rw [list]
      decide

theorem Files.sequences_sample : sample.Files sampleLists ∧
    sample.Unfiled sampleLists ⟨0, 2⟩ 72 ∧
    (∃ a' a'', sample.insertFree 72 = .ok a' ∧ sample.Relists a' sampleLists ⟨0, 2⟩ [72, 0, 24, 48] ∧
      a'.removeFree 72 = .ok a'' ∧ a''.Files sampleLists ∧ a''.index = sample.index ∧
      OnlyTouches sample.buffer a''.buffer (linkArea [72])) ∧
    ∃ a' a'', sample.removeFree 24 = .ok a' ∧ sample.Relists a' sampleLists ⟨0, 2⟩ [0, 48] ∧
      a'.insertFree 24 = .ok a'' ∧ sample.Relists a'' sampleLists ⟨0, 2⟩ [24, 0, 48] := by
  have listed : ∀ k ∈ [0, 24, 48, 96], Block.Clear 72 k := by decide
  have clear : ∀ c, ∀ k ∈ sampleLists c, Block.Clear 72 k := fun c k mem =>
    listed k (sampleLists_subset c mem)
  have unfiled : sample.Unfiled sampleLists ⟨0, 2⟩ 72 := ⟨sample_fileable.1 72 (by simp), clear⟩
  have inserts := (Files.sequences sample_files ⟨0, 2⟩ 72).1 unfiled
  have removes := (Files.sequences sample_files ⟨0, 2⟩ 24).2 [0] [48] rfl
  obtain ⟨a', a'', inserted, relists, removed, files, index, -, touched⟩ := inserts
  obtain ⟨b', b'', removed', relists', inserted', relists'', -⟩ := removes
  exact ⟨sample_files, unfiled, ⟨a', a'', inserted, relists, removed, files, index, touched⟩,
    b', b'', removed', relists', inserted', relists''⟩

end Arena

end Tlsf
