import Tlsf.Arena
import Tlsf.Proofs.Footprint

/-!
Free lists as lists of headers. `Linked b prev l next` says that the blocks of
`l` are linked both ways in the buffer, the first one back to `prev` and the
last one forward to `next`. The edits of a list change the two ends of such
segments: `setBackLink` the front end of one and `setForwardLink` the far end.
-/

namespace Tlsf

open Dimensions Buffer

def linkArea (l : List Nat) : Set Nat := {i | ∃ h ∈ l, h + 8 ≤ i ∧ i < h + 16}

theorem linkArea_mono {l m : List Nat} (sub : l ⊆ m) : linkArea l ⊆ linkArea m :=
  fun _ ⟨h, mem, inside⟩ => ⟨h, sub mem, inside⟩

theorem linkArea_nil : linkArea [] = ∅ := by
  ext i
  simp [linkArea]

theorem linkArea_append (l m : List Nat) : linkArea (l ++ m) = linkArea l ∪ linkArea m := by
  ext i
  simp [linkArea, or_and_right, exists_or]

def Linked (b : Buffer) : Option Nat → List Nat → Option Nat → Prop
  | _, [], _ => True
  | prev, h :: rest, next =>
    b.wordAt (h + 8) = Block.encodeLink (rest.head?.or next) ∧
    b.wordAt (h + 12) = Block.encodeLink prev ∧ Linked b (some h) rest next

instance decidableLinked (b : Buffer) : (back : Option Nat) → (l : List Nat) → (next : Option Nat) →
    Decidable (Linked b back l next)
  | _, [], _ => .isTrue trivial
  | _, h :: rest, next =>
    have := decidableLinked b (some h) rest next
    inferInstanceAs (Decidable (_ ∧ _ ∧ Linked b (some h) rest next))

theorem linked_append {b : Buffer} {prev next : Option Nat} {l m : List Nat} :
    Linked b prev (l ++ m) next ↔
      Linked b prev l (m.head?.or next) ∧ Linked b (l.getLast?.or prev) m next := by
  induction l generalizing prev with
  | nil => simp [Linked]
  | cons h rest ih =>
    have last : (h :: rest).getLast?.or prev = rest.getLast?.or (some h) := by
      rw [List.getLast?_cons]
      cases rest.getLast? <;> rfl
    have first : (rest ++ m).head?.or next = rest.head?.or (m.head?.or next) := by
      rw [List.head?_append, Option.or_assoc]
    simp only [List.cons_append, Linked, ih, last, first, and_assoc]

theorem Linked.of_touches {b b' : Buffer} {area : Set Nat} {prev next : Option Nat} {l : List Nat}
    (linked : Linked b prev l next) (t : OnlyTouches b b' area)
    (out : ∀ h ∈ l, ∀ i, h + 8 ≤ i → i < h + 16 → i ∉ area) : Linked b' prev l next := by
  induction l generalizing prev with
  | nil => trivial
  | cons h rest ih =>
    rw [List.forall_mem_cons] at out
    refine ⟨?_, ?_, ih linked.2.2 out.2⟩
    · rw [t.wordAt fun i low high => out.1 i low (by omega)]
      exact linked.1
    · rw [t.wordAt fun i low high => out.1 i (by omega) (by omega)]
      exact linked.2.1

theorem Linked.bytes_unique {b b' : Buffer} {prev next : Option Nat} {l : List Nat}
    (linked : Linked b prev l next) (linked' : Linked b' prev l next) :
    ∀ i ∈ linkArea l, b'.byteAt i = b.byteAt i := by
  induction l generalizing prev with
  | nil =>
    rintro i ⟨h, mem, -⟩
    cases mem
  | cons h rest ih =>
    rintro i ⟨k, mem, low, high⟩
    rcases List.mem_cons.mp mem with rfl | later
    · by_cases forward : i < k + 12
      · exact byteAt_of_wordAt (linked'.1.trans linked.1.symm) i ⟨low, by omega⟩
      · exact byteAt_of_wordAt (linked'.2.1.trans linked.2.1.symm) i ⟨by omega, by omega⟩
    · exact ih linked.2.2 linked'.2.2 i ⟨k, later, low, high⟩

section Reads

variable {b : Buffer} {h : Nat} {link : Option Nat}

theorem nextLink_eq (inside : h + 16 ≤ b.size) (word : b.wordAt (h + 8) = Block.encodeLink link)
    (fits : ∀ o ∈ link, o < Block.nullLink.toNat) : Block.nextLink b h = .ok link := by
  simp only [Block.nextLink, headerSize, readWord_eq (show h + 8 + 4 ≤ b.size by omega),
    Checked.ok_bind, Checked.pure_eq, word, Block.decodeLink_encodeLink fits]

theorem prevLink_eq (inside : h + 16 ≤ b.size) (word : b.wordAt (h + 12) = Block.encodeLink link)
    (fits : ∀ o ∈ link, o < Block.nullLink.toNat) : Block.prevLink b h = .ok link := by
  simp only [Block.prevLink, headerSize, Nat.add_assoc,
    readWord_eq (show h + (8 + 4) + 4 ≤ b.size by omega), Checked.ok_bind, Checked.pure_eq]
  rw [word, Block.decodeLink_encodeLink fits]

theorem setNextLink_eq (inside : h + 16 ≤ b.size) :
    Block.setNextLink b h link = .ok (b.setWord (h + 8) (Block.encodeLink link)) :=
  writeWord_eq _ (by simp only [headerSize]; omega)

theorem setPrevLink_eq (inside : h + 16 ≤ b.size) :
    Block.setPrevLink b h link = .ok (b.setWord (h + 12) (Block.encodeLink link)) :=
  writeWord_eq _ (by simp only [headerSize]; omega)

end Reads

/-- The size word and the links of one block do not meet those of the other. -/
def Block.Clear (h k : Nat) : Prop := h + 12 ≤ k ∨ k + 12 ≤ h

instance (h k : Nat) : Decidable (Block.Clear h k) := inferInstanceAs (Decidable (_ ∨ _))

theorem Block.Clear.symm {h k : Nat} (clear : Block.Clear h k) : Block.Clear k h := Or.symm clear

instance : Std.Symm Block.Clear := ⟨fun _ _ => Block.Clear.symm⟩

theorem Block.Clear.ne {h k : Nat} (clear : Block.Clear h k) : h ≠ k := by
  rintro rfl
  rcases clear with below | below <;> omega

structure Spaced (b : Buffer) (l : List Nat) : Prop where
  room : ∀ h ∈ l, h + 16 ≤ b.size
  apart : l.Pairwise Block.Clear

theorem Spaced.of_size {b b' : Buffer} {l : List Nat} (s : Spaced b l) (size : b'.size = b.size) :
    Spaced b' l := ⟨fun h mem => size ▸ s.room h mem, s.apart⟩

theorem Spaced.sublist {b : Buffer} {l m : List Nat} (s : Spaced b m) (sub : l.Sublist m) :
    Spaced b l := ⟨fun h mem => s.room h (sub.subset mem), s.apart.sublist sub⟩

theorem Spaced.nodup {b : Buffer} {l : List Nat} (s : Spaced b l) : l.Nodup :=
  s.apart.imp Block.Clear.ne

theorem setBackLink_spec {b : Buffer} {m : List Nat} {prev next : Option Nat}
    (linked : Linked b prev m next) (s : Spaced b m) (prev' : Option Nat) :
    ∃ b', Arena.setBackLink b m.head? prev' = .ok b' ∧ Linked b' prev' m next ∧
      OnlyTouches b b' (linkArea m.head?.toList) := by
  cases m with
  | nil => exact ⟨b, rfl, trivial, .refl b _⟩
  | cons n rest =>
    have inside := s.room n (List.mem_cons_self ..)
    have touched := OnlyTouches.setWord b (n + 12) (Block.encodeLink prev')
    refine ⟨_, setPrevLink_eq inside, ⟨?_, wordAt_setWord_self _ _ _ (by omega), ?_⟩, ?_⟩
    · rw [wordAt_setWord_ne _ _ _ _ (by omega)]
      exact linked.1
    · refine linked.2.2.of_touches touched fun h mem i low high => ?_
      have away : n + 12 ≤ h ∨ h + 12 ≤ n := (List.pairwise_cons.mp s.apart).1 h mem
      rw [Set.mem_Ico]
      omega
    · refine touched.mono fun i inside => ⟨n, List.mem_cons_self .., ?_⟩
      rw [Set.mem_Ico] at inside
      omega

theorem setForwardLink_spec {b : Buffer} {l : List Nat} {prev next : Option Nat}
    (linked : Linked b prev l next) (s : Spaced b l) (next' : Option Nat) :
    ∃ b', Arena.setForwardLink b l.getLast? next' = .ok b' ∧ Linked b' prev l next' ∧
      OnlyTouches b b' (linkArea l.getLast?.toList) := by
  rcases List.eq_nil_or_concat l with rfl | ⟨init, p, rfl⟩
  · exact ⟨b, rfl, trivial, .refl b _⟩
  · rw [List.concat_eq_append] at *
    have last : (init ++ [p]).getLast? = some p := by simp
    have memp : p ∈ init ++ [p] := by simp
    have inside := s.room p memp
    have touched := OnlyTouches.setWord b (p + 8) (Block.encodeLink next')
    rw [linked_append] at linked
    rw [last]
    refine ⟨_, setNextLink_eq inside, linked_append.mpr ⟨?_, ?_, ?_, trivial⟩, ?_⟩
    · refine linked.1.of_touches touched fun h mem i low high => ?_
      have away : h + 12 ≤ p ∨ p + 12 ≤ h :=
        (List.pairwise_append.mp s.apart).2.2 h mem p (List.mem_singleton_self p)
      rw [Set.mem_Ico]
      omega
    · exact wordAt_setWord_self _ _ _ (by omega)
    · rw [wordAt_setWord_ne _ _ _ _ (by omega)]
      exact linked.2.2.1
    · refine touched.mono fun i inside => ⟨p, by simp, ?_⟩
      rw [Set.mem_Ico] at inside
      omega

theorem unlinkLinks_spec {b : Buffer} {l m : List Nat} {h : Nat}
    (linked : Linked b none (l ++ h :: m) none) (s : Spaced b (l ++ h :: m)) :
    ∃ b', (do
        let b ← Arena.setBackLink b m.head? l.getLast?
        Arena.setForwardLink b l.getLast? m.head?) = .ok b' ∧
      Linked b' none (l ++ m) none ∧ OnlyTouches b b' (linkArea (l ++ m)) := by
  obtain ⟨before, words⟩ := linked_append.mp linked
  have spacedm : Spaced b m :=
    s.sublist ((List.sublist_cons_self h m).trans (List.sublist_append_right l _))
  have spacedl : Spaced b l := s.sublist (List.sublist_append_left l _)
  -- the links of `l` and of `m` never overlap
  have cross : ∀ k ∈ l, ∀ n ∈ m, k + 12 ≤ n ∨ n + 12 ≤ k := fun k memk n memn =>
    (List.pairwise_append.mp s.apart).2.2 k memk n (List.mem_cons_of_mem h memn)
  obtain ⟨b₁, run₁, behind₁, touched₁⟩ := setBackLink_spec words.2.2 spacedm l.getLast?
  have before₁ : Linked b₁ none l (some h) := by
    refine before.of_touches touched₁ fun k memk i low high => ?_
    rintro ⟨n, memn, inside⟩
    have away := cross k memk n (List.mem_of_mem_head? (by simpa using memn))
    omega
  obtain ⟨b₂, run₂, before₂, touched₂⟩ :=
    setForwardLink_spec before₁ (spacedl.of_size touched₁.size) m.head?
  have behind₂ : Linked b₂ l.getLast? m none := by
    refine behind₁.of_touches touched₂ fun n memn i low high => ?_
    rintro ⟨k, memk, inside⟩
    have away := cross k (List.mem_of_mem_getLast? (by simpa using memk)) n memn
    omega
  refine ⟨b₂, ?_, linked_append.mpr ⟨by simpa using before₂, by simpa using behind₂⟩, ?_⟩
  · rw [run₁, Checked.ok_bind, run₂]
  · refine (touched₁.trans touched₂).mono (Set.union_subset ?_ ?_)
    · exact linkArea_mono fun n mem =>
        List.mem_append_right l (List.mem_of_mem_head? (by simpa using mem))
    · exact linkArea_mono fun k mem =>
        List.mem_append_left m (List.mem_of_mem_getLast? (by simpa using mem))

theorem pushLinks_spec {b : Buffer} {m : List Nat} {h : Nat} (linked : Linked b none m none)
    (s : Spaced b (h :: m)) :
    ∃ b', (do
        let b ← Block.setNextLink b h m.head?
        let b ← Block.setPrevLink b h none
        Arena.setBackLink b m.head? (some h)) = .ok b' ∧
      Linked b' none (h :: m) none ∧ OnlyTouches b b' (linkArea (h :: m)) := by
  have inside := s.room h (List.mem_cons_self ..)
  have spaced : Spaced b m := s.sublist (List.sublist_cons_self h m)
  have cross : ∀ k ∈ m, h + 12 ≤ k ∨ k + 12 ≤ h := (List.pairwise_cons.mp s.apart).1
  let b₁ := b.setWord (h + 8) (Block.encodeLink m.head?)
  let b₂ := b₁.setWord (h + 12) (Block.encodeLink none)
  have size₁ : b₁.size = b.size := size_setWord ..
  have own : OnlyTouches b b₂ (linkArea [h]) := by
    refine ((OnlyTouches.setWord b _ _).trans (.setWord b₁ _ _)).mono fun i mem => ?_
    simp only [Set.mem_union, Set.mem_Ico] at mem
    exact ⟨h, by simp, by omega, by omega⟩
  -- the first two writes are to the new block, which the list does not meet
  have rest₂ : Linked b₂ none m none := by
    refine linked.of_touches own fun k mem i low high => ?_
    rintro ⟨h', memh, inside'⟩
    obtain rfl := List.mem_singleton.mp memh
    have away := cross k mem
    omega
  obtain ⟨b₃, run₃, rest₃, touched₃⟩ :=
    setBackLink_spec rest₂ (spaced.of_size own.size) (some h)
  have keep : ∀ o, h + 8 ≤ o → o + 4 ≤ h + 16 → b₃.wordAt o = b₂.wordAt o := by
    intro o low high
    refine touched₃.wordAt fun i start stop => ?_
    rintro ⟨n, memn, inside'⟩
    have away := cross n (List.mem_of_mem_head? (by simpa using memn))
    omega
  refine ⟨b₃, ?_, ⟨?_, ?_, rest₃⟩, ?_⟩
  · have second : Block.setPrevLink b₁ h none = .ok b₂ := setPrevLink_eq (by omega)
    rw [setNextLink_eq inside, Checked.ok_bind, second, Checked.ok_bind, run₃]
  · rw [keep _ (by omega) (by omega), wordAt_setWord_ne _ _ _ _ (by omega),
      wordAt_setWord_self _ _ _ (by omega), Option.or_none]
  · rw [keep _ (by omega) (by omega), wordAt_setWord_self _ _ _ (by omega)]
  · refine (own.trans touched₃).mono (Set.union_subset ?_ ?_)
    · exact linkArea_mono (by simp)
    · exact linkArea_mono fun n mem =>
        List.mem_cons_of_mem h (List.mem_of_mem_head? (by simpa using mem))

end Tlsf
