import Mathlib.Algebra.Group.Nat.Defs
import Tlsf.Proofs.Footprint

/-!
The fields of a block as lenses on the buffer. Size and flags share the size word, and each
free-list link has a word of its own. A field is read from its word and written by replacing that
word, so the laws of writing and reading are proved of words first and of buffers after that: two
fields in one word by the laws of the size word, two fields in different words because the words
lie apart.
-/

namespace Tlsf

open Dimensions Buffer

namespace Buffer

variable {b b' : Buffer} {o : Nat}

theorem setWord_setWord (v w : UInt32) (inside : o + 4 ≤ b.size) :
    (b.setWord o v).setWord o w = b.setWord o w := by
  apply ext_byteAt
  · simp
  · intro i _
    rw [byteAt_setWord _ _ _ (by simpa using inside), byteAt_setWord _ _ _ inside,
      byteAt_setWord _ _ _ inside]
    split <;> rfl

theorem setWord_comm {p : Nat} (v w : UInt32) (apart : o + 4 ≤ p ∨ p + 4 ≤ o)
    (inside : o + 4 ≤ b.size) (inside' : p + 4 ≤ b.size) :
    (b.setWord o v).setWord p w = (b.setWord p w).setWord o v := by
  apply ext_byteAt
  · simp
  · intro i _
    rw [byteAt_setWord _ _ _ (by simpa using inside'), byteAt_setWord _ _ _ inside,
      byteAt_setWord _ _ _ (by simpa using inside), byteAt_setWord _ _ _ inside']
    by_cases first : o ≤ i ∧ i < o + 4
    · rw [if_neg (by omega), if_pos first, if_pos first]
    · simp only [if_neg first]

end Buffer

namespace SizeWord

theorem withSize_eq (w : SizeWord) (n : Nat) : w.withSize n =
    if n < UInt32.size ∧ n % 4 = 0 then .ok (ofParts n w.isFree w.isPrevFree)
    else .error .contract := by
  unfold withSize
  by_cases fits : n < UInt32.size
  · rw [Checked.require_eq_ok fits, Checked.ok_bind]
    by_cases granular : n % 4 = 0
    · rw [Checked.require_eq_ok granular, Checked.ok_bind, if_pos ⟨fits, granular⟩, Checked.pure_eq]
    · rw [Checked.require, if_neg granular, Checked.error_bind, if_neg fun both => granular both.2]
  · rw [Checked.require, if_neg fits, Checked.error_bind, if_neg fun both => fits both.1]

theorem mk_raw (w : SizeWord) : mk w.raw = w := rfl

section Flags

variable (w : SizeWord) (on : Bool)

@[simp] theorem size_withFree : (w.withFree on).size = w.size :=
  size_ofParts _ _ w.size_lt w.size_mod_four

@[simp] theorem isFree_withFree : (w.withFree on).isFree = on :=
  isFree_ofParts _ _ w.size_lt w.size_mod_four

@[simp] theorem isPrevFree_withFree : (w.withFree on).isPrevFree = w.isPrevFree :=
  isPrevFree_ofParts _ _ w.size_lt w.size_mod_four

@[simp] theorem size_withPrevFree : (w.withPrevFree on).size = w.size :=
  size_ofParts _ _ w.size_lt w.size_mod_four

@[simp] theorem isFree_withPrevFree : (w.withPrevFree on).isFree = w.isFree :=
  isFree_ofParts _ _ w.size_lt w.size_mod_four

@[simp] theorem isPrevFree_withPrevFree : (w.withPrevFree on).isPrevFree = on :=
  isPrevFree_ofParts _ _ w.size_lt w.size_mod_four

theorem withFree_withFree (off : Bool) : (w.withFree off).withFree on = w.withFree on := by
  rw [withFree, size_withFree, isPrevFree_withFree, withFree]

theorem withPrevFree_withPrevFree (off : Bool) :
    (w.withPrevFree off).withPrevFree on = w.withPrevFree on := by
  rw [withPrevFree, size_withPrevFree, isFree_withPrevFree, withPrevFree]

theorem withFree_withPrevFree (prev : Bool) :
    (w.withPrevFree prev).withFree on = (w.withFree on).withPrevFree prev := by
  rw [withFree, size_withPrevFree, isPrevFree_withPrevFree, withPrevFree, size_withFree,
    isFree_withFree]

end Flags

section Sizes

variable {w w' : SizeWord} {n m : Nat}

theorem withSize_keeps (resized : w.withSize n = .ok w') :
    w'.isFree = w.isFree ∧ w'.isPrevFree = w.isPrevFree := by
  rw [withSize_eq] at resized
  split at resized
  · rename_i valid
    cases resized
    exact ⟨isFree_ofParts _ _ valid.1 valid.2, isPrevFree_ofParts _ _ valid.1 valid.2⟩
  · cases resized

theorem withSize_withSize (resized : w.withSize n = .ok w') : w'.withSize m = w.withSize m := by
  obtain ⟨free, prevFree⟩ := withSize_keeps resized
  rw [withSize_eq, withSize_eq, free, prevFree]

theorem withSize_withFree (w : SizeWord) (n : Nat) (on : Bool) : (w.withFree on).withSize n =
    (do pure ((← w.withSize n).withFree on)) := by
  rw [withSize_eq, withSize_eq, isFree_withFree, isPrevFree_withFree]
  split
  · rename_i valid
    rw [Checked.ok_bind, withFree, size_ofParts _ _ valid.1 valid.2,
      isPrevFree_ofParts _ _ valid.1 valid.2, Checked.pure_eq]
  · rfl

theorem withSize_withPrevFree (w : SizeWord) (n : Nat) (on : Bool) :
    (w.withPrevFree on).withSize n = (do pure ((← w.withSize n).withPrevFree on)) := by
  rw [withSize_eq, withSize_eq, isFree_withPrevFree, isPrevFree_withPrevFree]
  split
  · rename_i valid
    rw [Checked.ok_bind, withPrevFree, size_ofParts _ _ valid.1 valid.2,
      isFree_ofParts _ _ valid.1 valid.2, Checked.pure_eq]
  · rfl

end Sizes

end SizeWord

namespace Block

inductive Field where
  | size
  | free
  | prevFree
  | nextLink
  | prevLink
deriving DecidableEq

namespace Field

def offset : Field → Nat
  | size | free | prevFree => 4
  | nextLink => 8
  | prevLink => 12

abbrev Value : Field → Type
  | size => Nat
  | free | prevFree => Bool
  | nextLink | prevLink => Option Nat

def read (b : Buffer) (h : Nat) : (f : Field) → Checked f.Value
  | size => Block.size b h
  | free => Block.isFree b h
  | prevFree => Block.isPrevFree b h
  | nextLink => Block.nextLink b h
  | prevLink => Block.prevLink b h

def write (b : Buffer) (h : Nat) : (f : Field) → f.Value → Checked Buffer
  | size, n => Block.setSize b h n
  | free, on => Block.setFree b h on
  | prevFree, on => Block.setPrevFree b h on
  | nextLink, link => Block.setNextLink b h link
  | prevLink, link => Block.setPrevLink b h link

/-- The values that a field can hold. The last offset of 32 bits stands for no link. -/
def Holds : (f : Field) → f.Value → Prop
  | size, n => n % 4 = 0 ∧ n ≤ 2 ^ 32 - 4
  | free, _ | prevFree, _ => True
  | nextLink, link | prevLink, link => ∀ o ∈ link, o < 2 ^ 32 - 1

/-! Fields of a word -/

def get (w : UInt32) : (f : Field) → f.Value
  | size => SizeWord.size ⟨w⟩
  | free => SizeWord.isFree ⟨w⟩
  | prevFree => SizeWord.isPrevFree ⟨w⟩
  | nextLink | prevLink => decodeLink w

def put (w : UInt32) : (f : Field) → f.Value → Checked UInt32
  | size, n => do pure (← SizeWord.withSize ⟨w⟩ n).raw
  | free, on => pure (SizeWord.withFree ⟨w⟩ on).raw
  | prevFree, on => pure (SizeWord.withPrevFree ⟨w⟩ on).raw
  | nextLink, link | prevLink, link => pure (encodeLink link)

variable {f g : Field} {w w' : UInt32} {v : f.Value} {u : g.Value}

theorem of_put_size {n : Nat} (written : put w size n = .ok w') :
    ∃ s, SizeWord.withSize ⟨w⟩ n = .ok s ∧ s.raw = w' := by
  obtain ⟨s, resized, same⟩ := Checked.of_bind written
  exact ⟨s, resized, Except.ok.inj same⟩

theorem get_put (w : UInt32) (holds : f.Holds v) : ∃ w', f.put w v = .ok w' ∧ f.get w' = v := by
  cases f with
  | size =>
    obtain ⟨granular, fits⟩ := holds
    have below : v < UInt32.size := Nat.lt_of_le_of_lt fits (by decide)
    have resized := (SizeWord.withSize_eq ⟨w⟩ v).trans (if_pos ⟨below, granular⟩)
    rw [put, resized, Checked.ok_bind]
    exact ⟨_, rfl, SizeWord.size_ofParts _ _ below granular⟩
  | free => exact ⟨_, rfl, SizeWord.isFree_withFree _ v⟩
  | prevFree => exact ⟨_, rfl, SizeWord.isPrevFree_withPrevFree _ v⟩
  | nextLink => exact ⟨_, rfl, decodeLink_encodeLink holds⟩
  | prevLink => exact ⟨_, rfl, decodeLink_encodeLink holds⟩

theorem get_put_other (other : g ≠ f) (same : g.offset = f.offset) (written : f.put w v = .ok w') :
    g.get w' = g.get w := by
  cases f with
  | size =>
    obtain ⟨s, resized, rfl⟩ := of_put_size written
    obtain ⟨kept, keptPrev⟩ := SizeWord.withSize_keeps resized
    cases g with
    | size => exact absurd rfl other
    | free => exact kept
    | prevFree => exact keptPrev
    | nextLink | prevLink => cases same
  | free =>
    cases written
    cases g with
    | size => exact SizeWord.size_withFree ..
    | free => exact absurd rfl other
    | prevFree => exact SizeWord.isPrevFree_withFree ..
    | nextLink | prevLink => cases same
  | prevFree =>
    cases written
    cases g with
    | size => exact SizeWord.size_withPrevFree ..
    | free => exact SizeWord.isFree_withPrevFree ..
    | prevFree => exact absurd rfl other
    | nextLink | prevLink => cases same
  | nextLink =>
    cases g with
    | nextLink => exact absurd rfl other
    | size | free | prevFree | prevLink => cases same
  | prevLink =>
    cases g with
    | prevLink => exact absurd rfl other
    | size | free | prevFree | nextLink => cases same

theorem put_put (v' : f.Value) (written : f.put w v = .ok w') : f.put w' v' = f.put w v' := by
  cases f with
  | size =>
    obtain ⟨s, resized, rfl⟩ := of_put_size written
    rw [put, put, SizeWord.withSize_withSize resized]
  | free =>
    cases written
    rw [put, put, SizeWord.withFree_withFree]
  | prevFree =>
    cases written
    rw [put, put, SizeWord.withPrevFree_withPrevFree]
  | nextLink => rfl
  | prevLink => rfl

section Orders

variable (w : UInt32) (n : Nat) (on prev : Bool)

theorem put_size_free :
    (do put (← put w size n) free on) = (do put (← put w free on) size n) := by
  simp only [put, Checked.pure_eq, Checked.ok_bind, bind_assoc, SizeWord.mk_raw, SizeWord.withSize_withFree]

theorem put_size_prevFree :
    (do put (← put w size n) prevFree prev) = (do put (← put w prevFree prev) size n) := by
  simp only [put, Checked.pure_eq, Checked.ok_bind, bind_assoc, SizeWord.mk_raw, SizeWord.withSize_withPrevFree]

theorem put_free_prevFree :
    (do put (← put w free on) prevFree prev) = (do put (← put w prevFree prev) free on) := by
  simp only [put, Checked.pure_eq, Checked.ok_bind, SizeWord.mk_raw, SizeWord.withFree_withPrevFree]

theorem put_comm (other : g ≠ f) (same : g.offset = f.offset) (v : f.Value) (u : g.Value) :
    (do g.put (← f.put w v) u) = (do f.put (← g.put w u) v) := by
  cases f with
  | size =>
    cases g with
    | size => exact absurd rfl other
    | free => exact put_size_free w v u
    | prevFree => exact put_size_prevFree w v u
    | nextLink | prevLink => cases same
  | free =>
    cases g with
    | size => exact (put_size_free w u v).symm
    | free => exact absurd rfl other
    | prevFree => exact put_free_prevFree w v u
    | nextLink | prevLink => cases same
  | prevFree =>
    cases g with
    | size => exact (put_size_prevFree w u v).symm
    | free => exact (put_free_prevFree w u v).symm
    | prevFree => exact absurd rfl other
    | nextLink | prevLink => cases same
  | nextLink =>
    cases g with
    | nextLink => exact absurd rfl other
    | size | free | prevFree | prevLink => cases same
  | prevLink =>
    cases g with
    | prevLink => exact absurd rfl other
    | size | free | prevFree | nextLink => cases same

end Orders

theorem put_fault {e : Fault} (failed : f.put w v = .error e) : e = .contract := by
  cases f with
  | size =>
    rw [put, SizeWord.withSize_eq] at failed
    split at failed
    · cases failed
    · cases failed
      rfl
  | free | prevFree | nextLink | prevLink => cases failed

/-! Fields of a buffer -/

variable {b b' : Buffer} {h : Nat}

theorem offset_le (f : Field) : f.offset ≤ 12 := by
  cases f <;> decide

theorem offset_apart (differ : g.offset ≠ f.offset) :
    f.offset + 4 ≤ g.offset ∨ g.offset + 4 ≤ f.offset := by
  revert differ
  cases f <;> cases g <;> decide

theorem word_inside (inside : h + 16 ≤ b.size) (f : Field) : h + f.offset + 4 ≤ b.size := by
  have reach := f.offset_le
  omega

theorem sizeWord_read (inside : h + 16 ≤ b.size) : Block.word b h = .ok ⟨b.wordAt (h + 4)⟩ := by
  have word := readWord_eq (show h + 4 + 4 ≤ b.size by omega)
  rw [Block.word, word, Checked.ok_bind, Checked.pure_eq]

theorem read_eq (inside : h + 16 ≤ b.size) (f : Field) :
    f.read b h = .ok (f.get (b.wordAt (h + f.offset))) := by
  have word := readWord_eq (f.word_inside inside)
  cases f with
  | size => exact congrArg (· >>= fun w => pure w.size) (sizeWord_read inside)
  | free => exact congrArg (· >>= fun w => pure w.isFree) (sizeWord_read inside)
  | prevFree => exact congrArg (· >>= fun w => pure w.isPrevFree) (sizeWord_read inside)
  | nextLink => exact congrArg (· >>= fun w => pure (decodeLink w)) word
  | prevLink => exact congrArg (· >>= fun w => pure (decodeLink w)) word

theorem write_eq (inside : h + 16 ≤ b.size) (f : Field) (v : f.Value) :
    f.write b h v = (do
      let w ← f.put (b.wordAt (h + f.offset)) v
      pure (b.setWord (h + f.offset) w)) := by
  have word : ∀ w, b.writeWord (h + f.offset) w = .ok (b.setWord (h + f.offset) w) :=
    fun w => writeWord_eq w (f.word_inside inside)
  cases f with
  | size =>
    rw [write, Block.setSize, sizeWord_read inside, Checked.ok_bind]
    change (SizeWord.withSize ⟨b.wordAt (h + 4)⟩ v >>= _) =
      (SizeWord.withSize ⟨b.wordAt (h + 4)⟩ v >>= _) >>= _
    cases SizeWord.withSize ⟨b.wordAt (h + 4)⟩ v with
    | error e => rfl
    | ok s => exact word s.raw
  | free =>
    rw [write, Block.setFree, sizeWord_read inside, Checked.ok_bind]
    exact word _
  | prevFree =>
    rw [write, Block.setPrevFree, sizeWord_read inside, Checked.ok_bind]
    exact word _
  | nextLink => exact word _
  | prevLink => exact word _

theorem of_write {v : f.Value} (inside : h + 16 ≤ b.size) (run : f.write b h v = .ok b') :
    ∃ w, f.put (b.wordAt (h + f.offset)) v = .ok w ∧ b' = b.setWord (h + f.offset) w := by
  rw [write_eq inside] at run
  obtain ⟨w, written, same⟩ := Checked.of_bind run
  exact ⟨w, written, (Except.ok.inj same).symm⟩

theorem write_write_word (inside : h + 16 ≤ b.size) (same : g.offset = f.offset) (v : f.Value)
    (u : g.Value) : (do g.write (← f.write b h v) h u) = (do
      let w ← (do g.put (← f.put (b.wordAt (h + f.offset)) v) u)
      pure (b.setWord (h + f.offset) w)) := by
  rw [write_eq inside]
  cases f.put (b.wordAt (h + f.offset)) v with
  | error e => rfl
  | ok w =>
    have inside' : h + 16 ≤ (b.setWord (h + f.offset) w).size := by simpa using inside
    have read := wordAt_setWord_self b (h + f.offset) w (f.word_inside inside)
    simp only [Checked.ok_bind, Checked.pure_eq]
    rw [write_eq inside', same, read]
    simp only [setWord_setWord _ _ (f.word_inside inside), Checked.pure_eq]

theorem write_write_apart (inside : h + 16 ≤ b.size) (differ : g.offset ≠ f.offset) (v : f.Value)
    (u : g.Value) : (do g.write (← f.write b h v) h u) = (do
      let w ← f.put (b.wordAt (h + f.offset)) v
      let w' ← g.put (b.wordAt (h + g.offset)) u
      pure ((b.setWord (h + f.offset) w).setWord (h + g.offset) w')) := by
  have apart := offset_apart differ
  rw [write_eq inside]
  cases f.put (b.wordAt (h + f.offset)) v with
  | error e => rfl
  | ok w =>
    have inside' : h + 16 ≤ (b.setWord (h + f.offset) w).size := by simpa using inside
    have read := wordAt_setWord_ne b (h + f.offset) (h + g.offset) w (by omega)
    simp only [Checked.ok_bind, Checked.pure_eq]
    rw [write_eq inside', read]
    rfl

theorem write_comm (inside : h + 16 ≤ b.size) (other : g ≠ f) (v : f.Value) (u : g.Value) :
    (do g.write (← f.write b h v) h u) = (do f.write (← g.write b h u) h v) := by
  by_cases same : g.offset = f.offset
  · rw [write_write_word inside same, write_write_word inside same.symm, same,
      put_comm _ other same]
  · have apart := offset_apart same
    rw [write_write_apart inside same, write_write_apart inside (Ne.symm same)]
    cases first : f.put (b.wordAt (h + f.offset)) v with
    | error e =>
      cases second : g.put (b.wordAt (h + g.offset)) u with
      | error e' => simp only [Checked.error_bind, put_fault first, put_fault second]
      | ok w' => simp only [Checked.error_bind, Checked.ok_bind]
    | ok w =>
      cases second : g.put (b.wordAt (h + g.offset)) u with
      | error e' => simp only [Checked.error_bind, Checked.ok_bind]
      | ok w' =>
        have swap := setWord_comm w w' (by omega) (f.word_inside inside) (g.word_inside inside)
        simp only [Checked.ok_bind, Checked.pure_eq, swap]

end Field

/-- The laws of reading and writing the fields of the block at `h`. -/
structure Lawful (b : Buffer) (h : Nat) : Prop where
  returns : ∀ (f : Field) (v : f.Value), f.Holds v →
    ∃ b', f.write b h v = .ok b' ∧ f.read b' h = .ok v
  frame : ∀ (f : Field) (v : f.Value) b', f.write b h v = .ok b' →
    OnlyTouches b b' (Set.Ico (h + f.offset) (h + f.offset + 4))
  keeps : ∀ (f g : Field) (v : f.Value) b', g ≠ f → f.write b h v = .ok b' →
    g.read b' h = g.read b h
  overrides : ∀ (f : Field) (v v' : f.Value) b', f.write b h v = .ok b' →
    f.write b' h v' = f.write b h v'
  commute : ∀ (f g : Field) (v : f.Value) (u : g.Value), g ≠ f →
    (do g.write (← f.write b h v) h u) = (do f.write (← g.write b h u) h v)
  /-- Different values leave different bytes, no link and a link to offset zero among them. -/
  tells : ∀ (f : Field) (v v' : f.Value), f.Holds v → f.Holds v' →
    f.write b h v = f.write b h v' → v = v'

namespace Field

variable {f g : Field} {b b' : Buffer} {h : Nat} {v : f.Value}

theorem write_returns (inside : h + 16 ≤ b.size) (holds : f.Holds v) :
    ∃ b', f.write b h v = .ok b' ∧ f.read b' h = .ok v := by
  obtain ⟨w, written, found⟩ := get_put (b.wordAt (h + f.offset)) holds
  have inside' : h + 16 ≤ (b.setWord (h + f.offset) w).size := by simpa using inside
  refine ⟨b.setWord (h + f.offset) w, ?_, ?_⟩
  · rw [write_eq inside, written, Checked.ok_bind, Checked.pure_eq]
  · rw [read_eq inside', wordAt_setWord_self _ _ _ (f.word_inside inside), found]

theorem write_keeps (inside : h + 16 ≤ b.size) (other : g ≠ f) (run : f.write b h v = .ok b') :
    g.read b' h = g.read b h := by
  obtain ⟨w, written, rfl⟩ := of_write inside run
  have inside' : h + 16 ≤ (b.setWord (h + f.offset) w).size := by simpa using inside
  rw [read_eq inside', read_eq inside]
  by_cases same : g.offset = f.offset
  · rw [same, wordAt_setWord_self _ _ _ (f.word_inside inside), get_put_other other same written]
  · have apart := offset_apart same
    rw [wordAt_setWord_ne _ _ _ _ (by omega)]

theorem write_overrides (inside : h + 16 ≤ b.size) (run : f.write b h v = .ok b') (v' : f.Value) :
    f.write b' h v' = f.write b h v' := by
  obtain ⟨w, written, rfl⟩ := of_write inside run
  have inside' : h + 16 ≤ (b.setWord (h + f.offset) w).size := by simpa using inside
  rw [write_eq inside', write_eq inside, wordAt_setWord_self _ _ _ (f.word_inside inside),
    put_put v' written]
  simp only [setWord_setWord _ _ (f.word_inside inside)]

end Field

/-- The fields of a block are independent of each other: each is written and read as if it had a
place of its own. -/
theorem fields_lawful {b : Buffer} {h : Nat} (inside : h + 16 ≤ b.size) : Lawful b h := by
  refine ⟨fun f v holds => Field.write_returns inside holds, fun f v b' run => ?_,
    fun f g v b' other run => Field.write_keeps inside other run,
    fun f v v' b' run => Field.write_overrides inside run v',
    fun f g v u other => Field.write_comm inside other v u, fun f v v' holds holds' same => ?_⟩
  · obtain ⟨w, -, rfl⟩ := Field.of_write inside run
    exact OnlyTouches.setWord b _ w
  · obtain ⟨b₁, run, read⟩ := Field.write_returns (b := b) inside holds
    obtain ⟨b₂, run', read'⟩ := Field.write_returns (b := b) inside holds'
    obtain rfl : b₁ = b₂ := Except.ok.inj (run.symm.trans (same.trans run'))
    exact Except.ok.inj (read.symm.trans read')

/-- A header that is not aligned, in a buffer whose every bit is set: the new size leaves both
flags set, and no link is not the link to offset zero. -/
theorem fields_lawful_sample :
    3 + 16 ≤ (Buffer.filled 19 0xFF).size ∧ Lawful (.filled 19 0xFF) 3 ∧
      ∃ b, setSize (.filled 19 0xFF) 3 (2 ^ 32 - 4) = .ok b ∧ size b 3 = .ok (2 ^ 32 - 4) ∧
        isFree b 3 = .ok true ∧ isPrevFree b 3 = .ok true ∧
        setNextLink (.filled 19 0xFF) 3 none ≠ setNextLink (.filled 19 0xFF) 3 (some 0) := by
  have inside : 3 + 16 ≤ (Buffer.filled 19 0xFF).size := by decide +kernel
  have laws := fields_lawful inside
  obtain ⟨b, run, read⟩ := laws.returns .size (2 ^ 32 - 4) ⟨by decide, Nat.le_refl _⟩
  have free := laws.keeps .size .free _ b (by decide) run
  have prevFree := laws.keeps .size .prevFree _ b (by decide) run
  refine ⟨inside, laws, b, run, read, free.trans (by decide +kernel),
    prevFree.trans (by decide +kernel), fun same => ?_⟩
  have equal := laws.tells .nextLink none (some 0) (by simp [Field.Holds]) (by simp [Field.Holds]) same
  cases equal

end Block

end Tlsf
