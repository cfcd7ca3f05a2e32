import Tlsf.Proofs.Tiling

/-!
What the block operations do to the headers they are about. Each statement
names the cells it needs (the block, its successor, sometimes the block in
between), says that the operation succeeds, how the same headers read after
it, and which bytes it touched. No statement here knows of the whole pool.
-/

namespace Tlsf

open Dimensions Buffer

theorem SizeWord.ofSize_eq {size : Nat} (fits : size < UInt32.size) (granular : size % 4 = 0) :
    SizeWord.ofSize size = .ok (SizeWord.ofParts size false false) := by
  simp only [SizeWord.ofSize, SizeWord.withSize, Checked.require_eq_ok fits,
    Checked.require_eq_ok granular, Checked.ok_bind, Checked.pure_eq]
  rfl

theorem word_fits {size : Nat} (small : size < payloadLimit) : size < UInt32.size :=
  Nat.lt_trans small (by decide)

namespace Sized

variable {b : Buffer} {x : Cell} {prevFree : Bool}

theorem word_eq (s : Sized b x prevFree) :
    Block.word b x.header = .ok (SizeWord.ofParts x.size x.isFree prevFree) := by
  have inside := s.inside
  simp only [Block.word, readWord_eq (show x.header + 4 + 4 ≤ b.size by omega), Checked.ok_bind,
    Checked.pure_eq, s.word]

theorem size_eq (s : Sized b x prevFree) : Block.size b x.header = .ok x.size := by
  simp only [Block.size, s.word_eq, Checked.ok_bind, Checked.pure_eq,
    SizeWord.size_ofParts _ _ s.fits s.granular]

theorem isFree_eq (s : Sized b x prevFree) : Block.isFree b x.header = .ok x.isFree := by
  simp only [Block.isFree, s.word_eq, Checked.ok_bind, Checked.pure_eq,
    SizeWord.isFree_ofParts _ _ s.fits s.granular]

theorem isPrevFree_eq (s : Sized b x prevFree) : Block.isPrevFree b x.header = .ok prevFree := by
  simp only [Block.isPrevFree, s.word_eq, Checked.ok_bind, Checked.pure_eq,
    SizeWord.isPrevFree_ofParts _ _ s.fits s.granular]

theorem isLast_eq (s : Sized b x prevFree) : Block.isLast b x.header = .ok (x.size == 0) := by
  simp only [Block.isLast, s.size_eq, Checked.ok_bind, Checked.pure_eq]

theorem nextPhysical_eq (s : Sized b x prevFree) (nonempty : x.size ≠ 0) :
    Block.nextPhysical b x.header = .ok x.stop := by
  have more : (x.size == 0) = false := beq_eq_false_iff_ne.mpr nonempty
  simp only [Block.nextPhysical, s.isLast_eq, s.size_eq, more, Checked.ok_bind, Checked.pure_eq]
  rfl

theorem canSplit_eq (s : Sized b x prevFree) {size : Nat} (small : size < UInt32.size) :
    Block.canSplit b x.header size = .ok (decide (size + 24 ≤ x.size)) := by
  have fits : size + (headerSize + minPayload) < UInt64.size := by
    simp only [headerSize, minPayload, UInt32.size, UInt64.size] at *
    omega
  simp only [Block.canSplit, s.size_eq, Checked.add_eq_ok fits, Checked.ok_bind, Checked.pure_eq]
  rfl

theorem setWord_ne (s : Sized b x prevFree) {o : Nat} (w : UInt32)
    (apart : x.header + 8 ≤ o ∨ o + 4 ≤ x.header + 4) : Sized (b.setWord o w) x prevFree := by
  refine s.of_touches (OnlyTouches.setWord b o w) fun i low high => ?_
  rw [Set.mem_Ico]
  omega

theorem of_setWord (inside : x.header + 8 ≤ b.size) (fits : x.size < UInt32.size)
    (granular : x.size % 4 = 0) :
    Sized (b.setWord (x.header + 4) (SizeWord.ofParts x.size x.isFree prevFree).raw) x prevFree :=
  ⟨by simpa using inside, fits, granular, wordAt_setWord_self _ _ _ (by omega)⟩

theorem setFlags (s : Sized b x prevFree) (x' : Cell) (prevFree' : Bool)
    (header : x'.header = x.header) (size : x'.size = x.size) :
    Sized (b.setWord (x.header + 4) (SizeWord.ofParts x.size x'.isFree prevFree').raw) x' prevFree' := by
  rw [← header, ← size]
  exact of_setWord (header ▸ s.inside) (size ▸ s.fits) (size ▸ s.granular)

theorem setWord_eq (s : Sized b x prevFree) (w : SizeWord) :
    Block.setWord b x.header w = .ok (b.setWord (x.header + 4) w.raw) := by
  have inside := s.inside
  exact writeWord_eq w.raw (by omega)

theorem setFree_eq (s : Sized b x prevFree) (free : Bool) :
    Block.setFree b x.header free =
      .ok (b.setWord (x.header + 4) (SizeWord.ofParts x.size free prevFree).raw) := by
  simp only [Block.setFree, s.word_eq, Checked.ok_bind, s.setWord_eq, SizeWord.withFree,
    SizeWord.size_ofParts _ _ s.fits s.granular, SizeWord.isPrevFree_ofParts _ _ s.fits s.granular]

theorem setPrevFree_eq (s : Sized b x prevFree) (free : Bool) :
    Block.setPrevFree b x.header free =
      .ok (b.setWord (x.header + 4) (SizeWord.ofParts x.size x.isFree free).raw) := by
  simp only [Block.setPrevFree, s.word_eq, Checked.ok_bind, s.setWord_eq, SizeWord.withPrevFree,
    SizeWord.size_ofParts _ _ s.fits s.granular, SizeWord.isFree_ofParts _ _ s.fits s.granular]

theorem setSize_eq (s : Sized b x prevFree) {size : Nat} (fits : size < UInt32.size)
    (granular : size % 4 = 0) :
    Block.setSize b x.header size =
      .ok (b.setWord (x.header + 4) (SizeWord.ofParts size x.isFree prevFree).raw) := by
  simp only [Block.setSize, s.word_eq, Checked.ok_bind, s.setWord_eq, SizeWord.withSize,
    Checked.require_eq_ok fits, Checked.require_eq_ok granular, Checked.pure_eq,
    SizeWord.isFree_ofParts _ _ s.fits s.granular, SizeWord.isPrevFree_ofParts _ _ s.fits s.granular]

theorem linkNext_eq (s : Sized b x prevFree) (nonempty : x.size ≠ 0)
    (inside : x.stop + 8 ≤ b.size) :
    Block.linkNext b x.header = .ok (x.stop, b.setWord x.stop (.ofNat x.header)) := by
  simp only [Block.linkNext, s.nextPhysical_eq nonempty, Checked.ok_bind, Checked.pure_eq,
    writeWord_eq (b := b) (.ofNat x.header) (show x.stop + 4 ≤ b.size by omega)]

theorem tagged (s : Sized b x false) : Tagged b x none := ⟨s, by simp⟩

end Sized

theorem Tagged.prevPhysical_eq {b : Buffer} {x : Cell} {q : Nat} (tag : Tagged b x (some q))
    (fits : q < UInt32.size) : Block.prevPhysical b x.header = .ok q := by
  have inside := tag.sized.inside
  simp only [Block.prevPhysical, tag.sized.isPrevFree_eq, Option.isSome_some, Checked.ok_bind,
    Checked.require_eq_ok, readWord_eq (show x.header + 4 ≤ b.size by omega), tag.back q rfl,
    Checked.pure_eq, UInt32.toNat_ofNat', Nat.mod_eq_of_lt fits]

section Edits

variable {b : Buffer} {x y z : Cell} {p q : Option Nat}

theorem markFree_spec (tx : Tagged b x p) (ty : Tagged b y q) (next : y.header = x.stop)
    (nonempty : x.size ≠ 0) :
    ∃ b', Block.markFree b x.header = .ok b' ∧ Tagged b' (x.turn .loose) p ∧
      Tagged b' y (some x.header) ∧
      OnlyTouches b b' (Set.Ico (x.header + 4) (x.header + 8) ∪ Set.Ico y.header (y.header + 8)) := by
  have gap : x.header + 8 ≤ y.header := by
    rw [next, x.stop_eq]
    omega
  have inside := ty.sized.inside
  let b₁ := b.setWord y.header (.ofNat x.header)
  let b₂ := b₁.setWord (y.header + 4) (SizeWord.ofParts y.size y.isFree true).raw
  let b₃ := b₂.setWord (x.header + 4) (SizeWord.ofParts x.size true p.isSome).raw
  have sy₁ : Sized b₁ y q.isSome := ty.sized.setWord_ne _ (by omega)
  have sx₂ : Sized b₂ x p.isSome :=
    (tx.sized.setWord_ne _ (by omega)).setWord_ne _ (by omega)
  have sy₂ : Sized b₂ y true := sy₁.setFlags y true rfl rfl
  have run : Block.markFree b x.header = .ok b₃ := by
    simp only [Block.markFree, tx.sized.linkNext_eq nonempty (next ▸ inside), Checked.ok_bind,
      ← next, sy₁.setPrevFree_eq, sx₂.setFree_eq, b₁, b₂, b₃]
  have touched : OnlyTouches b b₃
      (Set.Ico (x.header + 4) (x.header + 8) ∪ Set.Ico y.header (y.header + 8)) := by
    refine (((OnlyTouches.setWord b _ _).trans (.setWord b₁ _ _)).trans (.setWord b₂ _ _)).mono ?_
    intro i
    simp only [Set.mem_union, Set.mem_Ico]
    omega
  refine ⟨b₃, run, ⟨sx₂.setFlags (x.turn .loose) _ rfl rfl, fun o mem => ?_⟩,
    ⟨sy₂.setWord_ne _ (by omega), fun o mem => ?_⟩, touched⟩
  · rw [← tx.back o mem]
    refine touched.wordAt fun i low high => ?_
    simp only [Cell.turn_header, Set.mem_union, Set.mem_Ico] at *
    omega
  · obtain rfl : x.header = o := by simpa using mem
    rw [wordAt_setWord_ne _ _ _ _ (by omega), wordAt_setWord_ne _ _ _ _ (by omega),
      wordAt_setWord_self _ _ _ (by omega)]

theorem markUsed_spec (tx : Tagged b x p) (ty : Tagged b y q) (next : y.header = x.stop)
    (nonempty : x.size ≠ 0) :
    ∃ b', Block.markUsed b x.header = .ok b' ∧ Tagged b' (x.turn .used) p ∧ Tagged b' y none ∧
      OnlyTouches b b'
        (Set.Ico (x.header + 4) (x.header + 8) ∪ Set.Ico (y.header + 4) (y.header + 8)) := by
  have gap : x.header + 8 ≤ y.header := by
    rw [next, x.stop_eq]
    omega
  let b₁ := b.setWord (y.header + 4) (SizeWord.ofParts y.size y.isFree false).raw
  let b₂ := b₁.setWord (x.header + 4) (SizeWord.ofParts x.size false p.isSome).raw
  have sx₁ : Sized b₁ x p.isSome := tx.sized.setWord_ne _ (by omega)
  have sy₁ : Sized b₁ y false := ty.sized.setFlags y false rfl rfl
  have run : Block.markUsed b x.header = .ok b₂ := by
    simp only [Block.markUsed, tx.sized.nextPhysical_eq nonempty, Checked.ok_bind, ← next,
      ty.sized.setPrevFree_eq, sx₁.setFree_eq, b₁, b₂]
  have touched : OnlyTouches b b₂
      (Set.Ico (x.header + 4) (x.header + 8) ∪ Set.Ico (y.header + 4) (y.header + 8)) := by
    refine ((OnlyTouches.setWord b _ _).trans (.setWord b₁ _ _)).mono ?_
    intro i
    simp only [Set.mem_union, Set.mem_Ico]
    omega
  refine ⟨b₂, run, ⟨sx₁.setFlags (x.turn .used) _ rfl rfl, fun o mem => ?_⟩,
    ⟨sy₁.setWord_ne _ (by omega), fun o mem => nomatch mem⟩, touched⟩
  rw [← tx.back o mem]
  refine touched.wordAt fun i low high => ?_
  simp only [Cell.turn_header, Set.mem_union, Set.mem_Ico] at *
  omega

theorem absorb_spec (tx : Tagged b x p) (tz : Tagged b z q) (ty : Tagged b y (some z.header))
    (behind : z.header = x.stop) (next : y.header = z.stop) (nonempty : x.size ≠ 0)
    (fits : x.size + z.size + 8 < UInt32.size) :
    ∃ b', Block.absorb b x.header z.header = .ok b' ∧ Tagged b' (x.join z) p ∧
      Tagged b' y (some x.header) ∧
      OnlyTouches b b' (Set.Ico (x.header + 4) (x.header + 8) ∪ Set.Ico y.header (y.header + 4)) := by
  have stop : (x.join z).stop = y.header := (Cell.join_stop behind).trans next.symm
  have gap : x.header + 8 ≤ y.header := by
    rw [← stop, Cell.stop_eq, Cell.join_header]
    omega
  have inside := ty.sized.inside
  have granular : (x.join z).size % 4 = 0 := by
    have a := tx.sized.granular
    have c := tz.sized.granular
    rw [Cell.join_size]
    omega
  let b₁ := b.setWord (x.header + 4) (SizeWord.ofParts (x.join z).size x.isFree p.isSome).raw
  let b₂ := b₁.setWord y.header (.ofNat x.header)
  have sx₁ : Sized b₁ (x.join z) p.isSome :=
    Sized.of_setWord (x := x.join z) tx.sized.inside fits granular
  have more : (x.size == 0) = false := beq_eq_false_iff_ne.mpr nonempty
  have link : Block.linkNext b₁ x.header = .ok (y.header, b₂) := by
    have inside₁ : y.header + 8 ≤ b₁.size := by simpa only [b₁, size_setWord] using inside
    have linked := sx₁.linkNext_eq (by rw [Cell.join_size]; omega) (stop ▸ inside₁)
    rwa [stop] at linked
  have resize : Block.setSize b x.header (x.size + z.size + headerSize) = .ok b₁ :=
    tx.sized.setSize_eq fits granular
  have run : Block.absorb b x.header z.header = .ok b₂ := by
    simp only [Block.absorb, tx.sized.isLast_eq, tx.sized.nextPhysical_eq nonempty,
      tx.sized.size_eq, tz.sized.size_eq, more, Checked.require_eq_ok, ← behind, Checked.ok_bind,
      resize, link, Checked.pure_eq]
  have touched : OnlyTouches b b₂
      (Set.Ico (x.header + 4) (x.header + 8) ∪ Set.Ico y.header (y.header + 4)) :=
    (OnlyTouches.setWord b _ _).trans (.setWord b₁ _ _)
  refine ⟨b₂, run, ⟨sx₁.setWord_ne _ (.inl gap), fun o mem => ?_⟩,
    ⟨(ty.sized.setWord_ne _ (by omega)).setWord_ne _ (by omega), fun o mem => ?_⟩, touched⟩
  · rw [← tx.back o mem]
    refine touched.wordAt fun i low high => ?_
    simp only [Cell.join_header, Set.mem_union, Set.mem_Ico] at *
    omega
  · obtain rfl : x.header = o := by simpa using mem
    exact wordAt_setWord_self _ _ _ (by simp only [b₁, size_setWord]; omega)

/-- The buffer with a block cut down to `size` bytes and a used block made of its rest. -/
def cutAt (b : Buffer) (x : Cell) (size : Nat) (prevFree : Bool) : Buffer :=
  b |>.setWord (x.header + 4) (SizeWord.ofParts size x.isFree prevFree).raw
    |>.setWord (x.tail size).header (.ofNat x.header)
    |>.setWord ((x.tail size).header + 4)
      (SizeWord.ofParts (x.tail size).size false x.isFree).raw

theorem cutAt_touches (b : Buffer) (x : Cell) (size : Nat) (prevFree : Bool) :
    OnlyTouches b (cutAt b x size prevFree) (Set.Ico (x.header + 4) (x.header + 8) ∪
      Set.Ico (x.tail size).header ((x.tail size).header + 8)) := by
  refine (((OnlyTouches.setWord b _ _).trans (.setWord _ _ _)).trans (.setWord _ _ _)).mono ?_
  intro i
  simp only [Set.mem_union, Set.mem_Ico]
  omega

theorem cutAt_tags (tx : Tagged b x p) (ty : Tagged b y q) (next : y.header = x.stop)
    {size : Nat} (room : size + 24 ≤ x.size) (granular : size % 4 = 0) :
    Tagged (cutAt b x size p.isSome) (x.front size) p ∧
      Tagged (cutAt b x size p.isSome) ((x.tail size).turn .used) (x.front size).freeHeader? ∧
      Tagged (cutAt b x size p.isSome) y q := by
  have whole := tx.sized.fits
  have fits : size < UInt32.size := by omega
  have old := tx.sized.granular
  have inside := ty.sized.inside
  have stop := x.stop_eq
  have restSize : (x.tail size).size = x.size - (size + 8) := rfl
  have restHeader : (x.tail size).header = x.header + 8 + size := rfl
  have touched := cutAt_touches b x size p.isSome
  have size₁ : ∀ w, (b.setWord (x.header + 4) w).size = b.size := fun w => size_setWord ..
  have front : Sized (cutAt b x size p.isSome) (x.front size) p.isSome :=
    ((Sized.of_setWord (x := x.front size) tx.sized.inside fits granular).setWord_ne _
      (by simp only [Cell.front_header]; omega)).setWord_ne _ (by simp only [Cell.front_header]; omega)
  have rest : Sized (cutAt b x size p.isSome) ((x.tail size).turn .used) x.isFree :=
    Sized.of_setWord (x := (x.tail size).turn .used)
      (by simp only [size_setWord, Cell.turn_header]; omega)
      (by simp only [Cell.turn_size]; omega) (by simp only [Cell.turn_size]; omega)
  refine ⟨⟨front, fun o mem => ?_⟩, ?_, ?_⟩
  · rw [← tx.back o mem]
    refine touched.wordAt fun i low high => ?_
    simp only [Cell.front_header, Set.mem_union, Set.mem_Ico] at *
    omega
  · by_cases free : x.isFree = true
    -- the back pointer of the rest was written for this case
    · have some : (x.front size).freeHeader? = some x.header := if_pos free
      rw [some]
      refine ⟨by simpa [free] using rest, fun o mem => ?_⟩
      obtain rfl : x.header = o := by simpa using mem
      unfold cutAt
      rw [Cell.turn_header, wordAt_setWord_ne _ _ _ _ (by omega),
        wordAt_setWord_self _ _ _ (by rw [size₁]; omega)]
    · have none : (x.front size).freeHeader? = none := if_neg free
      rw [none]
      exact Sized.tagged (by simpa [free] using rest)
  · refine ty.of_touches touched fun i low high => ?_
    simp only [Set.mem_union, Set.mem_Ico]
    omega

theorem cutAt_eq (tx : Tagged b x p) (ty : Tagged b y q) (next : y.header = x.stop)
    {size : Nat} (room : size + 24 ≤ x.size) (granular : size % 4 = 0) :
    (do
      let b ← Block.setSize b x.header size
      let b ← b.writeWord (x.tail size).header (.ofNat x.header)
      let w ← SizeWord.ofSize (x.tail size).size
      Block.setWord b (x.tail size).header (w.withPrevFree x.isFree)) =
        .ok (cutAt b x size p.isSome) := by
  have whole := tx.sized.fits
  have old := tx.sized.granular
  have inside := ty.sized.inside
  have stop := x.stop_eq
  have restSize : (x.tail size).size = x.size - (size + 8) := rfl
  have restHeader : (x.tail size).header = x.header + 8 + size := rfl
  have restFits : (x.tail size).size < UInt32.size := by omega
  have restGranular : (x.tail size).size % 4 = 0 := by omega
  have size₁ : ∀ w, (b.setWord (x.header + 4) w).size = b.size := fun w => size_setWord ..
  have word : (SizeWord.ofParts (x.tail size).size false false).withPrevFree x.isFree =
      .ofParts (x.tail size).size false x.isFree := by
    simp only [SizeWord.withPrevFree, SizeWord.size_ofParts false false restFits restGranular,
      SizeWord.isFree_ofParts false false restFits restGranular]
  rw [tx.sized.setSize_eq (by omega) granular, Checked.ok_bind,
    writeWord_eq _ (by rw [size₁]; omega), Checked.ok_bind,
    SizeWord.ofSize_eq restFits restGranular, Checked.ok_bind, word]
  exact writeWord_eq _ (by rw [size_setWord, size₁]; omega)

theorem split_spec (tx : Tagged b x p) (ty : Tagged b y q) (next : y.header = x.stop)
    {size : Nat} (room : size + 24 ≤ x.size) (granular : size % 4 = 0) :
    ∃ b', Block.split b x.header size = .ok ((x.tail size).header, b') ∧
      Tagged b' (x.front size) p ∧ Tagged b' (x.tail size) (x.front size).freeHeader? ∧
      Tagged b' y (some (x.tail size).header) ∧
      OnlyTouches b b' (Set.Ico (x.header + 4) (x.header + 8) ∪
        Set.Ico (x.tail size).header ((x.tail size).header + 8) ∪
        Set.Ico y.header (y.header + 8)) := by
  have fits := tx.sized.fits
  have stop := x.stop_eq
  have restHeader : (x.tail size).header = x.header + 8 + size := rfl
  have restSize : ((x.tail size).turn .used).size = x.size - (size + 8) := rfl
  have tailEnd : y.header = (x.tail size).stop := by
    rw [next, Cell.tail_stop (by omega)]
  have touched := cutAt_touches b x size p.isSome
  have cut := cutAt_eq tx ty next room granular
  obtain ⟨frontTag, restTag, yTag⟩ := cutAt_tags tx ty next room granular
  obtain ⟨b', marked, tailTag, yTag', touched'⟩ :=
    markFree_spec restTag yTag tailEnd (by omega)
  have frontTag' : Tagged b' (x.front size) p := by
    refine frontTag.of_touches touched' fun i low high => ?_
    simp only [Cell.front_header, Cell.turn_header, Set.mem_union, Set.mem_Ico] at *
    omega
  have can : Block.canSplit b x.header size = .ok true := by
    rw [tx.sized.canSplit_eq (by omega), decide_eq_true room]
  refine ⟨b', ?_, frontTag', tailTag, yTag', (touched.trans touched').mono ?_⟩
  · have marked : Block.markFree (cutAt b x size p.isSome) (x.tail size).header = .ok b' := marked
    have whole := congrArg (fun made => made >>= fun b => do
      pure ((x.tail size).header, ← Block.markFree b (x.tail size).header)) cut
    simp only [bind_assoc, Checked.ok_bind, marked, Checked.pure_eq] at whole
    rw [← whole]
    simp only [Block.split, can, tx.sized.size_eq, tx.sized.isFree_eq, Checked.ok_bind,
      Checked.require_eq_ok]
    rfl
  · intro i
    simp only [Cell.tail_header, Cell.turn_header, Set.mem_union, Set.mem_Ico]
    omega

theorem stomp_spec {prevFree : Bool} (s : Sized b x prevFree) (inside : x.stop ≤ b.size)
    (pattern : UInt8) :
    ∃ b', Block.stomp b x.header pattern = .ok b' ∧
      OnlyTouches b b' (Set.Ico (x.header + 16) x.stop) ∧
      ∀ i ∈ Set.Ico (x.header + 16) x.stop, b'.byteAt i = pattern := by
  have stop := x.stop_eq
  by_cases room : x.header + 16 < x.stop
  · refine ⟨update (fun _ => pattern) (x.header + 16) (x.stop - (x.header + 16)) b, ?_, ?_, ?_⟩
    · have start : x.header + headerSize + linksSize < x.header + headerSize + x.size := by
        simp only [headerSize, linksSize]
        omega
      simp only [Block.stomp, s.size_eq, Checked.ok_bind, if_pos start]
      exact if_pos (by simp only [headerSize, linksSize]; omega)
    · refine (OnlyTouches.update b _ _ _).mono fun i => ?_
      simp only [Set.mem_Ico]
      omega
    · intro i mem
      rw [Set.mem_Ico] at mem
      rw [byteAt_update, if_pos (by omega)]
  · refine ⟨b, ?_, .refl b _, fun i mem => ?_⟩
    · have empty : ¬ x.header + headerSize + linksSize < x.header + headerSize + x.size := by
        simp only [headerSize, linksSize]
        omega
      simp only [Block.stomp, s.size_eq, Checked.ok_bind, if_neg empty, Checked.pure_eq]
    · rw [Set.mem_Ico] at mem
      omega

end Edits

end Tlsf
