import Mathlib.Order.Bounds.Basic
import Tlsf.FreeIndex
import Tlsf.Proofs.SizeClasses

/-!
The search over two levels of bitmaps against a scan of one class after the other. All that it
needs is that the rows summarize the slots; the heads of the lists play no part. Then it finds the
first class at or above its start whose slot bit is set, and misses none.
-/

namespace Tlsf.FreeIndex

open Dimensions

/-- Whether the slot bit of a class is set; classes off the table have none. -/
def marks (index : FreeIndex) (c : SizeClass) : Bool :=
  (index.slots[c.fl]?.getD 0).getLsbD c.sl

def classes : List SizeClass :=
  (List.range rowCount).flatMap fun fl => (List.range slotCount).map fun sl => ⟨fl, sl⟩

def firstMarked? (index : FreeIndex) (c : SizeClass) : Option SizeClass :=
  classes.find? fun d => decide (c ≤ d) && index.marks d

/-- A row bit is set exactly for the rows that have a slot bit, and there are no other row bits. -/
structure Summarized (index : FreeIndex) : Prop where
  row : ∀ fl (_ : fl < 24), index.rows.getLsbD fl = true ↔ index.slots[fl] ≠ 0
  blank : ∀ fl < 32, 24 ≤ fl → index.rows.getLsbD fl = false

/-! The search in machine arithmetic -/

def maskFrom (position : Nat) : Checked (BitVec 32) :=
  if position < 32 then .ok (BitVec.allOnes 32 <<< position) else .error .overflow

def trailingZeros (bits : BitVec 32) : Nat := (lowestBit? bits).getD 32

/-- The search of `firstFrom?` with a check at every shift and at every lookup. The mask for the
rows above the last one is empty, which is no fault; only the shift by the slot can be one. -/
def firstFromArmed (index : FreeIndex) (c : SizeClass) : Checked (Option SizeClass) :=
  if rowCount ≤ c.fl then pure none
  else do
    let slots ← Checked.ofOption index.slots[c.fl]?
    let near := slots &&& (← maskFrom c.sl)
    if near ≠ 0 then pure (some ⟨c.fl, trailingZeros near⟩)
    else
      let far := index.rows &&& (maskFrom (c.fl + 1)).toOption.getD 0
      if far = 0 then pure none
      else do
        let fl := trailingZeros far
        let slots ← Checked.ofOption index.slots[fl]?
        pure (some ⟨fl, trailingZeros slots⟩)

section Masks

variable {bits : BitVec 32} {position : Nat}

theorem maskFrom_eq (h : position < 32) : maskFrom position = .ok (BitVec.allOnes 32 <<< position) :=
  if_pos h

theorem exists_lowestBit? (nonzero : bits ≠ 0) : ∃ i, lowestBit? bits = some i :=
  Option.ne_none_iff_exists'.mp fun none => nonzero (lowestBit?_eq_none.mp none)

theorem ne_zero_of_lowest {i : Nat} (lowest : lowestBit? bits = some i) : bits ≠ 0 := by
  intro zero
  rw [lowestBit?_eq_none.mpr zero] at lowest
  cases lowest

theorem trailingZeros_eq {i : Nat} (lowest : lowestBit? bits = some i) : trailingZeros bits = i := by
  rw [trailingZeros, lowest, Option.getD_some]

end Masks

/-! Marked classes -/

variable {index : FreeIndex} {c d : SizeClass}

theorem marks_iff : index.marks d = true ↔
    ∃ row, index.slots[d.fl]? = some row ∧ row.getLsbD d.sl = true := by
  unfold marks
  cases index.slots[d.fl]? with
  | none => simp
  | some row => simp

theorem marks_inside (marked : index.marks d = true) : d.Inside := by
  obtain ⟨row, here, bit⟩ := marks_iff.mp marked
  exact ⟨(Vector.getElem?_eq_some_iff.mp here).1, BitVec.lt_of_getLsbD bit⟩

theorem mem_classes : d ∈ classes ↔ d.Inside := by
  unfold classes
  simp only [List.mem_flatMap, List.mem_map, List.mem_range]
  constructor
  · rintro ⟨fl, row, sl, slot, rfl⟩
    exact ⟨row, slot⟩
  · intro inside
    exact ⟨d.fl, inside.row, d.sl, inside.slot, rfl⟩

theorem lt_mk {fl sl fl' sl' : Nat} :
    (⟨fl, sl⟩ : SizeClass) < ⟨fl', sl'⟩ ↔ fl < fl' ∨ fl = fl' ∧ sl < sl' := by
  rw [← not_le, SizeClass.le_mk]
  simp only
  omega

theorem classes_sorted : classes.Pairwise (· < ·) := by
  unfold classes
  rw [List.pairwise_flatMap]
  constructor
  · intro fl _
    rw [List.pairwise_map]
    exact List.pairwise_lt_range.imp fun less => lt_mk.mpr (.inr ⟨rfl, less⟩)
  · refine List.pairwise_lt_range.imp ?_
    intro fl fl' less c memc d memd
    obtain ⟨sl, _, rfl⟩ := List.mem_map.mp memc
    obtain ⟨sl', _, rfl⟩ := List.mem_map.mp memd
    exact lt_mk.mpr (.inl less)

def Candidates (index : FreeIndex) (c : SizeClass) : Set SizeClass :=
  {d | c ≤ d ∧ index.marks d = true}

theorem firstMarked?_least (found : index.firstMarked? c = some d) :
    IsLeast (index.Candidates c) d := by
  obtain ⟨here, before, behind, split, passed⟩ := List.find?_eq_some_iff_append.mp found
  rw [Bool.and_eq_true, decide_eq_true_eq] at here
  refine ⟨here, ?_⟩
  intro e candidate
  have meme : e ∈ before ++ d :: behind := split ▸ mem_classes.mpr (marks_inside candidate.2)
  have sorted := classes_sorted
  rw [split, List.pairwise_append] at sorted
  rcases List.mem_append.mp meme with early | late
  · have refused := passed e early
    simp [candidate.1, candidate.2] at refused
  · cases late with
    | head => exact le_rfl
    | tail _ later => exact le_of_lt (List.rel_of_pairwise_cons sorted.2.1 later)

theorem firstMarked?_eq_none : index.firstMarked? c = none ↔ index.Candidates c = ∅ := by
  rw [firstMarked?, List.find?_eq_none, Set.eq_empty_iff_forall_notMem]
  constructor
  · intro passed d candidate
    have refused := passed d (mem_classes.mpr (marks_inside candidate.2))
    simp [candidate.1, candidate.2] at refused
  · intro empty d _ accepted
    rw [Bool.and_eq_true, decide_eq_true_eq] at accepted
    exact empty d accepted

/-! How a search ends -/

/-- The four ends of a search: off the table, in the row of its class, in a row above it, or past
the last row. -/
inductive Search (index : FreeIndex) (c : SizeClass) : Option SizeClass → Prop
  | off (high : rowCount ≤ c.fl) : Search index c none
  | near {sl : Nat} (low : c.fl < rowCount)
      (lowest : lowestBit? (bitsFrom index.slots[c.fl] c.sl) = some sl) :
      Search index c (some ⟨c.fl, sl⟩)
  | far {fl sl : Nat} {slots : BitVec 32} (low : c.fl < rowCount)
      (clear : bitsFrom index.slots[c.fl] c.sl = 0)
      (row : lowestBit? (bitsFrom index.rows (c.fl + 1)) = some fl)
      (here : index.slots[fl]? = some slots) (lowest : lowestBit? slots = some sl) :
      Search index c (some ⟨fl, sl⟩)
  | past (low : c.fl < rowCount) (clear : bitsFrom index.slots[c.fl] c.sl = 0)
      (above : bitsFrom index.rows (c.fl + 1) = 0) : Search index c none

theorem slots_eq (low : c.fl < rowCount) : index.slots[c.fl]? = some index.slots[c.fl] :=
  Vector.getElem?_eq_getElem low

theorem Summarized.row_of_bit (s : index.Summarized) {fl : Nat} (bit : index.rows.getLsbD fl = true) :
    ∃ slots sl, index.slots[fl]? = some slots ∧ lowestBit? slots = some sl := by
  have inside : fl < 24 := by
    by_contra out
    rw [s.blank fl (BitVec.lt_of_getLsbD bit) (Nat.not_lt.mp out)] at bit
    cases bit
  obtain ⟨sl, lowest⟩ := exists_lowestBit? ((s.row fl inside).mp bit)
  exact ⟨_, sl, Vector.getElem?_eq_getElem inside, lowest⟩

theorem Summarized.search (s : index.Summarized) (c : SizeClass) :
    index.Search c (index.firstFrom? c) := by
  by_cases low : c.fl < rowCount
  · simp only [firstFrom?, slots_eq low]
    cases near : lowestBit? (bitsFrom index.slots[c.fl] c.sl) with
    | some sl => simpa [near] using Search.near low near
    | none =>
      have clear := lowestBit?_eq_none.mp near
      cases far : lowestBit? (bitsFrom index.rows (c.fl + 1)) with
      | none => simpa [near] using Search.past low clear (lowestBit?_eq_none.mp far)
      | some fl =>
        have bit := (lowestBit?_eq_some far).1
        rw [getLsbD_bitsFrom, Bool.and_eq_true] at bit
        obtain ⟨slots, sl, there, lowest⟩ := s.row_of_bit bit.1
        simpa [near, there, lowest] using Search.far low clear far there lowest
  · have out : index.slots[c.fl]? = none := Vector.getElem?_eq_none (Nat.not_lt.mp low)
    simp only [firstFrom?, out]
    exact .off (Nat.not_lt.mp low)

theorem lowestBit?_le {bits : BitVec 32} {i j : Nat} (lowest : lowestBit? bits = some i)
    (bit : bits.getLsbD j = true) : i ≤ j := by
  by_contra below
  rw [(lowestBit?_eq_some lowest).2 j (Nat.not_le.mp below)] at bit
  cases bit

theorem candidate_near (low : c.fl < rowCount) (candidate : d ∈ index.Candidates c)
    (same : d.fl = c.fl) : (bitsFrom index.slots[c.fl] c.sl).getLsbD d.sl = true := by
  obtain ⟨row, here, bit⟩ := marks_iff.mp candidate.2
  obtain ⟨_, rfl⟩ := Vector.getElem?_eq_some_iff.mp here
  have slot : c.sl ≤ d.sl := by
    have above := SizeClass.le_def.mp candidate.1
    omega
  rw [getLsbD_bitsFrom, decide_eq_true slot, Bool.and_true]
  obtain ⟨fl, sl⟩ := d
  obtain rfl : fl = c.fl := same
  exact bit

theorem Summarized.candidate_far (s : index.Summarized) (candidate : d ∈ index.Candidates c)
    (above : c.fl < d.fl) : (bitsFrom index.rows (c.fl + 1)).getLsbD d.fl = true := by
  obtain ⟨row, here, bit⟩ := marks_iff.mp candidate.2
  obtain ⟨inside, rfl⟩ := Vector.getElem?_eq_some_iff.mp here
  have nonzero : index.slots[d.fl] ≠ 0 := by
    intro zero
    rw [zero] at bit
    simp at bit
  rw [getLsbD_bitsFrom, (s.row d.fl inside).mpr nonzero, Bool.true_and]
  exact decide_eq_true above

theorem candidate_row (candidate : d ∈ index.Candidates c) : c.fl = d.fl ∨ c.fl < d.fl := by
  have above := SizeClass.le_def.mp candidate.1
  omega

theorem Summarized.search_least (s : index.Summarized) (search : index.Search c (some d)) :
    IsLeast (index.Candidates c) d := by
  cases search with
  | @near sl low lowest =>
    have bit := (lowestBit?_eq_some lowest).1
    rw [getLsbD_bitsFrom, Bool.and_eq_true, decide_eq_true_eq] at bit
    have marked : index.marks ⟨c.fl, sl⟩ = true :=
      marks_iff.mpr ⟨_, slots_eq low, bit.1⟩
    refine ⟨⟨.inr ⟨rfl, bit.2⟩, marked⟩, ?_⟩
    intro e candidate
    rcases candidate_row candidate with same | above
    · exact .inr ⟨same, lowestBit?_le lowest (candidate_near low candidate same.symm)⟩
    · exact .inl above
  | @far fl sl slots low clear row here lowest =>
    have bit := (lowestBit?_eq_some row).1
    rw [getLsbD_bitsFrom, Bool.and_eq_true, decide_eq_true_eq] at bit
    have marked : index.marks ⟨fl, sl⟩ = true :=
      marks_iff.mpr ⟨_, here, (lowestBit?_eq_some lowest).1⟩
    refine ⟨⟨.inl bit.2, marked⟩, ?_⟩
    intro e candidate
    rcases candidate_row candidate with same | above
    · have skipped := candidate_near low candidate same.symm
      rw [clear] at skipped
      simp at skipped
    · have first := lowestBit?_le row (s.candidate_far candidate above)
      rcases Nat.eq_or_lt_of_le first with rfl | later
      · obtain ⟨slots, there, own⟩ := marks_iff.mp candidate.2
        obtain rfl := Option.some.inj (here.symm.trans there)
        exact .inr ⟨rfl, lowestBit?_le lowest own⟩
      · exact .inl later

theorem Summarized.search_none (s : index.Summarized) (search : index.Search c none) :
    index.Candidates c = ∅ := by
  rw [Set.eq_empty_iff_forall_notMem]
  intro d candidate
  have inside := (marks_inside candidate.2).row
  cases search with
  | off high =>
    have reach := candidate_row candidate
    simp only [rowCount] at high
    omega
  | past low clear above =>
    rcases candidate_row candidate with same | higher
    · have bit := candidate_near low candidate same.symm
      rw [clear] at bit
      simp at bit
    · have bit := s.candidate_far candidate higher
      rw [above] at bit
      simp at bit

theorem firstFromArmed_low (low : c.fl < rowCount) (slot : c.sl < 32) : index.firstFromArmed c =
    if bitsFrom index.slots[c.fl] c.sl ≠ 0 then
      .ok (some ⟨c.fl, trailingZeros (bitsFrom index.slots[c.fl] c.sl)⟩)
    else if bitsFrom index.rows (c.fl + 1) = 0 then .ok none
    else (do
      let slots ← Checked.ofOption index.slots[trailingZeros (bitsFrom index.rows (c.fl + 1))]?
      pure (some ⟨trailingZeros (bitsFrom index.rows (c.fl + 1)), trailingZeros slots⟩)) := by
  have next : c.fl + 1 < 32 := Nat.lt_trans (Nat.succ_lt_succ low) (by decide)
  simp only [firstFromArmed, if_neg (Nat.not_le.mpr low), slots_eq low, Checked.ofOption, Checked.ok_bind,
    maskFrom_eq slot, maskFrom_eq next, Except.toOption, Option.getD_some, Checked.pure_eq]
  rfl

theorem Search.armed {found : Option SizeClass} (search : index.Search c found) (slot : c.sl < 32) :
    index.firstFromArmed c = .ok found := by
  cases search with
  | off high => exact if_pos high
  | near low lowest =>
    rw [firstFromArmed_low low slot, if_pos (ne_zero_of_lowest lowest), trailingZeros_eq lowest]
  | far low clear row here lowest =>
    rw [firstFromArmed_low low slot, if_neg (not_not.mpr clear), if_neg (ne_zero_of_lowest row),
      trailingZeros_eq row, here, Checked.ofOption, Checked.ok_bind, trailingZeros_eq lowest,
      Checked.pure_eq]
  | past low clear above =>
    rw [firstFromArmed_low low slot, if_neg (not_not.mpr clear), if_pos above]

/-- What a search from `c` has to give: the first class at or above `c` with its bit set, as a scan
of all classes finds it, and nothing exactly when there is none. -/
structure FindsFirst (index : FreeIndex) (c : SizeClass) (found : Option SizeClass) : Prop where
  first : ∀ d, found = some d ↔ IsLeast {e | c ≤ e ∧ index.marks e = true} d
  missing : found = none ↔ ∀ e, c ≤ e → index.marks e = false
  scan : found = index.firstMarked? c
  beyond : 24 ≤ c.fl → found = none

theorem candidates_eq_empty :
    index.Candidates c = ∅ ↔ ∀ e, c ≤ e → index.marks e = false := by
  rw [Set.eq_empty_iff_forall_notMem]
  simp only [Candidates, Set.mem_ofPred_eq, not_and, Bool.not_eq_true]

theorem FindsFirst.of_least {found : Option SizeClass}
    (least : ∀ d, found = some d → IsLeast (index.Candidates c) d)
    (empty : found = none → index.Candidates c = ∅) : index.FindsFirst c found := by
  have first : ∀ d, found = some d ↔ IsLeast (index.Candidates c) d := by
    intro d
    refine ⟨least d, fun least' => ?_⟩
    cases found with
    | none => exact absurd least'.1 (empty rfl ▸ Set.notMem_empty d)
    | some e => rw [(least e rfl).unique least']
  have missing : found = none ↔ index.Candidates c = ∅ := by
    refine ⟨empty, fun nowhere => ?_⟩
    cases found with
    | none => rfl
    | some d => exact absurd (least d rfl).1 (nowhere ▸ Set.notMem_empty d)
  refine ⟨first, missing.trans candidates_eq_empty, ?_, fun beyond => ?_⟩
  · cases scanned : index.firstMarked? c with
    | none => exact missing.mpr (firstMarked?_eq_none.mp scanned)
    | some d => exact (first d).mpr (firstMarked?_least scanned)
  · rw [missing, Set.eq_empty_iff_forall_notMem]
    intro d candidate
    have row := (marks_inside candidate.2).row
    have reach := candidate_row candidate
    omega

/-- The search over two levels of bitmaps neither faults nor differs from the scan. -/
theorem firstFrom?_scans (s : index.Summarized) (slot : c.sl < 32) :
    index.firstFromArmed c = .ok (index.firstFrom? c) ∧ index.FindsFirst c (index.firstFrom? c) := by
  have search := s.search c
  refine ⟨search.armed slot, .of_least (fun d found => ?_) fun found => ?_⟩
  · rw [found] at search
    exact s.search_least search
  · rw [found] at search
    exact s.search_none search

def twoRows : FreeIndex :=
  { empty with
    rows := bit 0 ||| bit 23
    slots := (empty.slots.set 0 (bit 31)).set 23 (bit 4 ||| bit 31) }

/-- From past the slots of the first row the search falls through to the last row. -/
theorem firstFrom?_scans_sample :
    twoRows.Summarized ∧ twoRows.firstFromArmed ⟨1, 31⟩ = .ok (some ⟨23, 4⟩) ∧
      twoRows.FindsFirst ⟨1, 31⟩ (some ⟨23, 4⟩) := by
  have summarized : twoRows.Summarized := ⟨by decide, by decide⟩
  have found : twoRows.firstFrom? ⟨1, 31⟩ = some ⟨23, 4⟩ := by decide
  have scans := firstFrom?_scans summarized (c := ⟨1, 31⟩) (by decide)
  rw [found] at scans
  exact ⟨summarized, scans⟩

end Tlsf.FreeIndex
