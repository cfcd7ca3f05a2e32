import Mathlib.Order.Bounds.Basic
import Tlsf.Proofs.Outcomes
import Tlsf.Proofs.SessionRuns

/-!
How a tally moves. Each operation counts itself and sets what is handed out, and
with that raises the peaks: after a call each peak is the old one or the new
value, whichever is larger. A release of many blocks counts each of them, but
what is handed out only falls, so nothing in between can be a peak either. Over a
run of calls the peaks are therefore the largest values between calls.
-/

namespace Tlsf

theorem Checked.of_add {a b c : Nat} (run : add a b = .ok c) : c = a + b := by
  unfold add at run
  split at run
  · exact (Except.ok.inj run).symm
  · cases run

theorem Checked.of_sub {a b c : Nat} (run : sub a b = .ok c) : b ≤ a ∧ c = a - b := by
  unfold sub at run
  split at run
  · rename_i le
    exact ⟨le, (Except.ok.inj run).symm⟩
  · cases run

namespace Tally

structure Peaked (t : Tally) : Prop where
  active : t.active ≤ t.peakActive
  usedPayload : t.usedPayload ≤ t.peakUsedPayload

structure Raised (t t' : Tally) : Prop where
  active : t'.peakActive = max t.peakActive t'.active
  usedPayload : t'.peakUsedPayload = max t.peakUsedPayload t'.usedPayload

/-- Less is handed out, and all counters but those of releases are as they were. -/
structure Falls (t t' : Tally) : Prop where
  active : t'.active ≤ t.active
  usedPayload : t'.usedPayload ≤ t.usedPayload
  peakActive : t'.peakActive = t.peakActive
  peakUsedPayload : t'.peakUsedPayload = t.peakUsedPayload
  allocate : t'.allocate = t.allocate
  reallocate : t'.reallocate = t.reallocate
  resizes : t'.resizes = t.resizes

variable {t t' t'' : Tally}

theorem Raised.peaked (raised : t.Raised t') : t'.Peaked :=
  ⟨raised.active ▸ Nat.le_max_right _ _, raised.usedPayload ▸ Nat.le_max_right _ _⟩

theorem Falls.refl (t : Tally) : t.Falls t :=
  ⟨Nat.le_refl _, Nat.le_refl _, rfl, rfl, rfl, rfl, rfl⟩

theorem Falls.trans (first : t.Falls t') (second : t'.Falls t'') : t.Falls t'' :=
  ⟨Nat.le_trans second.active first.active, Nat.le_trans second.usedPayload first.usedPayload,
    second.peakActive.trans first.peakActive, second.peakUsedPayload.trans first.peakUsedPayload,
    second.allocate.trans first.allocate, second.reallocate.trans first.reallocate,
    second.resizes.trans first.resizes⟩

theorem Falls.peaked (falls : t.Falls t') (peaked : t.Peaked) : t'.Peaked :=
  ⟨falls.peakActive ▸ Nat.le_trans falls.active peaked.active,
    falls.peakUsedPayload ▸ Nat.le_trans falls.usedPayload peaked.usedPayload⟩

theorem Falls.raised (falls : t.Falls t') (peaked : t.Peaked) : t.Raised t' := by
  have after := falls.peaked peaked
  refine ⟨?_, ?_⟩
  · rw [← falls.peakActive, Nat.max_eq_left after.active]
  · rw [← falls.peakUsedPayload, Nat.max_eq_left after.usedPayload]

theorem Peaked.unmoved {c : Checked CallCounts} {f : CallCounts → Tally} (peaked : t.Peaked)
    (run : (c >>= fun calls => pure (f calls)) = .ok t')
    (same : ∀ calls, (f calls).active = t.active ∧ (f calls).usedPayload = t.usedPayload ∧
      (f calls).peakActive = t.peakActive ∧ (f calls).peakUsedPayload = t.peakUsedPayload) :
    t.Raised t' := by
  obtain ⟨calls, -, run⟩ := Checked.of_bind run
  cases run
  obtain ⟨active, usedPayload, peakActive, peakUsedPayload⟩ := same calls
  refine ⟨?_, ?_⟩
  · rw [peakActive, active, Nat.max_eq_left peaked.active]
  · rw [peakUsedPayload, usedPayload, Nat.max_eq_left peaked.usedPayload]

theorem allocated_raised {payload : Nat} (run : t.allocated payload = .ok t') : t.Raised t' := by
  obtain ⟨calls, -, run⟩ := Checked.of_bind run
  obtain ⟨active, -, run⟩ := Checked.of_bind run
  obtain ⟨used, -, run⟩ := Checked.of_bind run
  cases run
  exact ⟨rfl, rfl⟩

theorem reallocated_raised {how : Arena.Resize} {before after : Nat}
    (run : t.reallocated how before after = .ok t') : t.Raised t' := by
  obtain ⟨calls, -, run⟩ := Checked.of_bind run
  obtain ⟨resizes, -, run⟩ := Checked.of_bind run
  obtain ⟨others, -, run⟩ := Checked.of_bind run
  obtain ⟨used, -, run⟩ := Checked.of_bind run
  cases run
  exact ⟨rfl, rfl⟩

theorem freed_falls {payload : Nat} (peaked : t.Peaked) (run : t.freed payload = .ok t') :
    t.Falls t' := by
  obtain ⟨calls, -, run⟩ := Checked.of_bind run
  obtain ⟨active, fewer, run⟩ := Checked.of_bind run
  obtain ⟨used, less, run⟩ := Checked.of_bind run
  cases run
  obtain ⟨-, rfl⟩ := Checked.of_sub fewer
  obtain ⟨-, rfl⟩ := Checked.of_sub less
  refine ⟨Nat.sub_le .., Nat.sub_le .., Nat.max_eq_left ?_, Nat.max_eq_left ?_, rfl, rfl, rfl⟩
  · exact Nat.le_trans (Nat.sub_le ..) peaked.active
  · exact Nat.le_trans (Nat.sub_le ..) peaked.usedPayload

end Tally

namespace Pool

variable {p p' : Pool} {ptr : Pointer} {size : Nat} {o : Option Ownership}

theorem Allocates.raised {found : Except Error Pointer} (ends : p.Allocates size o found p')
    (peaked : p.tally.Peaked) : p.tally.Raised p'.tally := by
  cases ends with
  | idle nothing counted => exact peaked.unmoved counted fun _ => ⟨rfl, rfl, rfl, rfl⟩
  | failed counted => exact peaked.unmoved counted fun _ => ⟨rfl, rfl, rfl, rfl⟩
  | granted asked counted => exact Tally.allocated_raised counted

theorem Frees.falls {found : Except Error Bool} (ends : p.Frees ptr found p')
    (peaked : p.tally.Peaked) : p.tally.Falls p'.tally := by
  cases ends with
  | idle null counted =>
    obtain ⟨calls, -, run⟩ := Checked.of_bind counted
    cases run
    exact ⟨Nat.le_refl _, Nat.le_refl _, rfl, rfl, rfl, rfl, rfl⟩
  | failed counted =>
    obtain ⟨calls, -, run⟩ := Checked.of_bind counted
    cases run
    exact ⟨Nat.le_refl _, Nat.le_refl _, rfl, rfl, rfl, rfl, rfl⟩
  | released nonnull counted => exact Tally.freed_falls peaked counted

theorem Resizes.raised {found : Except Error Pointer} (ends : p.Resizes ptr size o found p')
    (peaked : p.tally.Peaked) : p.tally.Raised p'.tally := by
  cases ends with
  | allocates null ends => exact ends.raised peaked
  | frees nonnull nothing ends => exact (ends.falls peaked).raised peaked
  | failed counted => exact peaked.unmoved counted fun _ => ⟨rfl, rfl, rfl, rfl⟩
  | resized nonnull asked counted => exact Tally.reallocated_raised counted

theorem freeAll_falls {ptrs : List Pointer} {found : Except Error Nat} (peaked : p.tally.Peaked)
    (run : p.freeAll ptrs = .ok (found, p')) : p.tally.Falls p'.tally := by
  induction ptrs generalizing p found with
  | nil =>
    cases run
    exact .refl _
  | cons ptr rest ih =>
    rcases freeAll_cons run with ⟨e, -, ends⟩ | ⟨released, p₁, later, ends, run, -⟩
    · exact ends.falls peaked
    · have first := ends.falls peaked
      exact first.trans (ih (first.peaked peaked) run)

theorem freeRecursive_raised {found : Except Error Nat} (peaked : p.tally.Peaked)
    (run : p.freeRecursive ptr = .ok (found, p')) : p.tally.Raised p'.tally := by
  rcases freeRecursive_ends run with ⟨-, -, rfl⟩ | ⟨e, t, -, counted, rfl⟩ | ⟨-, run⟩
  · exact (Tally.Falls.refl _).raised peaked
  · exact peaked.unmoved counted fun _ => ⟨rfl, rfl, rfl, rfl⟩
  · exact (freeAll_falls peaked run).raised peaked

end Pool

namespace Call

variable {p p' : Pool} {call : Call} {result : Except Error Answer}

theorem raised (peaked : p.tally.Peaked) (run : call.run p = .ok (result, p')) :
    p.tally.Raised p'.tally := by
  cases call with
  | allocate size =>
    obtain ⟨found, run, -⟩ := answer_eq run
    exact (Pool.allocateFor_ends run).raised peaked
  | allocateOwned size owner parent =>
    obtain ⟨found, run, -⟩ := answer_eq run
    exact (Pool.allocateFor_ends run).raised peaked
  | allocateZeroed size =>
    obtain ⟨found, run, -⟩ := answer_eq run
    obtain ⟨found', p₁, arena, ends, rfl, -⟩ := Pool.allocateZeroed_ends run
    exact ends.raised peaked
  | free ptr =>
    obtain ⟨found, run, -⟩ := answer_eq run
    exact ((Pool.free_ends run).falls peaked).raised peaked
  | freeRecursive ptr =>
    obtain ⟨found, run, -⟩ := answer_eq run
    exact Pool.freeRecursive_raised peaked run
  | reallocate ptr size =>
    obtain ⟨found, run, -⟩ := answer_eq run
    exact (Pool.reallocateFor_ends run).raised peaked
  | reallocateOwned ptr size owner parent =>
    obtain ⟨found, run, -⟩ := answer_eq run
    exact (Pool.reallocateFor_ends run).raised peaked
  | editRegistry edits =>
    cases run
    exact (Tally.Falls.refl _).raised peaked
  | rewrite ptr contents =>
    obtain ⟨found, run, -⟩ := answer_eq run
    obtain ⟨arena, rfl⟩ := Pool.editPayload_ends run
    exact (Tally.Falls.refl _).raised peaked

end Call

end Tlsf
