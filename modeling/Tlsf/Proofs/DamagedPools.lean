import Tlsf.Proofs.Faultless

/-!
An integrity check of a damaged pool. The bytes may be any, with sizes up to
`2 ^ 32` and lists that run in circles or out of the pool: the check comes to an
answer, and that is a clean bill or a damage.

The check reads sizes and links that nobody vouches for, so its sums matter too.
`surveyArmed` and `followArmed` are its two loops with every sum and counter
checked against the word size, and they answer the same.
-/

namespace Tlsf

open Dimensions Buffer

def FreeIndex.Linkable (index : FreeIndex) : Prop :=
  ∀ (c : SizeClass) (h : Nat), index.head c = .ok (some h) → h < UInt32.size

theorem FreeIndex.head_answers (index : FreeIndex) {c : SizeClass} (inside : c.Inside) :
    ∃ head, index.head c = .ok head := by
  have row := inside.row
  have slot := inside.slot
  simp only [FreeIndex.head, Vector.getElem?_eq_getElem row, Checked.ofOption, Checked.ok_bind,
    Vector.getElem?_eq_getElem slot]
  exact ⟨_, rfl⟩

theorem FreeIndex.inside_of_head {index : FreeIndex} {c : SizeClass} {head : Option Nat}
    (found : index.head c = .ok head) : c.Inside := by
  obtain ⟨row, first, second⟩ := Checked.of_bind found
  obtain ⟨inside, -⟩ := Vector.getElem?_eq_some_iff.mp (Checked.of_ofOption first)
  obtain ⟨inside', -⟩ := Vector.getElem?_eq_some_iff.mp (Checked.of_ofOption second)
  exact ⟨inside, inside'⟩

theorem Block.decodeLink_lt {raw : UInt32} {o : Nat} (link : decodeLink raw = some o) :
    o < UInt32.size := by
  unfold decodeLink at link
  split at link
  · cases link
  · obtain rfl := Option.some.inj link
    exact raw.toNat_lt

namespace Pool

variable {p : Pool} {h used listed budget : Nat} {free back current : Option Nat} {w : SizeWord}
  {c : SizeClass}

/-! Blocks -/

/-- The survey with its sums and counters checked, and no step past the last block. -/
def surveyArmed (p : Pool) (h : Nat) (free : Option Nat) (used listed : Nat) :
    Checked (Except Damage (Nat × Nat)) := do
  let _ ← Checked.add h headerSize
  if _inside : h + headerSize ≤ p.layout.regionEnd then
    let w ← Block.word p.buffer h
    match ← p.tagDamage? h w free with
    | some d => pure (.error d)
    | none =>
      match p.blockDamage? h w free.isSome with
      | some d => pure (.error d)
      | none =>
        if w.size = 0 then pure (.ok (used, listed))
        else
          let _ ← Block.nextPhysical p.buffer h
          let _ ← Checked.add (h + headerSize) w.size
          if w.isFree then
            let _ ← Checked.add listed 1
            p.surveyArmed (h + headerSize + w.size) (some h) used (listed + 1)
          else
            let _ ← Checked.add used 1
            p.surveyArmed (h + headerSize + w.size) none (used + 1) listed
  else pure (.error (.pastRegionEnd h))
termination_by p.layout.regionEnd - h
decreasing_by all_goals simp only [headerSize] at *; omega

theorem word_inside (inside : h + headerSize ≤ p.buffer.size) : ∃ w, Block.word p.buffer h = .ok w := by
  simp only [headerSize] at inside
  refine ⟨⟨p.buffer.wordAt (h + 4)⟩, ?_⟩
  simp only [Block.word, readWord_eq (show h + 4 + 4 ≤ p.buffer.size by omega), Checked.ok_bind,
    Checked.pure_eq]

theorem tagDamage?_answers (read : Block.word p.buffer h = .ok w) (free : Option Nat) :
    ∃ found, p.tagDamage? h w free = .ok found := by
  have inside := Block.inside_of_word read
  simp only [headerSize] at inside
  unfold tagDamage?
  by_cases tag : w.isPrevFree = free.isSome
  · rw [if_neg (not_not.mpr tag)]
    cases free with
    | none => exact ⟨_, rfl⟩
    | some q =>
      have tagged : Block.isPrevFree p.buffer h = .ok true := by
        rw [Block.isPrevFree, read, Checked.ok_bind, Checked.pure_eq, tag]
        rfl
      have back : Block.prevPhysical p.buffer h = .ok (p.buffer.wordAt h).toNat := by
        simp only [Block.prevPhysical, tagged, Checked.require_eq_ok,
          readWord_eq (show h + 4 ≤ p.buffer.size by omega), Checked.ok_bind, Checked.pure_eq]
      simp only [back, Checked.ok_bind, Checked.pure_eq]
      split <;> exact ⟨_, rfl⟩
  · rw [if_pos tag]
    exact ⟨_, rfl⟩

theorem nextPhysical_of_word (read : Block.word p.buffer h = .ok w) (some_ : w.size ≠ 0) :
    Block.nextPhysical p.buffer h = .ok (h + headerSize + w.size) := by
  have sized : Block.size p.buffer h = .ok w.size := by
    rw [Block.size, read, Checked.ok_bind, Checked.pure_eq]
  have more : Block.isLast p.buffer h = .ok false := by
    rw [Block.isLast, sized, Checked.ok_bind, Checked.pure_eq, beq_false_of_ne some_]
  simp only [Block.nextPhysical, more, sized, Checked.require_eq_ok, Checked.ok_bind, Checked.pure_eq]

theorem survey_armed (bounded : p.Bounded) (near : h < 2 * UInt32.size) (counted : used + listed ≤ h)
    (free : Option Nat) :
    ∃ found, p.surveyFrom h free used listed = .ok found ∧
      p.surveyArmed h free used listed = .ok found := by
  have limit : UInt64.size = 18446744073709551616 := rfl
  have word : UInt32.size = 4294967296 := rfl
  -- `near` and `counted` bound every sum, and both still hold behind a block that passed
  induction left : p.layout.regionEnd - h using Nat.strongRecOn generalizing h free used listed with
  | ind k ih =>
    have start : Checked.add h headerSize = .ok (h + headerSize) :=
      Checked.add_eq_ok (by simp only [headerSize]; omega)
    rw [surveyFrom, surveyArmed, start, Checked.ok_bind]
    by_cases inside : h + headerSize ≤ p.layout.regionEnd
    · obtain ⟨w, read⟩ := word_inside (Nat.le_trans inside bounded.region)
      obtain ⟨damage, tags⟩ := tagDamage?_answers read free
      rw [dif_pos inside, dif_pos inside, read, Checked.ok_bind, Checked.ok_bind, tags,
        Checked.ok_bind, Checked.ok_bind]
      cases damage with
      | some d => exact ⟨_, rfl, rfl⟩
      | none =>
        cases p.blockDamage? h w free.isSome with
        | some d => exact ⟨_, rfl, rfl⟩
        | none =>
          by_cases empty : w.size = 0
          · simp only [empty, if_true, Checked.pure_eq]
            exact ⟨_, rfl, rfl⟩
          · have small := w.size_lt
            have low := bounded.low
            have sum : Checked.add (h + headerSize) w.size = .ok (h + headerSize + w.size) :=
              Checked.add_eq_ok (by omega)
            have more : Checked.add listed 1 = .ok (listed + 1) :=
              Checked.add_eq_ok (by omega)
            have more' : Checked.add used 1 = .ok (used + 1) := Checked.add_eq_ok (by omega)
            simp only [if_neg empty, nextPhysical_of_word read empty, sum, more, more',
              Checked.ok_bind]
            simp only [headerSize] at inside ⊢
            by_cases free' : w.isFree = true
            · rw [if_pos free', if_pos free']
              exact ih _ (by omega) (by omega) (by omega) (some h) rfl
            · rw [if_neg free', if_neg free']
              exact ih _ (by omega) (by omega) (by omega) none rfl
    · rw [dif_neg inside, dif_neg inside]
      exact ⟨_, rfl, rfl⟩

theorem survey_starts (bounded : p.Bounded)
    (usable : p.layout.firstBlock + headerSize ≤ p.layout.sentinel) :
    ∃ found, p.surveyFrom p.layout.firstBlock none 0 0 = .ok found ∧
      p.surveyArmed p.layout.firstBlock none 0 0 = .ok found := by
  have low := bounded.low
  have inside := bounded.inside
  exact survey_armed bounded (by omega) (by omega) none

/-! Lists -/

def followArmed (p : Pool) (c : SizeClass) :
    (budget : Nat) → (back current : Option Nat) → Checked (Except Damage Nat)
  | budget, _, none => pure (.ok budget)
  | 0, _, some h => do
    let _ ← Checked.add h (headerSize + minPayload)
    pure (.error (if p.linkOutside h then .linkOutside h else .overfullLists))
  | budget + 1, back, some h => do
    let _ ← Checked.add h (headerSize + minPayload)
    if p.linkOutside h then pure (.error (.linkOutside h))
    else
      match ← p.listedDamage? c back h with
      | some d => pure (.error d)
      | none => p.followArmed c budget (some h) (← Block.nextLink p.buffer h)

theorem listedDamage?_answers (bounded : p.Bounded) (inside : p.linkOutside h = false)
    (c : SizeClass) (back : Option Nat) : ∃ found, p.listedDamage? c back h = .ok found := by
  obtain ⟨-, high⟩ := linkOutside_eq_false_iff.mp inside
  have last := bounded.inside
  have region := bounded.region
  simp only [headerSize, minPayload] at high
  obtain ⟨w, read⟩ := word_inside (p := p) (h := h) (by simp only [headerSize]; omega)
  have isFree : Block.isFree p.buffer h = .ok w.isFree := by
    rw [Block.isFree, read, Checked.ok_bind, Checked.pure_eq]
  have size : Block.size p.buffer h = .ok w.size := by
    rw [Block.size, read, Checked.ok_bind, Checked.pure_eq]
  have link : Block.prevLink p.buffer h = .ok (Block.decodeLink (p.buffer.wordAt (h + 8 + 4))) := by
    simp only [Block.prevLink, headerSize, readWord_eq (show h + 8 + 4 + 4 ≤ p.buffer.size by omega),
      Checked.ok_bind, Checked.pure_eq]
  simp only [listedDamage?, isFree, size, link, Checked.ok_bind, Checked.pure_eq]
  split
  · exact ⟨_, rfl⟩
  · split
    · exact ⟨_, rfl⟩
    · split <;> exact ⟨_, rfl⟩

theorem nextLink_answers (bounded : p.Bounded) (inside : p.linkOutside h = false) :
    ∃ next, Block.nextLink p.buffer h = .ok next ∧ ∀ o ∈ next, o < UInt32.size := by
  obtain ⟨-, high⟩ := linkOutside_eq_false_iff.mp inside
  have last := bounded.inside
  have region := bounded.region
  simp only [headerSize, minPayload] at high
  refine ⟨Block.decodeLink (p.buffer.wordAt (h + 8)), ?_, fun o link => Block.decodeLink_lt link⟩
  simp only [Block.nextLink, headerSize, readWord_eq (show h + 8 + 4 ≤ p.buffer.size by omega),
    Checked.ok_bind, Checked.pure_eq]

theorem end_fits (low : h < UInt32.size) : h + (headerSize + minPayload) < UInt64.size := by
  simp only [headerSize, minPayload, UInt32.size, UInt64.size] at *
  omega

theorem follow_armed (bounded : p.Bounded) (linked : ∀ h ∈ current, h < UInt32.size)
    (c : SizeClass) (budget : Nat) (back : Option Nat) :
    ∃ found, p.followList c budget back current = .ok found ∧
      p.followArmed c budget back current = .ok found := by
  -- a list may run in circles; it is the budget that is used up
  induction budget generalizing back current with
  | zero =>
    cases current with
    | none => exact ⟨_, rfl, rfl⟩
    | some h =>
      have low := linked h rfl
      have sum : Checked.add h (headerSize + minPayload) = .ok (h + (headerSize + minPayload)) :=
        Checked.add_eq_ok (end_fits low)
      refine ⟨_, rfl, ?_⟩
      rw [followArmed, sum, Checked.ok_bind]
      rfl
  | succ budget ih =>
    cases current with
    | none => exact ⟨_, rfl, rfl⟩
    | some h =>
      have low := linked h rfl
      have sum : Checked.add h (headerSize + minPayload) = .ok (h + (headerSize + minPayload)) :=
        Checked.add_eq_ok (end_fits low)
      rw [followList, followArmed, sum, Checked.ok_bind]
      cases outside : p.linkOutside h with
      | true =>
        simp only [if_true, Checked.pure_eq]
        exact ⟨_, rfl, rfl⟩
      | false =>
        obtain ⟨damage, seen⟩ := listedDamage?_answers bounded outside c back
        obtain ⟨next, forward, links⟩ := nextLink_answers bounded outside
        simp only [Bool.false_eq_true, if_false, seen, Checked.ok_bind]
        cases damage with
        | some d => exact ⟨_, rfl, rfl⟩
        | none =>
          simp only [forward, Checked.ok_bind]
          exact ih links (some h)

/-! The whole check -/

theorem checkSlots_answers (bounded : p.Bounded) (linked : p.arena.index.Linkable) {fl : Nat}
    (row : fl < 24) {slots : List Nat} (inside : ∀ sl ∈ slots, sl < 32) (budget : Nat) :
    ∃ found, p.checkSlots fl slots budget = .ok found := by
  induction slots generalizing budget with
  | nil => exact ⟨_, rfl⟩
  | cons sl rest ih =>
    obtain ⟨slot, inside⟩ := List.forall_mem_cons.mp inside
    have bits : p.arena.index.slots[fl]? = some p.arena.index.slots[fl] :=
      Vector.getElem?_eq_getElem row
    obtain ⟨head, first⟩ := p.arena.index.head_answers (c := ⟨fl, sl⟩) ⟨row, slot⟩
    have links : ∀ h ∈ head, h < UInt32.size := by
      intro h here
      rw [Option.mem_def.mp here] at first
      exact linked _ h first
    obtain ⟨found, followed, -⟩ := follow_armed bounded links ⟨fl, sl⟩ budget none
    simp only [checkSlots, bits, first, Checked.ofOption, Checked.ok_bind, followed]
    split
    · exact ⟨_, rfl⟩
    · cases found with
      | error d => exact ⟨_, rfl⟩
      | ok left => exact ih inside left

theorem checkRows_answers (bounded : p.Bounded) (linked : p.arena.index.Linkable) {rows : List Nat}
    (inside : ∀ fl ∈ rows, fl < 24) (budget : Nat) :
    ∃ found, p.checkRows rows budget = .ok found := by
  induction rows generalizing budget with
  | nil => exact ⟨_, rfl⟩
  | cons fl rest ih =>
    obtain ⟨row, inside⟩ := List.forall_mem_cons.mp inside
    have bits : p.arena.index.slots[fl]? = some p.arena.index.slots[fl] :=
      Vector.getElem?_eq_getElem row
    obtain ⟨found, scanned⟩ : ∃ found, p.checkSlots fl (List.range slotCount) budget = .ok found :=
      checkSlots_answers bounded linked row (fun sl mem => List.mem_range.mp mem) budget
    simp only [checkRows, bits, Checked.ofOption, Checked.ok_bind, scanned]
    split
    · exact ⟨_, rfl⟩
    · cases found with
      | error d => exact ⟨_, rfl⟩
      | ok left => exact ih inside left

theorem checkLists_answers (bounded : p.Bounded) (linked : p.arena.index.Linkable) (count : Nat) :
    ∃ found, p.checkLists count = .ok found := by
  obtain ⟨found, scanned⟩ : ∃ found, p.checkRows (List.range rowCount) count = .ok found :=
    checkRows_answers bounded linked (fun fl mem => List.mem_range.mp mem) count
  simp only [checkLists, scanned, Checked.ok_bind]
  cases found with
  | error d => exact ⟨_, rfl⟩
  | ok left =>
    cases left with
    | zero => exact ⟨_, rfl⟩
    | succ left => exact ⟨_, rfl⟩

theorem check_answers (bounded : p.Bounded) (linked : p.arena.index.Linkable)
    (usable : p.layout.firstBlock + headerSize ≤ p.layout.sentinel) :
    p.check = .ok (.ok ()) ∨ ∃ d, p.check = .ok (.error (.corrupted d)) := by
  obtain ⟨counted, surveyed, -⟩ := survey_starts bounded usable
  simp only [check, survey, surveyed, Checked.ok_bind]
  cases counted with
  | error d => exact .inr ⟨d, rfl⟩
  | ok counts =>
    obtain ⟨used, listed⟩ := counts
    by_cases all : used = p.arena.live.size
    · obtain ⟨found, scanned⟩ := checkLists_answers bounded linked listed
      simp only [all, ne_eq, not_true_eq_false, if_false, Checked.pure_eq, Checked.ok_bind, scanned]
      cases found with
      | error d => exact .inr ⟨d, rfl⟩
      | ok clear => exact .inl rfl
    · simp only [ne_eq, all, not_false_eq_true, if_true, Checked.pure_eq, Checked.ok_bind]
      exact .inr ⟨_, rfl⟩

end Pool

namespace Session

variable {s : Session} {p : Pool}

theorem Reachable.linkable (reach : s.Reachable) : s.pool.arena.index.Linkable := by
  obtain ⟨n, cells, lists, -, sound⟩ := reach.sound
  intro c h first
  have inside := FreeIndex.inside_of_head first
  rw [sound.pool.holds.mirror.head_eq inside] at first
  have mem : h ∈ lists c := List.mem_of_mem_head? (Except.ok.inj first)
  obtain ⟨x, memx, rfl, -⟩ := (sound.pool.holds.listed c h).mp mem
  have fits := sound.pool.holds.header_fits memx
  omega

/-- A check of a pool whose bytes are any answers that all is well or what is damaged, its sums and
counters stay below the word size, and it passes if the bytes were left alone. -/
theorem check_safe (reach : s.Reachable) (bytes : s.pool.Scribbled p) :
    (p.check = .ok (.ok ()) ∨ ∃ d, p.check = .ok (.error (.corrupted d))) ∧
      p.surveyArmed p.layout.firstBlock none 0 0 = p.surveyFrom p.layout.firstBlock none 0 0 ∧
      (∀ c head, p.arena.index.head c = .ok head → ∀ budget,
        p.followArmed c budget none head = p.followList c budget none head) ∧
      s.pool.check = .ok (.ok ()) := by
  obtain ⟨n, cells, lists, -, sound⟩ := reach.sound
  have bounded := bytes.bounded sound.pool.bounded
  have linked := reach.linkable
  have usable := reach.usable
  obtain ⟨b, size, rfl⟩ := bytes
  obtain ⟨counted, surveyed, armed⟩ := Pool.survey_starts bounded usable
  refine ⟨Pool.check_answers bounded linked usable, armed.trans surveyed.symm,
    fun c head first budget => ?_, sound.pool.check⟩
  obtain ⟨left, followed, armed⟩ := Pool.follow_armed bounded
    (fun h here => linked c h (first.trans (congrArg _ here))) c budget none
  exact armed.trans followed.symm

/-- The only free block links to itself: the check goes round once and stops. -/
theorem check_safe_sample : ∃ s p, Construction.whole.session? (.filled 256 0) [.allocate 48] = some s ∧
    s.pool.overwriteAll [(64, ⟨#[56, 0, 0, 0]⟩)] = .ok p ∧
      p.check = .ok (.error (.corrupted .overfullLists)) ∧
      p.surveyArmed p.layout.firstBlock none 0 0 = p.surveyFrom p.layout.firstBlock none 0 0 ∧
      p.followArmed ⟨0, 23⟩ 1 none (some 56) = .ok (.error .overfullLists) ∧
      s.pool.check = .ok (.ok ()) := by
  have made : ((Construction.whole.session? (.filled 256 0) [.allocate 48]).bind fun s =>
      (s.pool.overwriteAll [(64, ⟨#[56, 0, 0, 0]⟩)]).toOption.map fun p =>
        (p.check, p.arena.index.head ⟨0, 23⟩, p.followList ⟨0, 23⟩ 1 none (some 56))) =
      some (.ok (.error (.corrupted .overfullLists)), .ok (some 56), .ok (.error .overfullLists)) := by
    decide +kernel
  obtain ⟨s, session, rest⟩ := Option.bind_eq_some_iff.mp made
  obtain ⟨p, written, found⟩ := Option.map_eq_some_iff.mp rest
  obtain ⟨damaged, found⟩ := Prod.mk.inj found
  obtain ⟨head, followed⟩ := Prod.mk.inj found
  have written := Checked.of_toOption written
  have small : (Buffer.filled 256 0).size < 2 ^ 31 := by decide +kernel
  have proper : Construction.whole.Proper := trivial
  have reach : s.Reachable := reachable_of_session? small proper (by decide) session
  obtain ⟨-, survey, lists, clear⟩ := check_safe reach (Pool.overwriteAll_scribbled written)
  exact ⟨s, p, session, written, damaged, survey, (lists _ _ head 1).trans followed,
    clear⟩

end Session

end Tlsf
