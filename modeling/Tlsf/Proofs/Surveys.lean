import Mathlib.Data.List.Perm.Subperm
import Tlsf.Pool.Integrity
import Tlsf.Proofs.Consistency

/-!
The first half of an integrity check, read as a statement about the bytes.
Whatever they are, a survey that finds no damage has followed a chain of blocks
to the sentinel whose used headers are those that are handed out, and it
answers the number of free ones; along such a chain it finds no damage.
-/

namespace Tlsf

open Dimensions Buffer

namespace BlockInfo

def header (i : BlockInfo) : Nat := i.pointer.offset - headerSize

end BlockInfo

def usedHeaders (blocks : List BlockInfo) : List Nat :=
  (blocks.filter fun i => !i.isFree).map BlockInfo.header

def freeHeaders (blocks : List BlockInfo) : List Nat :=
  (blocks.filter fun i => i.isFree).map BlockInfo.header

section Headers

variable {b : Buffer} {h size : Nat} {free : Bool} {prev : Option Nat} {w : SizeWord}

theorem HeaderTells.of_word (read : Block.word b h = .ok w) (tag : w.isPrevFree = prev.isSome)
    (back : ∀ q ∈ prev, Block.prevPhysical b h = .ok q) : HeaderTells b h w.size w.isFree prev := by
  refine ⟨?_, ?_, ?_, back⟩
  · rw [Block.size, read, Checked.ok_bind, Checked.pure_eq]
  · rw [Block.isFree, read, Checked.ok_bind, Checked.pure_eq]
  · rw [Block.isPrevFree, read, Checked.ok_bind, Checked.pure_eq, tag]

theorem HeaderTells.word (tells : HeaderTells b h size free prev) :
    ∃ w, Block.word b h = .ok w ∧ w.size = size ∧ w.isFree = free ∧ w.isPrevFree = prev.isSome := by
  obtain ⟨sized, freed, prevFreed, -⟩ := tells
  cases read : Block.word b h with
  | error e =>
    rw [Block.size, read] at sized
    cases sized
  | ok w =>
    simp only [Block.size, Block.isFree, Block.isPrevFree, read, Checked.ok_bind, Checked.pure_eq,
      Except.ok.injEq] at sized freed prevFreed
    exact ⟨w, rfl, sized, freed, prevFreed⟩

end Headers

section Chains

variable {b : Buffer} {sentinel h : Nat} {prev : Option Nat} {blocks : List BlockInfo} {i : BlockInfo}

theorem Chained.le (chain : Chained b sentinel prev h blocks) : h ≤ sentinel := by
  induction blocks generalizing prev h with
  | nil => exact Nat.le_of_eq chain.1
  | cons i rest ih =>
    have later := ih chain.2.2.2.2.2.2
    omega

theorem Chained.block (chain : Chained b sentinel prev h blocks) (mem : i ∈ blocks) :
    ∃ before, HeaderTells b i.header i.size i.isFree before ∧
      i.pointer.offset = i.header + headerSize ∧ h ≤ i.header ∧
      i.header + headerSize + i.size ≤ sentinel ∧ minPayload ≤ i.size := by
  induction blocks generalizing prev h with
  | nil => cases mem
  | cons j rest ih =>
    obtain ⟨offset, -, least, -, tells, -, behind⟩ := chain
    rcases List.mem_cons.mp mem with rfl | later
    · have header : i.header = h := by rw [BlockInfo.header, offset, Nat.add_sub_cancel]
      rw [header]
      exact ⟨prev, tells, offset, Nat.le_refl h, behind.le, least⟩
    · obtain ⟨before, tells, offset, low, high, least⟩ := ih behind later
      exact ⟨before, tells, offset, by omega, high, least⟩

theorem Chained.offset_iff (chain : Chained b sentinel prev h blocks) (mem : i ∈ blocks) {g : Nat} :
    i.pointer.offset = g + headerSize ↔ i.header = g := by
  obtain ⟨-, -, offset, -⟩ := chain.block mem
  rw [offset, Nat.add_right_cancel_iff]

theorem Chained.mem_usedHeaders (chain : Chained b sentinel prev h blocks) {g : Nat} :
    g ∈ usedHeaders blocks ↔ ∃ i ∈ blocks, i.isFree = false ∧ i.pointer.offset = g + headerSize := by
  simp only [usedHeaders, List.mem_map, List.mem_filter, Bool.not_eq_true']
  exact ⟨fun ⟨i, ⟨mem, used⟩, header⟩ => ⟨i, mem, used, (chain.offset_iff mem).mpr header⟩,
    fun ⟨i, mem, used, offset⟩ => ⟨i, ⟨mem, used⟩, (chain.offset_iff mem).mp offset⟩⟩

theorem Chained.mem_freeHeaders (chain : Chained b sentinel prev h blocks) {g : Nat} :
    g ∈ freeHeaders blocks ↔ ∃ i ∈ blocks, i.isFree = true ∧ i.pointer.offset = g + headerSize := by
  simp only [freeHeaders, List.mem_map, List.mem_filter]
  exact ⟨fun ⟨i, ⟨mem, free⟩, header⟩ => ⟨i, mem, free, (chain.offset_iff mem).mpr header⟩,
    fun ⟨i, mem, free, offset⟩ => ⟨i, ⟨mem, free⟩, (chain.offset_iff mem).mp offset⟩⟩

theorem Chained.ascending (chain : Chained b sentinel prev h blocks) :
    (blocks.map BlockInfo.header).Pairwise (· < ·) := by
  induction blocks generalizing prev h with
  | nil => exact .nil
  | cons i rest ih =>
    have behind := chain.2.2.2.2.2.2
    have header : i.header = h := by rw [BlockInfo.header, chain.1, Nat.add_sub_cancel]
    refine List.pairwise_cons.mpr ⟨fun g mem => ?_, ih behind⟩
    obtain ⟨j, memj, rfl⟩ := List.mem_map.mp mem
    obtain ⟨-, -, -, low, -⟩ := behind.block memj
    simp only [headerSize] at low
    omega

theorem Chained.filter_nodup (chain : Chained b sentinel prev h blocks) (keep : BlockInfo → Bool) :
    ((blocks.filter keep).map BlockInfo.header).Nodup :=
  (chain.ascending.sublist (List.filter_sublist.map _)).imp Nat.ne_of_lt

theorem Chained.eq_of_header_eq (chain : Chained b sentinel prev h blocks) {j : BlockInfo}
    (memi : i ∈ blocks) (memj : j ∈ blocks) (same : i.header = j.header) : i = j :=
  List.inj_on_of_nodup_map (chain.ascending.imp Nat.ne_of_lt) memi memj same

theorem usedHeaders_cons (i : BlockInfo) (rest : List BlockInfo) : usedHeaders (i :: rest) =
    if i.isFree then usedHeaders rest else i.header :: usedHeaders rest := by
  cases free : i.isFree <;> simp [usedHeaders, free]

theorem freeHeaders_cons (i : BlockInfo) (rest : List BlockInfo) : freeHeaders (i :: rest) =
    if i.isFree then i.header :: freeHeaders rest else freeHeaders rest := by
  cases free : i.isFree <;> simp [freeHeaders, free]

theorem Chained.walk (chain : Chained b sentinel prev h blocks) :
    Pool.walkFrom b h = .ok blocks := by
  induction blocks generalizing prev h with
  | nil =>
    obtain ⟨w, read, empty, -⟩ := chain.2.word
    exact walkFrom_stop read empty
  | cons i rest ih =>
    obtain ⟨offset, -, least, -, tells, -, behind⟩ := chain
    obtain ⟨w, read, size, free, -⟩ := tells.word
    have here : Pointer.ofOffset (h + headerSize) = i.pointer := (Pool.eq_pointer_of_offset offset).symm
    simp only [minPayload] at least
    rw [walkFrom_next read (by omega), size, ih behind, Checked.ok_bind, Checked.pure_eq, free, here]

end Chains

namespace Pool

variable {p : Pool} {h used listed : Nat} {free : Option Nat} {w : SizeWord} {blocks : List BlockInfo}

/-- What an integrity check relies on: a pool inside its buffer, and no row
bits past the last row. The bytes may be any. -/
structure Bounded (p : Pool) : Prop where
  aligned : p.layout.firstBlock % 8 = 0
  inside : p.layout.sentinel + 8 ≤ p.layout.regionEnd
  region : p.layout.regionEnd ≤ p.buffer.size
  low : p.layout.regionEnd < UInt32.size
  span : p.layout.sentinel < p.layout.firstBlock + 8 + payloadLimit
  blank : ∀ fl ≥ 24, p.arena.index.rows.getLsbD fl = false

theorem Sound.bounded {n : Nat} {cells : List Cell} {lists : SizeClass → List Nat}
    (sound : p.Sound n cells lists) : p.Bounded :=
  ⟨sound.holds.aligned, sound.inside, sound.region, sound.low, sound.holds.span,
    sound.holds.mirror.blank⟩

theorem tagDamage?_none_iff : p.tagDamage? h w free = .ok none ↔
    w.isPrevFree = free.isSome ∧ ∀ q ∈ free, Block.prevPhysical p.buffer h = .ok q := by
  unfold tagDamage?
  by_cases tag : w.isPrevFree = free.isSome
  · cases free with
    | none => simp [tag]
    | some q =>
      cases back : Block.prevPhysical p.buffer h with
      | error e => simp [tag]
      | ok g => by_cases same : g = q <;> simp [tag, same]
  · simp [tag]

theorem blockDamage?_none_iff {prevFree : Bool} : p.blockDamage? h w prevFree = none ↔
    (w.size = 0 ∧ h = p.layout.sentinel ∧ w.isFree = false) ∨
      (w.size ≠ 0 ∧ minPayload ≤ w.size ∧ w.size % alignment = 0 ∧
        (w.isFree = true → prevFree = false) ∧ (w.isFree = false → h ∈ p.arena.live)) := by
  unfold blockDamage?
  by_cases empty : w.size = 0
  · by_cases last : h = p.layout.sentinel <;> simp [empty, last]
  · by_cases regular : w.size < minPayload ∨ w.size % alignment ≠ 0
    · rw [if_neg empty, if_pos regular]
      simp only [reduceCtorEq, false_iff]
      omega
    · have least : 16 ≤ w.size := by
        simp only [minPayload] at regular
        omega
      have granular : w.size % 8 = 0 := by
        simp only [alignment] at regular
        omega
      rw [if_neg empty, if_neg regular]
      cases w.isFree <;> simp [empty, least, granular]

theorem surveyFrom_clear (inside : h + headerSize ≤ p.layout.regionEnd)
    (read : Block.word p.buffer h = .ok w) (tags : p.tagDamage? h w free = .ok none)
    (whole : p.blockDamage? h w free.isSome = none) :
    p.surveyFrom h free used listed =
      if w.size = 0 then .ok (.ok (used, listed))
      else if w.isFree then p.surveyFrom (h + headerSize + w.size) (some h) used (listed + 1)
      else p.surveyFrom (h + headerSize + w.size) none (used + 1) listed := by
  rw [surveyFrom, dif_pos inside, read, Checked.ok_bind, tags, Checked.ok_bind, whole]
  rfl

theorem of_surveyFrom {found : Nat × Nat} (run : p.surveyFrom h free used listed = .ok (.ok found)) :
    h + headerSize ≤ p.layout.regionEnd ∧ ∃ w, Block.word p.buffer h = .ok w ∧
      p.tagDamage? h w free = .ok none ∧ p.blockDamage? h w free.isSome = none := by
  rw [surveyFrom] at run
  split at run
  · rename_i inside
    obtain ⟨w, read, run⟩ := Checked.of_bind run
    obtain ⟨tagged, tags, run⟩ := Checked.of_bind run
    cases tagged with
    | some d => cases run
    | none =>
      cases whole : p.blockDamage? h w free.isSome with
      | some d =>
        simp only [whole] at run
        cases run
      | none => exact ⟨inside, w, read, tags, whole⟩
  · cases run

theorem exists_info {size : Nat} {isFree : Bool} (fits : h + headerSize < UInt32.size) :
    ∃ i : BlockInfo, i.pointer.offset = h + headerSize ∧ i.size = size ∧ i.isFree = isFree := by
  refine ⟨⟨.ofOffset (h + headerSize), size, isFree⟩, ?_, rfl, rfl⟩
  simp only [Pointer.ofOffset, Pointer.offset, UInt32.toNat_ofNat', Nat.mod_eq_of_lt fits]

theorem chained_of_surveyFrom (bounded : p.Bounded) (aligned : h % 8 = 0) {u f : Nat}
    (run : p.surveyFrom h free used listed = .ok (.ok (u, f))) :
    ∃ blocks, Chained p.buffer p.layout.sentinel free h blocks ∧
      usedHeaders blocks ⊆ p.arena.live.toList ∧
      u = used + (usedHeaders blocks).length ∧ f = listed + (freeHeaders blocks).length := by
  -- every block takes up bytes of the region, so that less of it is left behind one
  induction left : p.layout.regionEnd - h using Nat.strongRecOn generalizing h free used listed with
  | ind k ih =>
    obtain ⟨inside, w, read, tags, whole⟩ := of_surveyFrom run
    rw [surveyFrom_clear inside read tags whole] at run
    obtain ⟨tag, back⟩ := tagDamage?_none_iff.mp tags
    have tells : HeaderTells p.buffer h w.size w.isFree free := .of_word read tag back
    have low := bounded.low
    simp only [headerSize] at inside
    rcases blockDamage?_none_iff.mp whole with ⟨empty, last, used_⟩ | ⟨some_, least, granular, apart, live⟩
    · rw [if_pos empty] at run
      rw [empty, used_] at tells
      obtain ⟨rfl, rfl⟩ : used = u ∧ listed = f := by simpa using run
      exact ⟨[], ⟨last, tells⟩, by simp [usedHeaders], rfl, rfl⟩
    · rw [if_neg some_] at run
      obtain ⟨i, offset, size, isFree⟩ : ∃ i : BlockInfo, i.pointer.offset = h + headerSize ∧
          i.size = w.size ∧ i.isFree = w.isFree := exists_info (by
        simp only [headerSize]
        omega)
      rw [← size] at tells least granular run
      rw [← isFree] at tells apart live run
      have even : (h + headerSize + i.size) % 8 = 0 := by
        simp only [headerSize, alignment] at granular ⊢
        omega
      have shorter : p.layout.regionEnd - (h + headerSize + i.size) < k := by
        simp only [headerSize]
        omega
      have chain : ∀ rest, Chained p.buffer p.layout.sentinel (if i.isFree then some h else none)
          (h + headerSize + i.size) rest →
          Chained p.buffer p.layout.sentinel free h (i :: rest) := fun rest behind =>
        ⟨offset, aligned, least, granular, tells, fun isFree => by simpa using apart isFree, behind⟩
      cases isFree : i.isFree with
      | true =>
        rw [isFree, if_pos rfl] at run chain
        obtain ⟨rest, behind, handed, rfl, rfl⟩ := ih _ shorter even run rfl
        refine ⟨i :: rest, chain rest behind, ?_, ?_, ?_⟩
        · rwa [usedHeaders_cons, if_pos isFree]
        · rw [usedHeaders_cons, if_pos isFree]
        · rw [freeHeaders_cons, if_pos isFree, List.length_cons, Nat.add_assoc, Nat.add_comm 1]
      | false =>
        have here : i.header ∈ p.arena.live.toList := by
          rw [BlockInfo.header, offset, Nat.add_sub_cancel]
          exact Std.ExtTreeSet.mem_toList.mpr (live isFree)
        rw [isFree, if_neg Bool.false_ne_true] at run chain
        obtain ⟨rest, behind, handed, rfl, rfl⟩ := ih _ shorter even run rfl
        have shown : usedHeaders (i :: rest) = i.header :: usedHeaders rest := by
          rw [usedHeaders_cons, isFree, if_neg Bool.false_ne_true]
        refine ⟨i :: rest, chain rest behind, ?_, ?_, ?_⟩
        · rw [shown]
          exact List.cons_subset.mpr ⟨here, handed⟩
        · rw [shown, List.length_cons, Nat.add_assoc, Nat.add_comm 1]
        · rw [freeHeaders_cons, isFree, if_neg Bool.false_ne_true]

theorem surveyFrom_chained (inside : p.layout.sentinel + 8 ≤ p.layout.regionEnd)
    (chain : Chained p.buffer p.layout.sentinel free h blocks)
    (handed : ∀ g ∈ usedHeaders blocks, g ∈ p.arena.live) :
    p.surveyFrom h free used listed =
      .ok (.ok (used + (usedHeaders blocks).length, listed + (freeHeaders blocks).length)) := by
  have room : h + headerSize ≤ p.layout.regionEnd := by
    have le := chain.le
    simp only [headerSize]
    omega
  induction blocks generalizing h free used listed with
  | nil =>
    obtain ⟨last, tells⟩ := chain
    obtain ⟨w, read, empty, used_, tag⟩ := tells.word
    have whole : p.blockDamage? h w free.isSome = none :=
      blockDamage?_none_iff.mpr (.inl ⟨empty, last, used_⟩)
    rw [surveyFrom_clear room read (tagDamage?_none_iff.mpr ⟨tag, tells.back⟩) whole, if_pos empty]
    rfl
  | cons i rest ih =>
    obtain ⟨offset, -, least, granular, tells, apart, behind⟩ := chain
    obtain ⟨w, read, size, isFree, tag⟩ := tells.word
    have header : i.header = h := by rw [BlockInfo.header, offset, Nat.add_sub_cancel]
    have some_ : w.size ≠ 0 := by
      simp only [minPayload] at least
      omega
    have next : h + headerSize + i.size + headerSize ≤ p.layout.regionEnd := by
      have le := behind.le
      simp only [headerSize] at le ⊢
      omega
    rw [usedHeaders_cons] at handed
    -- `handed` speaks of the block only if it is used
    have live : w.isFree = false → h ∈ p.arena.live := by
      intro used_
      rw [isFree] at used_
      simp only [used_, Bool.false_eq_true, if_false] at handed
      exact header ▸ handed _ (List.mem_cons_self ..)
    have whole : p.blockDamage? h w free.isSome = none :=
      blockDamage?_none_iff.mpr (.inr ⟨some_, size ▸ least, size ▸ granular,
        fun isFree' => by rw [apart (isFree ▸ isFree')]; rfl, live⟩)
    rw [surveyFrom_clear room read (tagDamage?_none_iff.mpr ⟨tag, tells.back⟩) whole, if_neg some_,
      size, isFree, usedHeaders_cons, freeHeaders_cons]
    cases isFree_ : i.isFree with
    | true =>
      rw [isFree_, if_pos rfl] at handed behind
      simp only [if_true]
      rw [ih behind handed next, List.length_cons, Nat.add_assoc listed, Nat.add_comm 1]
    | false =>
      rw [isFree_, if_neg Bool.false_ne_true] at handed behind
      simp only [Bool.false_eq_true, if_false]
      rw [ih behind (fun g mem => handed g (List.mem_cons_of_mem _ mem)) next, List.length_cons,
        Nat.add_assoc used, Nat.add_comm 1]

structure Surveyed (p : Pool) (blocks : List BlockInfo) : Prop where
  chained : Chained p.buffer p.layout.sentinel none p.layout.firstBlock blocks
  live : ∀ h, h ∈ p.arena.live ↔ h ∈ usedHeaders blocks

/-- As many different headers as are handed out are all of them. -/
theorem live_iff_of_count {l : List Nat} (nodup : l.Nodup) (sub : l ⊆ p.arena.live.toList)
    (count : l.length = p.arena.live.size) (h : Nat) : h ∈ p.arena.live ↔ h ∈ l := by
  have perm : l.Perm p.arena.live.toList := by
    refine (List.subperm_of_subset nodup sub).perm_of_length_le ?_
    rw [Std.ExtTreeSet.length_toList, count]
  rw [← Std.ExtTreeSet.mem_toList, perm.mem_iff]

theorem count_of_live_iff {l : List Nat} (nodup : l.Nodup)
    (same : ∀ h, h ∈ p.arena.live ↔ h ∈ l) : l.length = p.arena.live.size := by
  have distinct : p.arena.live.toList.Nodup :=
    p.arena.live.distinct_toList.imp fun different same => different (Std.compare_eq_iff_eq.mpr same)
  rw [← Std.ExtTreeSet.length_toList]
  refine ((List.perm_ext_iff_of_nodup nodup distinct).mpr fun h => ?_).length_eq
  rw [Std.ExtTreeSet.mem_toList, same h]

theorem survey_eq_iff (bounded : p.Bounded) (count : Nat) : p.survey = .ok (.ok count) ↔
    ∃ blocks, p.Surveyed blocks ∧ count = (freeHeaders blocks).length := by
  constructor
  · intro run
    obtain ⟨⟨u, f⟩, found, run⟩ := Checked.of_guarded run fun _ => rfl
    obtain ⟨blocks, chain, handed, rfl, rfl⟩ := chained_of_surveyFrom bounded bounded.aligned found
    simp only [Nat.zero_add] at run
    by_cases all : (usedHeaders blocks).length = p.arena.live.size
    · rw [if_neg (not_not.mpr all)] at run
      cases run
      exact ⟨blocks, ⟨chain, live_iff_of_count (chain.filter_nodup _) handed all⟩, rfl⟩
    · rw [if_pos all] at run
      cases run
  · rintro ⟨blocks, ⟨chain, live⟩, rfl⟩
    have all := count_of_live_iff (chain.filter_nodup _) live
    have run : p.surveyFrom p.layout.firstBlock none 0 0 =
        .ok (.ok (0 + (usedHeaders blocks).length, 0 + (freeHeaders blocks).length)) :=
      surveyFrom_chained bounded.inside chain fun g mem => (live g).mpr mem
    simp only [survey, run, Nat.zero_add, Checked.ok_bind, Checked.pure_eq]
    exact if_neg (not_not.mpr all)

end Pool

end Tlsf
