import Tlsf.Proofs.Surveys

/-!
The second half of an integrity check. Following a list ends because every
block takes one off the budget; where it finds no damage, the list is linked
both ways and each of its blocks looks like a free block of the class, inside
the pool. Whether the block is one that the survey met is not asked: only the
numbers of blocks are compared.

`allListed` are the blocks of all lists, row by row as they are followed.
-/

namespace Tlsf

open Dimensions Buffer

section Linked

variable {b : Buffer} {back : Option Nat} {l : List Nat}

theorem DoublyLinked.prevLink_eq (linked : DoublyLinked b back l) {k h : Nat} (here : l[k]? = some h) :
    Block.prevLink b h = .ok (if k = 0 then back else l[k - 1]?) := by
  induction l generalizing back k with
  | nil => simp at here
  | cons g rest ih =>
    obtain ⟨-, first, behind⟩ := linked
    cases k with
    | zero =>
      obtain rfl : g = h := by simpa using here
      exact first
    | succ k =>
      rw [List.getElem?_cons_succ] at here
      rw [ih behind here]
      cases k <;> simp

theorem DoublyLinked.nodup (linked : DoublyLinked b none l) : l.Nodup := by
  have once : ∀ i j h : Nat, l[i]? = some h → l[j]? = some h → i = j := by
    intro i
    -- what stands in two places links back to one block, which stands before both
    induction i with
    | zero =>
      intro j h here there
      have start := linked.prevLink_eq here
      rw [linked.prevLink_eq there] at start
      cases j with
      | zero => rfl
      | succ j =>
        have bound := (List.getElem?_eq_some_iff.mp there).1
        have inside : j < l.length := by omega
        simp [List.getElem?_eq_getElem inside] at start
    | succ i ih =>
      intro j h here there
      have bound := (List.getElem?_eq_some_iff.mp here).1
      have inside : i < l.length := by omega
      have before := linked.prevLink_eq here
      rw [linked.prevLink_eq there] at before
      cases j with
      | zero => simp [List.getElem?_eq_getElem inside] at before
      | succ j =>
        have same : l[j]? = l[i]? := by simpa using before
        rw [List.getElem?_eq_getElem inside] at same
        rw [ih j _ (List.getElem?_eq_getElem inside) same]
  refine List.nodup_iff_getElem?_ne_getElem?.mpr fun i j less bound same => ?_
  have earlier : i < l.length := by omega
  rw [List.getElem?_eq_getElem earlier] at same
  exact absurd (once i j _ (List.getElem?_eq_getElem earlier) same.symm) (Nat.ne_of_lt less)

end Linked

namespace Pool

variable {p : Pool} {c : SizeClass} {back : Option Nat} {h budget left fl : Nat}

structure Entry (p : Pool) (c : SizeClass) (h : Nat) : Prop where
  low : p.layout.firstBlock ≤ h
  high : h + headerSize + minPayload ≤ p.layout.sentinel
  free : Block.isFree p.buffer h = .ok true
  filed : ∃ size, Block.size p.buffer h = .ok size ∧ SizeClass.ofSize size = c

theorem linkOutside_eq_false_iff : p.linkOutside h = false ↔
    p.layout.firstBlock ≤ h ∧ h + headerSize + minPayload ≤ p.layout.sentinel := by
  simp only [linkOutside, Bool.or_eq_false_iff, decide_eq_false_iff_not, Nat.not_lt]

theorem listedDamage?_none_iff : p.listedDamage? c back h = .ok none ↔
    Block.isFree p.buffer h = .ok true ∧
      (∃ size, Block.size p.buffer h = .ok size ∧ SizeClass.ofSize size = c) ∧
      Block.prevLink p.buffer h = .ok back := by
  unfold listedDamage?
  cases free : Block.isFree p.buffer h with
  | error e => simp
  | ok isFree =>
    cases isFree with
    | false => simp
    | true =>
      cases sized : Block.size p.buffer h with
      | error e => simp
      | ok size =>
        by_cases same : SizeClass.ofSize size = c
        · cases linked : Block.prevLink p.buffer h with
          | error e => simp [same]
          | ok found => by_cases agrees : found = back <;> simp [same, agrees]
        · simp [same]

theorem of_followList {current : Option Nat}
    (run : p.followList c budget back current = .ok (.ok left)) :
    ∃ l, current = l.head? ∧ DoublyLinked p.buffer back l ∧ (∀ h ∈ l, p.Entry c h) ∧
      l.length + left = budget := by
  induction budget generalizing back current with
  | zero =>
    cases current with
    | none =>
      obtain rfl : 0 = left := by simpa [followList] using run
      exact ⟨[], rfl, trivial, fun h mem => (nomatch mem), rfl⟩
    | some h => simp [followList] at run
  | succ budget ih =>
    cases current with
    | none =>
      obtain rfl : budget + 1 = left := by simpa [followList] using run
      exact ⟨[], rfl, trivial, fun h mem => (nomatch mem), Nat.zero_add _⟩
    | some h =>
      cases outside : p.linkOutside h with
      | true => simp [followList, outside] at run
      | false =>
        obtain ⟨low, high⟩ := linkOutside_eq_false_iff.mp outside
        simp only [followList, outside, Bool.false_eq_true, if_false] at run
        obtain ⟨found, damage, run⟩ := Checked.of_bind run
        cases found with
        | some d => cases run
        | none =>
          obtain ⟨free, filed, linked⟩ := listedDamage?_none_iff.mp damage
          obtain ⟨next, forward, run⟩ := Checked.of_bind run
          obtain ⟨l, rfl, behind, entries, length⟩ := ih run
          refine ⟨h :: l, rfl, ⟨forward, linked, behind⟩,
            List.forall_mem_cons.mpr ⟨⟨low, high, free, filed⟩, entries⟩, ?_⟩
          rw [List.length_cons]
          omega

theorem followList_linked {l : List Nat} (linked : DoublyLinked p.buffer back l)
    (entries : ∀ h ∈ l, p.Entry c h) (length : l.length + left = budget) :
    p.followList c budget back l.head? = .ok (.ok left) := by
  induction l generalizing back budget with
  | nil =>
    obtain rfl : left = budget := by simpa using length
    cases left <;> rfl
  | cons h rest ih =>
    obtain ⟨forward, first, behind⟩ := linked
    obtain ⟨entry, entries⟩ := List.forall_mem_cons.mp entries
    have inside := linkOutside_eq_false_iff.mpr ⟨entry.low, entry.high⟩
    have whole := listedDamage?_none_iff.mpr ⟨entry.free, entry.filed, first⟩
    obtain ⟨budget, rfl⟩ : ∃ k, budget = k + 1 := ⟨rest.length + left, by
      rw [← length, List.length_cons]
      omega⟩
    have rest_ : p.followList c budget (some h) rest.head? = .ok (.ok left) := by
      rw [List.length_cons] at length
      exact ih behind entries (by omega)
    simp only [List.head?_cons, followList, inside, Bool.false_eq_true, if_false, whole, forward,
      rest_, Checked.ok_bind]

structure Filed (p : Pool) (c : SizeClass) (l : List Nat) : Prop where
  slot : ∃ bits, p.arena.index.slots[c.fl]? = some bits ∧ bits.getLsbD c.sl = l.head?.isSome
  head : p.arena.index.head c = .ok l.head?
  linked : DoublyLinked p.buffer none l
  entries : ∀ h ∈ l, p.Entry c h

def rowListed (lists : SizeClass → List Nat) (fl : Nat) (slots : List Nat) : List Nat :=
  slots.flatMap fun sl => lists ⟨fl, sl⟩

def rowsListed (lists : SizeClass → List Nat) (rows : List Nat) : List Nat :=
  rows.flatMap fun fl => rowListed lists fl (List.range slotCount)

theorem of_checkSlots {slots : List Nat} (distinct : slots.Nodup)
    (run : p.checkSlots fl slots budget = .ok (.ok left)) (lists : SizeClass → List Nat) :
    ∃ lists', (∀ c : SizeClass, c.fl ≠ fl ∨ c.sl ∉ slots → lists' c = lists c) ∧
      (∀ sl ∈ slots, p.Filed ⟨fl, sl⟩ (lists' ⟨fl, sl⟩)) ∧
      (rowListed lists' fl slots).length + left = budget := by
  induction slots generalizing budget lists with
  | nil =>
    obtain rfl : budget = left := by simpa [checkSlots] using run
    exact ⟨lists, fun _ _ => rfl, fun sl mem => (nomatch mem), Nat.zero_add _⟩
  | cons sl rest ih =>
    obtain ⟨fresh, distinct⟩ := List.nodup_cons.mp distinct
    obtain ⟨bits, word, run⟩ := Checked.of_bind run
    obtain ⟨head, first, run⟩ := Checked.of_bind run
    by_cases agrees : bits.getLsbD sl = head.isSome
    · rw [if_neg (not_not.mpr agrees)] at run
      obtain ⟨left₁, followed, later⟩ := Checked.of_guarded run fun _ => rfl
      obtain ⟨l, rfl, linked, entries, length⟩ := of_followList followed
      -- the later slots are other classes, so they keep the list that was followed here
      obtain ⟨lists', kept, filed, length'⟩ := ih distinct later (Function.update lists ⟨fl, sl⟩ l)
      have own : lists' ⟨fl, sl⟩ = l := by
        rw [kept ⟨fl, sl⟩ (.inr fresh), Function.update_self]
      refine ⟨lists', fun c other => ?_, List.forall_mem_cons.mpr ⟨?_, filed⟩, ?_⟩
      · have apart : c.fl ≠ fl ∨ c.sl ∉ rest := other.imp_right fun out mem =>
          out (List.mem_cons_of_mem sl mem)
        rw [kept c apart, Function.update_of_ne]
        rintro rfl
        rcases other with row | slot
        · exact row rfl
        · exact slot (List.mem_cons_self ..)
      · rw [own]
        exact ⟨⟨bits, Checked.of_ofOption word, agrees⟩, first, linked, entries⟩
      · rw [rowListed, List.flatMap_cons, own, List.length_append]
        rw [rowListed] at length'
        omega
    · rw [if_pos agrees] at run
      cases run

theorem checkSlots_filed {slots : List Nat} {lists : SizeClass → List Nat}
    (filed : ∀ sl ∈ slots, p.Filed ⟨fl, sl⟩ (lists ⟨fl, sl⟩))
    (length : (rowListed lists fl slots).length + left = budget) :
    p.checkSlots fl slots budget = .ok (.ok left) := by
  induction slots generalizing budget with
  | nil =>
    obtain rfl : left = budget := by simpa [rowListed] using length
    rfl
  | cons sl rest ih =>
    obtain ⟨⟨⟨bits, word, agrees⟩, first, linked, entries⟩, filed⟩ := List.forall_mem_cons.mp filed
    rw [rowListed, List.flatMap_cons, List.length_append, ← rowListed] at length
    have followed := followList_linked linked entries
      (show _ + ((rowListed lists fl rest).length + left) = budget by omega)
    have rest_ : p.checkSlots fl rest ((rowListed lists fl rest).length + left) = .ok (.ok left) :=
      ih filed rfl
    simp only at word agrees
    simp only [checkSlots, word, Checked.ofOption, first, agrees, followed, rest_, Checked.ok_bind,
      ne_eq, not_true_eq_false, if_false]

theorem of_checkRows {rows : List Nat} (distinct : rows.Nodup)
    (run : p.checkRows rows budget = .ok (.ok left)) (lists : SizeClass → List Nat) :
    ∃ lists', (∀ c : SizeClass, c.fl ∉ rows ∨ slotCount ≤ c.sl → lists' c = lists c) ∧
      (∀ fl ∈ rows, ∃ bits, p.arena.index.slots[fl]? = some bits ∧
        p.arena.index.rows.getLsbD fl = decide (bits ≠ 0) ∧
        ∀ sl < slotCount, p.Filed ⟨fl, sl⟩ (lists' ⟨fl, sl⟩)) ∧
      (rowsListed lists' rows).length + left = budget := by
  induction rows generalizing budget lists with
  | nil =>
    obtain rfl : budget = left := by simpa [checkRows] using run
    exact ⟨lists, fun _ _ => rfl, fun sl mem => (nomatch mem), Nat.zero_add _⟩
  | cons fl rest ih =>
    obtain ⟨fresh, distinct⟩ := List.nodup_cons.mp distinct
    obtain ⟨bits, word, run⟩ := Checked.of_bind run
    by_cases agrees : p.arena.index.rows.getLsbD fl = decide (bits ≠ 0)
    · rw [if_neg (not_not.mpr agrees)] at run
      obtain ⟨left₁, scanned, run⟩ := Checked.of_guarded run fun _ => rfl
      obtain ⟨lists₁, kept₁, filed₁, length₁⟩ := of_checkSlots List.nodup_range scanned lists
      obtain ⟨lists', kept, filed, length⟩ := ih distinct run lists₁
      have own : ∀ sl, lists' ⟨fl, sl⟩ = lists₁ ⟨fl, sl⟩ := fun sl => kept ⟨fl, sl⟩ (.inl fresh)
      refine ⟨lists', fun c other => ?_, List.forall_mem_cons.mpr ⟨?_, filed⟩, ?_⟩
      · rw [kept c (other.imp_left fun out mem => out (List.mem_cons_of_mem fl mem))]
        refine kept₁ c (other.imp (fun out same => ?_) fun high mem => ?_)
        · exact out (same ▸ List.mem_cons_self ..)
        · exact absurd (List.mem_range.mp mem) (Nat.not_lt.mpr high)
      · refine ⟨bits, Checked.of_ofOption word, agrees, fun sl slot => ?_⟩
        rw [own sl]
        exact filed₁ sl (List.mem_range.mpr slot)
      · have row : rowListed lists' fl (List.range slotCount) =
            rowListed lists₁ fl (List.range slotCount) := by
          simp only [rowListed, own]
        rw [rowsListed, List.flatMap_cons, row, List.length_append]
        rw [rowsListed] at length
        omega
    · rw [if_pos agrees] at run
      cases run

theorem checkRows_filed {rows : List Nat} {lists : SizeClass → List Nat}
    (filed : ∀ fl ∈ rows, ∃ bits, p.arena.index.slots[fl]? = some bits ∧
      p.arena.index.rows.getLsbD fl = decide (bits ≠ 0) ∧
      ∀ sl < slotCount, p.Filed ⟨fl, sl⟩ (lists ⟨fl, sl⟩))
    (length : (rowsListed lists rows).length + left = budget) :
    p.checkRows rows budget = .ok (.ok left) := by
  induction rows generalizing budget with
  | nil =>
    obtain rfl : left = budget := by simpa [rowsListed] using length
    rfl
  | cons fl rest ih =>
    obtain ⟨⟨bits, word, agrees, slots⟩, filed⟩ := List.forall_mem_cons.mp filed
    rw [rowsListed, List.flatMap_cons, List.length_append, ← rowsListed] at length
    have scanned := checkSlots_filed (fun sl mem => slots sl (List.mem_range.mp mem))
      (show _ + ((rowsListed lists rest).length + left) = budget by omega)
    have rest_ : p.checkRows rest ((rowsListed lists rest).length + left) = .ok (.ok left) :=
      ih filed rfl
    simp only [checkRows, word, Checked.ofOption, agrees, scanned, rest_, Checked.ok_bind, ne_eq,
      not_true_eq_false, if_false]

def allListed (lists : SizeClass → List Nat) : List Nat := rowsListed lists (List.range rowCount)

theorem mem_allListed {lists : SizeClass → List Nat} :
    h ∈ allListed lists ↔ ∃ c : SizeClass, c.Inside ∧ h ∈ lists c := by
  simp only [allListed, rowsListed, rowListed, List.mem_flatMap, List.mem_range, rowCount, slotCount]
  constructor
  · rintro ⟨fl, row, sl, slot, mem⟩
    exact ⟨⟨fl, sl⟩, ⟨row, slot⟩, mem⟩
  · rintro ⟨⟨fl, sl⟩, ⟨row, slot⟩, mem⟩
    exact ⟨fl, row, sl, slot, mem⟩

theorem allListed_nodup {lists : SizeClass → List Nat} (once : ∀ c, (lists c).Nodup)
    (apart : ∀ c d h, h ∈ lists c → h ∈ lists d → c = d) : (allListed lists).Nodup := by
  have row : ∀ fl, (rowListed lists fl (List.range slotCount)).Nodup := by
    intro fl
    refine List.nodup_flatMap.mpr ⟨fun sl _ => once _, List.nodup_range.imp fun {s t} other h here there => ?_⟩
    exact other (congrArg SizeClass.sl (apart _ _ h here there))
  refine List.nodup_flatMap.mpr ⟨fun fl _ => row fl, List.nodup_range.imp fun {f g} other h here there => ?_⟩
  obtain ⟨s, -, mem⟩ := List.mem_flatMap.mp here
  obtain ⟨t, -, mem'⟩ := List.mem_flatMap.mp there
  exact other (congrArg SizeClass.fl (apart _ _ h mem mem'))

/-- What a check finds in order about all lists. -/
structure Filing (p : Pool) (lists : SizeClass → List Nat) : Prop where
  filed : ∀ c, c.Inside → p.Filed c (lists c)
  rows : ∀ fl (h : fl < 24), p.arena.index.rows.getLsbD fl = decide (p.arena.index.slots[fl] ≠ 0)
  blank : ∀ c : SizeClass, ¬ c.Inside → lists c = []

theorem checkLists_eq_iff (count : Nat) : p.checkLists count = .ok (.ok ()) ↔
    ∃ lists, p.Filing lists ∧ (allListed lists).length = count := by
  constructor
  · intro run
    obtain ⟨found, scanned, run⟩ := Checked.of_bind run
    match found with
    | .error d => cases run
    | .ok (left + 1) => cases run
    | .ok 0 =>
      obtain ⟨lists, kept, filed, length⟩ := of_checkRows List.nodup_range scanned fun _ => []
      refine ⟨lists, ⟨fun c inside => ?_, fun fl row => ?_, fun c outside => ?_⟩, length⟩
      · obtain ⟨-, -, -, slots⟩ := filed c.fl (List.mem_range.mpr inside.row)
        exact slots c.sl inside.slot
      · obtain ⟨bits, word, agrees, -⟩ := filed fl (List.mem_range.mpr row)
        obtain ⟨_, rfl⟩ := Vector.getElem?_eq_some_iff.mp word
        exact agrees
      · refine kept c ?_
        by_contra inside
        simp only [List.mem_range, not_or, not_not, Nat.not_le] at inside
        exact outside ⟨inside.1, inside.2⟩
  · rintro ⟨lists, ⟨filed, rows, -⟩, length⟩
    have scanned : p.checkRows (List.range rowCount) count = .ok (.ok 0) := by
      have whole : (rowsListed lists (List.range rowCount)).length + 0 = count := length
      refine checkRows_filed (fun fl mem => ?_) whole
      have row : fl < 24 := List.mem_range.mp mem
      exact ⟨_, Vector.getElem?_eq_getElem row, rows fl row, fun sl slot => filed ⟨fl, sl⟩ ⟨row, slot⟩⟩
    simp only [checkLists, scanned, Checked.ok_bind, Checked.pure_eq]

end Pool

end Tlsf
