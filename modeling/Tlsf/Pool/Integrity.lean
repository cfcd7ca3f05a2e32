import Tlsf.Pool

/-!
The integrity check of a pool. `survey` follows the blocks from the first one
to the sentinel and compares tags, back pointers, sizes and the headers that
are handed out. `checkLists` then follows every free list with the number of
free blocks as its budget, so that it ends on cyclic lists too. The first
damage that is met is the answer.
-/

namespace Tlsf.Pool

open Dimensions

/-- What is wrong between a block and its predecessor; `free` is the
predecessor's header if that is free. -/
def tagDamage? (p : Pool) (h : Nat) (w : SizeWord) (free : Option Nat) : Checked (Option Damage) :=
  if w.isPrevFree ≠ free.isSome then pure (some (.prevFreeTag h w.isPrevFree))
  else match free with
    | none => pure none
    | some prev => do
      if (← Block.prevPhysical p.buffer h) ≠ prev then pure (some (.backPointer h prev))
      else pure none

def blockDamage? (p : Pool) (h : Nat) (w : SizeWord) (prevFree : Bool) : Option Damage :=
  if w.size = 0 then
    if h ≠ p.layout.sentinel then some (.emptyBlock h)
    else if w.isFree then some .freeSentinel
    else none
  else if w.size < minPayload ∨ w.size % alignment ≠ 0 then some (.invalidSize h w.size)
  else if w.isFree then if prevFree then some (.adjacentFree h) else none
  else if h ∉ p.arena.live then some (.neverHandedOut h)
  else none

/-- The numbers of used and free blocks from `h` on, added to those before. -/
def surveyFrom (p : Pool) (h : Nat) (free : Option Nat) (used listed : Nat) :
    Checked (Except Damage (Nat × Nat)) :=
  if _inside : h + headerSize ≤ p.layout.regionEnd then do
    let w ← Block.word p.buffer h
    match ← p.tagDamage? h w free with
    | some d => pure (.error d)
    | none =>
      match p.blockDamage? h w free.isSome with
      | some d => pure (.error d)
      | none =>
        if w.size = 0 then pure (.ok (used, listed))
        else if w.isFree then
          p.surveyFrom (h + headerSize + w.size) (some h) used (listed + 1)
        else
          p.surveyFrom (h + headerSize + w.size) none (used + 1) listed
  else pure (.error (.pastRegionEnd h))
termination_by p.layout.regionEnd - h
decreasing_by all_goals simp only [headerSize] at *; omega

/-- The number of free blocks, if the blocks tile the pool and the used ones
are those that are handed out. -/
def survey (p : Pool) : Checked (Except Damage Nat) := do
  match ← p.surveyFrom p.layout.firstBlock none 0 0 with
  | .error d => pure (.error d)
  | .ok (used, free) =>
    if used ≠ p.arena.live.size then pure (.error (.usedCount used p.arena.live.size))
    else pure (.ok free)

def linkOutside (p : Pool) (h : Nat) : Bool :=
  h < p.layout.firstBlock || p.layout.sentinel < h + headerSize + minPayload

/-- What is wrong with a block on the list of class `c` behind the block
`back`. -/
def listedDamage? (p : Pool) (c : SizeClass) (back : Option Nat) (h : Nat) :
    Checked (Option Damage) := do
  if !(← Block.isFree p.buffer h) then pure (some (.usedBlockListed h))
  else if SizeClass.ofSize (← Block.size p.buffer h) ≠ c then pure (some (.wrongClass h c.fl c.sl))
  else if (← Block.prevLink p.buffer h) ≠ back then pure (some (.backLink h))
  else pure none

/-- Follows a list from `current`; answers what is left of the budget. -/
def followList (p : Pool) (c : SizeClass) :
    (budget : Nat) → (back current : Option Nat) → Checked (Except Damage Nat)
  | budget, _, none => pure (.ok budget)
  | 0, _, some h => pure (.error (if p.linkOutside h then .linkOutside h else .overfullLists))
  | budget + 1, back, some h =>
    if p.linkOutside h then pure (.error (.linkOutside h))
    else do
      match ← p.listedDamage? c back h with
      | some d => pure (.error d)
      | none => p.followList c budget (some h) (← Block.nextLink p.buffer h)

def checkSlots (p : Pool) (fl : Nat) : List Nat → (budget : Nat) → Checked (Except Damage Nat)
  | [], budget => pure (.ok budget)
  | sl :: rest, budget => do
    let bits ← Checked.ofOption p.arena.index.slots[fl]?
    let head ← p.arena.index.head ⟨fl, sl⟩
    if bits.getLsbD sl ≠ head.isSome then pure (.error (.slotBit fl sl))
    else
      match ← p.followList ⟨fl, sl⟩ budget none head with
      | .error d => pure (.error d)
      | .ok budget => p.checkSlots fl rest budget

def checkRows (p : Pool) : List Nat → (budget : Nat) → Checked (Except Damage Nat)
  | [], budget => pure (.ok budget)
  | fl :: rest, budget => do
    let bits ← Checked.ofOption p.arena.index.slots[fl]?
    if p.arena.index.rows.getLsbD fl ≠ decide (bits ≠ 0) then pure (.error (.rowBit fl))
    else
      match ← p.checkSlots fl (List.range slotCount) budget with
      | .error d => pure (.error d)
      | .ok budget => p.checkRows rest budget

def checkLists (p : Pool) (free : Nat) : Checked (Except Damage Unit) := do
  match ← p.checkRows (List.range rowCount) free with
  | .error d => pure (.error d)
  | .ok 0 => pure (.ok ())
  | .ok left => pure (.error (.listedCount free (free - left)))

def check (p : Pool) : Checked (Except Error Unit) := do
  match ← p.survey with
  | .error d => pure (.error (.corrupted d))
  | .ok free =>
    match ← p.checkLists free with
    | .error d => pure (.error (.corrupted d))
    | .ok () => pure (.ok ())

end Tlsf.Pool
