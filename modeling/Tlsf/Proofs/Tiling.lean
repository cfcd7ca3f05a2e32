import Tlsf.Proofs.Footprint

/-!
The blocks of a pool as a list of cells in address order. `Tiles lo cells hi`
is geometry alone: the cells fill `[lo, hi)` without gaps, and each has a
regular size. `Tags b prev cells` is what the buffer says: every header holds
the cell's size and free bit, and knows whether the cell before it is free.

A free cell is `filed` while a free list holds it and `loose` in between, so
the steps of an operation are changes of a few neighbouring cells. The header
that ends the pool is a cell of size zero for `Tags`, and none for `Tiles`.
-/

namespace Tlsf

open Dimensions

inductive Status where
  | used
  | loose
  | filed
deriving DecidableEq

structure Cell where
  header : Nat
  size : Nat
  status : Status
deriving DecidableEq

namespace Cell

def isFree (x : Cell) : Bool := x.status != .used

def stop (x : Cell) : Nat := x.header + headerSize + x.size

/-- What the block behind this one knows of it: its header, if it is free. -/
def freeHeader? (x : Cell) : Option Nat := if x.isFree then some x.header else none

def sentinel (h : Nat) : Cell := ⟨h, 0, .used⟩

def turn (x : Cell) (status : Status) : Cell := { x with status }

/-- The block cut down to `size` bytes, and the block that its rest makes. -/
def front (x : Cell) (size : Nat) : Cell := { x with size }

def tail (x : Cell) (size : Nat) : Cell :=
  ⟨x.header + headerSize + size, x.size - (size + headerSize), .loose⟩

def join (x y : Cell) : Cell := { x with size := x.size + y.size + headerSize }

structure Regular (x : Cell) : Prop where
  minimum : 16 ≤ x.size
  granular : x.size % 8 = 0

theorem stop_eq (x : Cell) : x.stop = x.header + 8 + x.size := rfl

@[simp] theorem sentinel_header (h : Nat) : (sentinel h).header = h := rfl

@[simp] theorem sentinel_status (h : Nat) : (sentinel h).status = .used := rfl

@[simp] theorem turn_header (x : Cell) (st : Status) : (x.turn st).header = x.header := rfl

@[simp] theorem turn_size (x : Cell) (st : Status) : (x.turn st).size = x.size := rfl

@[simp] theorem turn_status (x : Cell) (st : Status) : (x.turn st).status = st := rfl

@[simp] theorem turn_stop (x : Cell) (st : Status) : (x.turn st).stop = x.stop := rfl

@[simp] theorem front_header (x : Cell) (n : Nat) : (x.front n).header = x.header := rfl

@[simp] theorem front_size (x : Cell) (n : Nat) : (x.front n).size = n := rfl

@[simp] theorem front_status (x : Cell) (n : Nat) : (x.front n).status = x.status := rfl

@[simp] theorem tail_header (x : Cell) (n : Nat) : (x.tail n).header = x.header + 8 + n := rfl

@[simp] theorem tail_size (x : Cell) (n : Nat) : (x.tail n).size = x.size - (n + 8) := rfl

@[simp] theorem tail_status (x : Cell) (n : Nat) : (x.tail n).status = .loose := rfl

@[simp] theorem join_header (x y : Cell) : (x.join y).header = x.header := rfl

@[simp] theorem join_size (x y : Cell) : (x.join y).size = x.size + y.size + 8 := rfl

@[simp] theorem join_status (x y : Cell) : (x.join y).status = x.status := rfl

theorem tail_stop {x : Cell} {n : Nat} (room : n + 8 ≤ x.size) : (x.tail n).stop = x.stop := by
  simp only [stop_eq, tail_header, tail_size]
  omega

theorem join_stop {x y : Cell} (next : y.header = x.stop) : (x.join y).stop = y.stop := by
  simp only [stop_eq, join_header, join_size] at *
  omega

@[simp] theorem turn_regular {x : Cell} {st : Status} : (x.turn st).Regular ↔ x.Regular :=
  ⟨fun r => ⟨r.minimum, r.granular⟩, fun r => ⟨r.minimum, r.granular⟩⟩

theorem join_regular {x y : Cell} (regular : x.Regular) (regular' : y.Regular) :
    (x.join y).Regular := by
  obtain ⟨minimum, granular⟩ := regular
  have granular' := regular'.granular
  exact ⟨by rw [join_size]; omega, by rw [join_size]; omega⟩

theorem turn_freeHeader? {x : Cell} {st : Status} (same : (x.turn st).isFree = x.isFree) :
    (x.turn st).freeHeader? = x.freeHeader? := by
  simp only [freeHeader?, same, turn_header]

theorem isFree_iff (x : Cell) : x.isFree = true ↔ x.status ≠ .used := by simp [isFree]

end Cell

/-! Geometry -/

def Tiles : Nat → List Cell → Nat → Prop
  | lo, [], hi => lo = hi
  | lo, x :: rest, hi => x.header = lo ∧ x.Regular ∧ Tiles x.stop rest hi

theorem tiles_append {lo hi : Nat} {l m : List Cell} :
    Tiles lo (l ++ m) hi ↔ ∃ mid, Tiles lo l mid ∧ Tiles mid m hi := by
  induction l generalizing lo with
  | nil => simp [Tiles]
  | cons x rest ih => simp [Tiles, ih, and_assoc]

theorem tiles_singleton {lo hi : Nat} {x : Cell} :
    Tiles lo [x] hi ↔ x.header = lo ∧ x.Regular ∧ x.stop = hi := Iff.rfl

namespace Tiles

variable {lo hi : Nat} {cells : List Cell}

theorem le (t : Tiles lo cells hi) : lo ≤ hi := by
  induction cells generalizing lo with
  | nil => exact Nat.le_of_eq t
  | cons x rest ih =>
    have below := ih t.2.2
    have start := t.1
    rw [x.stop_eq] at below
    omega

theorem unique {lo' hi' : Nat} (t : Tiles lo cells hi) (nonempty : cells ≠ [])
    (t' : Tiles lo' cells hi') : lo' = lo ∧ hi' = hi := by
  induction cells generalizing lo lo' with
  | nil => exact absurd rfl nonempty
  | cons x rest ih =>
    refine ⟨t'.1.symm.trans t.1, ?_⟩
    by_cases last : rest = []
    · subst last
      exact t'.2.2.symm.trans t.2.2
    · exact (ih t.2.2 last t'.2.2).2

theorem bounds (t : Tiles lo cells hi) {x : Cell} (mem : x ∈ cells) :
    lo ≤ x.header ∧ x.stop ≤ hi := by
  induction cells generalizing lo with
  | nil => cases mem
  | cons y rest ih =>
    have start := t.1
    rcases List.mem_cons.mp mem with rfl | later
    · exact ⟨Nat.le_of_eq start.symm, t.2.2.le⟩
    · have inside := ih t.2.2 later
      rw [y.stop_eq] at inside
      omega

theorem regular (t : Tiles lo cells hi) {x : Cell} (mem : x ∈ cells) : x.Regular := by
  induction cells generalizing lo with
  | nil => cases mem
  | cons y rest ih =>
    rcases List.mem_cons.mp mem with rfl | later
    · exact t.2.1
    · exact ih t.2.2 later

theorem aligned (t : Tiles lo cells hi) (start : lo % 8 = 0) :
    hi % 8 = 0 ∧ ∀ x ∈ cells, x.header % 8 = 0 := by
  induction cells generalizing lo with
  | nil => exact ⟨t ▸ start, by simp⟩
  | cons y rest ih =>
    have head : y.header % 8 = 0 := t.1 ▸ start
    have size := t.2.1.granular
    have next : y.stop % 8 = 0 := by
      rw [y.stop_eq]
      omega
    have rest := ih t.2.2 next
    exact ⟨rest.1, List.forall_mem_cons.mpr ⟨head, rest.2⟩⟩

theorem pairwise (t : Tiles lo cells hi) :
    (cells ++ [Cell.sentinel hi]).Pairwise fun x y => x.stop ≤ y.header := by
  induction cells generalizing lo with
  | nil => simp
  | cons x rest ih =>
    rw [List.cons_append, List.pairwise_cons]
    refine ⟨fun y mem => ?_, ih t.2.2⟩
    rcases List.mem_append.mp mem with inside | last
    · exact (t.2.2.bounds inside).1
    · rw [List.mem_singleton.mp last]
      exact t.2.2.le

theorem apart (t : Tiles lo cells hi) {x y : Cell} (memx : x ∈ cells) (memy : y ∈ cells) :
    x = y ∨ x.stop ≤ y.header ∨ y.stop ≤ x.header := by
  induction cells generalizing lo with
  | nil => cases memx
  | cons z rest ih =>
    rcases List.mem_cons.mp memx with rfl | laterx <;> rcases List.mem_cons.mp memy with rfl | latery
    · exact .inl rfl
    · exact .inr (.inl (t.2.2.bounds latery).1)
    · exact .inr (.inr (t.2.2.bounds laterx).1)
    · exact ih t.2.2 laterx latery

theorem eq_of_header_eq (t : Tiles lo cells hi) {x y : Cell} (memx : x ∈ cells) (memy : y ∈ cells)
    (same : x.header = y.header) : x = y := by
  have away := t.apart memx memy
  rw [x.stop_eq, y.stop_eq] at away
  rcases away with rfl | below | above
  · rfl
  · omega
  · omega

theorem ne_header {pre post : List Cell} {x : Cell} (t : Tiles lo (pre ++ x :: post) hi) :
    ∀ z ∈ pre ++ post, z.header ≠ x.header := by
  obtain ⟨mid, before, here⟩ := tiles_append.mp t
  have start := here.1
  have stopx := x.stop_eq
  intro z mem
  rcases List.mem_append.mp mem with left | right
  · have below := (before.bounds left).2
    rw [z.stop_eq] at below
    omega
  · have above := (here.2.2.bounds right).1
    omega

theorem turn {pre post : List Cell} {x : Cell} (t : Tiles lo (pre ++ x :: post) hi) (st : Status) :
    Tiles lo (pre ++ x.turn st :: post) hi := by
  obtain ⟨mid, before, header, regular, behind⟩ := tiles_append.mp t
  exact tiles_append.mpr ⟨mid, before, header, Cell.turn_regular.mpr regular, behind⟩

theorem next (t : Tiles lo cells hi) :
    ∃ y rest, cells ++ [Cell.sentinel hi] = y :: rest ∧ y.header = lo := by
  cases cells with
  | nil => exact ⟨.sentinel hi, [], rfl, t.symm⟩
  | cons y rest => exact ⟨y, rest ++ [.sentinel hi], rfl, t.1⟩

theorem later (t : Tiles lo cells hi) {y : Cell} {rest : List Cell}
    (follow : cells ++ [Cell.sentinel hi] = y :: rest) : ∀ z ∈ rest, lo + 8 ≤ z.header := by
  intro z mem
  obtain ⟨y', rest', follow', header⟩ := t.next
  obtain ⟨rfl, rfl⟩ := List.cons.inj (follow.symm.trans follow')
  have order := t.pairwise
  rw [follow] at order
  have behind := (List.pairwise_cons.mp order).1 z mem
  rw [y.stop_eq, header] at behind
  omega

end Tiles

/-! Tags -/

structure Sized (b : Buffer) (x : Cell) (prevFree : Bool) : Prop where
  inside : x.header + 8 ≤ b.size
  fits : x.size < UInt32.size
  granular : x.size % 4 = 0
  word : b.wordAt (x.header + 4) = (SizeWord.ofParts x.size x.isFree prevFree).raw

/-- The header of a block tells its size, whether it is free, and where the
block before it starts if that is free. -/
structure Tagged (b : Buffer) (x : Cell) (prev : Option Nat) : Prop where
  sized : Sized b x prev.isSome
  back : ∀ q ∈ prev, b.wordAt x.header = .ofNat q

def Tags (b : Buffer) : Option Nat → List Cell → Prop
  | _, [] => True
  | prev, x :: rest => Tagged b x prev ∧ Tags b x.freeHeader? rest

def lastFree? : Option Nat → List Cell → Option Nat
  | prev, [] => prev
  | _, x :: rest => lastFree? x.freeHeader? rest

theorem lastFree?_append (prev : Option Nat) (l m : List Cell) :
    lastFree? prev (l ++ m) = lastFree? (lastFree? prev l) m := by
  induction l generalizing prev with
  | nil => rfl
  | cons x rest ih => exact ih x.freeHeader?

theorem tags_append {b : Buffer} {prev : Option Nat} {l m : List Cell} :
    Tags b prev (l ++ m) ↔ Tags b prev l ∧ Tags b (lastFree? prev l) m := by
  induction l generalizing prev with
  | nil => simp [Tags, lastFree?]
  | cons x rest ih => simp [Tags, lastFree?, ih, and_assoc]

theorem Tagged.turn {b : Buffer} {x : Cell} {prev : Option Nat} {st : Status}
    (tag : Tagged b x prev) (same : (x.turn st).isFree = x.isFree) : Tagged b (x.turn st) prev := by
  refine ⟨⟨tag.sized.inside, tag.sized.fits, tag.sized.granular, ?_⟩, tag.back⟩
  rw [same]
  exact tag.sized.word

theorem Tags.turn {b : Buffer} {prev : Option Nat} {pre post : List Cell} {x : Cell} {st : Status}
    (tags : Tags b prev (pre ++ x :: post)) (same : (x.turn st).isFree = x.isFree) :
    Tags b prev (pre ++ x.turn st :: post) := by
  obtain ⟨before, here, behind⟩ := tags_append.mp tags
  refine tags_append.mpr ⟨before, here.turn same, ?_⟩
  rw [Cell.turn_freeHeader? same]
  exact behind

theorem Sized.of_touches {b b' : Buffer} {area : Set Nat} {x : Cell} {prevFree : Bool}
    (sized : Sized b x prevFree) (t : Buffer.OnlyTouches b b' area)
    (out : ∀ i, x.header + 4 ≤ i → i < x.header + 8 → i ∉ area) : Sized b' x prevFree := by
  refine ⟨t.size ▸ sized.inside, sized.fits, sized.granular, ?_⟩
  rw [t.wordAt fun i low high => out i low (by omega)]
  exact sized.word

theorem Tagged.of_touches {b b' : Buffer} {area : Set Nat} {x : Cell} {prev : Option Nat}
    (tag : Tagged b x prev) (t : Buffer.OnlyTouches b b' area)
    (out : ∀ i, x.header ≤ i → i < x.header + 8 → i ∉ area) : Tagged b' x prev := by
  refine ⟨tag.sized.of_touches t fun i low high => out i (by omega) high, fun q mem => ?_⟩
  rw [t.wordAt fun i low high => out i low (by omega)]
  exact tag.back q mem

theorem Tags.of_touches {b b' : Buffer} {area : Set Nat} {prev : Option Nat} {cells : List Cell}
    (tags : Tags b prev cells) (t : Buffer.OnlyTouches b b' area)
    (out : ∀ x ∈ cells, ∀ i, x.header ≤ i → i < x.header + 8 → i ∉ area) : Tags b' prev cells := by
  induction cells generalizing prev with
  | nil => trivial
  | cons x rest ih =>
    rw [List.forall_mem_cons] at out
    exact ⟨tags.1.of_touches t out.1, ih tags.2 out.2⟩

theorem Sized.bytes_unique {b b' : Buffer} {x : Cell} {prevFree : Bool} (sized : Sized b x prevFree)
    (sized' : Sized b' x prevFree) :
    ∀ i ∈ Set.Ico (x.header + 4) (x.header + 8), b'.byteAt i = b.byteAt i :=
  Buffer.byteAt_of_wordAt (sized'.word.trans sized.word.symm)

theorem Tagged.bytes_unique {b b' : Buffer} {x : Cell} {q : Nat} (tag : Tagged b x (some q))
    (tag' : Tagged b' x (some q)) :
    ∀ i ∈ Set.Ico x.header (x.header + 8), b'.byteAt i = b.byteAt i := by
  intro i inside
  by_cases back : i < x.header + 4
  · have words := (tag'.back q rfl).trans (tag.back q rfl).symm
    exact Buffer.byteAt_of_wordAt words i ⟨inside.1, back⟩
  · exact tag.sized.bytes_unique tag'.sized i ⟨Nat.not_lt.mp back, inside.2⟩

end Tlsf
