import Tlsf.Proofs.Consistency

/-!
What calls leave alone, as a host sees it. A pool writes to its own span of the
buffer only, and no call changes a byte of an allocation that the host keeps,
apart from the one that is being resized or written to. A host that writes to
its allocations, in turn, reaches none of the pool's bookkeeping.

So what was written to an allocation is read back from it, whatever happens in
between, until the host rewrites, resizes or releases it.
-/

namespace Tlsf

open Dimensions Buffer

namespace Pool

def span (p : Pool) : Set Nat := Set.Ico p.layout.firstBlock (p.layout.sentinel + headerSize)

/-- The bytes that the pool needs of a block: its header and, while it is free, its links. -/
def BookBytes (i : BlockInfo) (j : Nat) : Prop :=
  i.pointer.offset ≤ j + headerSize ∧
    j < i.pointer.offset + if i.isFree then linksSize else 0

def bookkeeping (p : Pool) (blocks : List BlockInfo) : Set Nat :=
  {j | (∃ i ∈ blocks, BookBytes i j) ∨
    (p.layout.sentinel ≤ j ∧ j < p.layout.sentinel + headerSize)}

structure MadeOver (p : Pool) (b : Buffer) : Prop where
  touches : OnlyTouches b p.buffer p.span
  start : p.layout.regionStart ≤ p.layout.firstBlock
  stop : p.layout.sentinel + headerSize ≤ p.layout.regionEnd
  region : p.layout.regionEnd ≤ b.size

end Pool

def Call.resizes : Call → List Pointer
  | .reallocate ptr _ => [ptr]
  | .reallocateOwned ptr _ _ _ => [ptr]
  | _ => []

/-- A call changed nothing outside the pool and nothing in other allocations. -/
structure Session.Frames (s s' : Session) (call : Call) : Prop where
  outside : OnlyTouches s.pool.buffer s'.pool.buffer s.pool.span
  kept : ∀ q size size', q ∉ call.resizes → q ∉ call.writes → s.ledger q = some size →
    s'.ledger q = some size' → size' = size ∧
      ∀ j ∈ Set.Ico q.offset (q.offset + size), s'.pool.buffer.byteAt j = s.pool.buffer.byteAt j

def Pool.Reads (p : Pool) (ptr : Pointer) (size : Nat) (contents : Nat → UInt8) : Prop :=
  ∃ data, p.payload ptr = .ok (.ok data) ∧ data.size = size ∧
    ∀ i (inside : i < data.size), data[i] = contents (ptr.offset + i)

/-- A write to an allocation changed its bytes and none of the bookkeeping. -/
structure Session.Writes (s s' : Session) (ptr : Pointer) (contents : Nat → UInt8) : Prop where
  bookkeeping : ∀ blocks, s.pool.walk = .ok blocks → ∀ j ∈ s.pool.bookkeeping blocks,
    s'.pool.buffer.byteAt j = s.pool.buffer.byteAt j
  reads : ∀ size, s.ledger ptr = some size → s'.pool.Reads ptr size contents

def Session.Leaves (ptr : Pointer) : Session → List Call → Prop
  | _, [] => True
  | s, call :: rest => ∀ result s', s.step call = .ok (result, s') →
    ¬ call.Disturbs s.pool ptr result ∧ Leaves ptr s' rest

/-! One call -/

namespace Call

variable {call : Call} {p p' : Pool} {l : Ledger} {q : Pointer}

theorem asks_of_returns (returned : q ∈ call.returns p) : q ∈ call.resizes ∨ call.asks = 0 := by
  cases call with
  | reallocate ptr size => exact .inl returned
  | reallocateOwned ptr size owner parent => exact .inl returned
  | free ptr => exact .inr rfl
  | freeRecursive ptr => exact .inr rfl
  | editRegistry edits => exact .inr rfl
  | rewrite ptr contents => exact .inr rfl
  | _ => cases returned

theorem after_returned (returned : q ∈ call.returns p) (nothing : call.asks = 0) (answer : Answer) :
    l.after p p' call (.ok answer) q = none := by
  rw [Ledger.after_silent fun _ _ => nothing]
  exact if_pos returned

theorem calm {result : Except Error Answer} {size : Nat} (other : q ∉ call.resizes)
    (unwritten : q ∉ call.writes) (granted : l.after p p' call result q = some size) :
    ¬ call.Disturbs p q result := by
  intro disturbs
  cases result with
  | error e => exact disturbs
  | ok answer =>
    rcases disturbs with returned | written
    · have nothing := (asks_of_returns returned).resolve_left other
      rw [after_returned returned nothing answer] at granted
      cases granted
    · exact unwritten written

end Call

/-! Payloads and bookkeeping -/

namespace Buffer

theorem size_extract_eq {b : Buffer} {o count : Nat} (inside : o + count ≤ b.size) :
    (b.bytes.extract o (o + count)).size = count := by
  rw [ByteArray.size_extract]
  unfold Buffer.size at inside
  omega

theorem getElem_extract_eq {b : Buffer} {o count : Nat} (inside : o + count ≤ b.size) {i : Nat}
    (h : i < (b.bytes.extract o (o + count)).size) :
    (b.bytes.extract o (o + count))[i] = b.byteAt (o + i) := by
  have size := size_extract_eq inside
  have within : o + i < b.bytes.size := by
    unfold Buffer.size at inside
    omega
  rw [ByteArray.getElem_extract, byteAt, dif_pos within]

end Buffer

namespace Pool

variable {p p' : Pool} {n m : Nat} {cells cells' : List Cell} {lists lists' : SizeClass → List Nat}
  {x : Cell}

theorem Sound.reads (sound : p.Sound n cells lists) (mem : x ∈ usedCells cells) :
    p.Reads x.pointer x.size p.buffer.byteAt := by
  have inside := payload_inside sound mem
  refine ⟨_, payload_live sound mem, size_extract_eq (by omega), fun i within => ?_⟩
  rw [sound.pointer_offset mem]
  exact getElem_extract_eq (by omega) within

theorem Reads.congr {ptr : Pointer} {size : Nat} {contents contents' : Nat → UInt8}
    (reads : p.Reads ptr size contents)
    (same : ∀ j ∈ Set.Ico ptr.offset (ptr.offset + size), contents' j = contents j) :
    p.Reads ptr size contents' := by
  obtain ⟨data, run, rfl, bytes⟩ := reads
  refine ⟨data, run, rfl, fun i inside => ?_⟩
  rw [bytes i inside, same (ptr.offset + i) ⟨by omega, by omega⟩]

theorem Reads.unique {ptr : Pointer} {size : Nat} {contents : Nat → UInt8}
    (reads : p.Reads ptr size contents) (reads' : p'.Reads ptr size contents) :
    p'.payload ptr = p.payload ptr := by
  obtain ⟨data, run, size, bytes⟩ := reads
  obtain ⟨data', run', size', bytes'⟩ := reads'
  rw [run, run']
  congr 2
  apply ByteArray.ext_getElem (size'.trans size.symm)
  intro i inside inside'
  rw [bytes i inside', bytes' i inside]

theorem Sound.payload_eq_Ico (sound : p.Sound n cells lists) (mem : x ∈ usedCells cells) :
    x.payload = Set.Ico x.pointer.offset (x.pointer.offset + x.size) := by
  rw [sound.pointer_offset mem]
  rfl

theorem Sound.bookkeeping_subset (sound : p.Sound n cells lists) :
    p.bookkeeping (cells.map Cell.info) ⊆ metadata cells p.layout.sentinel := by
  intro j book
  rcases book with ⟨i, mem, low, high⟩ | ⟨low, high⟩
  · obtain ⟨x, memx, rfl⟩ := List.mem_map.mp mem
    have offset : x.info.pointer.offset = x.header + 8 :=
      Cell.pointer_offset (sound.holds.header_fits memx)
    rw [offset] at low high
    have start : x.header ≤ j := Nat.le_of_add_le_add_right low
    refine ⟨x, List.mem_append_left _ memx, start, ?_⟩
    change j < x.header + 8 + if x.isFree then 8 else 0 at high
    by_cases free : x.isFree = true
    · rw [if_pos free] at high ⊢
      exact high
    · rw [if_neg free] at high ⊢
      exact high
  · exact header_metadata (List.mem_append_right _ (List.mem_singleton_self _)) ⟨low, high⟩

theorem Sound.rewrite_keeps (sound : p.Sound n cells lists) {ptr : Pointer}
    {contents : Nat → UInt8} {found : Except Error Nat}
    (run : p.rewritePayload ptr contents = .ok (found, p')) {j : Nat}
    (book : j ∈ metadata cells p.layout.sentinel) : p'.buffer.byteAt j = p.buffer.byteAt j := by
  by_cases null : ptr.isNull = true
  · have idle : p.rewritePayload ptr contents = .ok (.ok 0, p) := editPayload_null null rfl
    rw [run] at idle
    cases idle
    rfl
  · rcases live_or_dead cells ptr with ⟨x, mem, rfl⟩ | dead
    · obtain ⟨q, rewritten, bytes, -⟩ := rewritePayload_live sound mem contents
      rw [run] at rewritten
      cases rewritten
      rw [bytes]
      refine (update_touches p.buffer contents x).byte j fun inside => ?_
      exact sound.holds.metadata_off mem inside book
    · obtain ⟨v, refused⟩ := editPayload_dead sound (Bool.eq_false_of_not_eq_true null) dead
        fun start size b => pure (Buffer.update contents start size b)
      have refused : p.rewritePayload ptr contents = .ok (.error (.safety v), p) := refused
      rw [run] at refused
      cases refused
      rfl

theorem Sound.rewrite_reads (sound : p.Sound n cells lists) (mem : x ∈ usedCells cells)
    {contents : Nat → UInt8} {found : Except Error Nat}
    (run : p.rewritePayload x.pointer contents = .ok (found, p')) :
    p'.Reads x.pointer x.size contents := by
  obtain ⟨q, rewritten, bytes, sound', -⟩ := rewritePayload_live sound mem contents
  rw [run] at rewritten
  cases rewritten
  have inside := payload_inside sound mem
  refine (sound'.reads mem).congr fun j within => ?_
  rw [sound.pointer_offset mem] at within
  have bound : j < p.buffer.size := by
    have stop := within.2
    omega
  rw [bytes, byteAt_update, if_pos ⟨within.1, within.2, bound⟩]

end Pool

/-! Sessions -/

namespace Session

variable {s s' : Session} {n : Nat} {cells cells' : List Cell} {lists lists' : SizeClass → List Nat}
  {x : Cell}

theorem step_run {call : Call} {result : Except Error Answer} (run : s.step call = .ok (result, s')) :
    call.run s.pool = .ok (result, s'.pool) ∧
      s'.ledger = s.ledger.after s.pool s'.pool call result := by
  unfold Session.step at run
  cases taken : call.run s.pool with
  | error f =>
    rw [taken] at run
    cases run
  | ok answered =>
    rw [taken] at run
    cases run
    exact ⟨rfl, rfl⟩

theorem Sound.stepped (sound : s.Sound n cells lists) (bound : n + 1 < UInt64.size) {call : Call}
    {result : Except Error Answer} (run : s.step call = .ok (result, s')) :
    ∃ cells' lists', s'.Sound (n + 1) cells' lists' ∧
      call.Keeps s.pool s'.pool result cells cells' := by
  obtain ⟨result', s₁, cells', lists', run', -, sound', keeps⟩ := sound.step bound call
  rw [run] at run'
  cases run'
  exact ⟨cells', lists', sound', keeps⟩

theorem Sound.frames (sound : s.Sound n cells lists) (bound : n + 1 < UInt64.size) {call : Call}
    {result : Except Error Answer} (run : s.step call = .ok (result, s')) : s.Frames s' call := by
  obtain ⟨cells', lists', sound', keeps⟩ := sound.stepped bound run
  refine ⟨keeps.passes.spares.outside, fun q size size' other unwritten before after => ?_⟩
  obtain ⟨x, mem, rfl, rfl⟩ := (sound.book q size).mp before
  have granted := after
  rw [(step_run run).2] at granted
  obtain ⟨mem', same⟩ := keeps.payloads x mem (Call.calm other unwritten granted)
  rw [sound'.book.some_of_mem mem'] at after
  refine ⟨(Option.some.inj after).symm, fun j inside => same j ?_⟩
  rwa [sound.pool.payload_eq_Ico mem]

theorem Sound.writes (sound : s.Sound n cells lists) {ptr : Pointer} {contents : Nat → UInt8}
    {result : Except Error Answer} (run : s.step (.rewrite ptr contents) = .ok (result, s')) :
    s.Writes s' ptr contents := by
  obtain ⟨found, rewritten, -⟩ := Call.answer_eq (step_run run).1
  refine ⟨fun blocks walk j book => ?_, fun size granted => ?_⟩
  · rw [sound.pool.walk] at walk
    cases walk
    exact sound.pool.rewrite_keeps rewritten (sound.pool.bookkeeping_subset book)
  · obtain ⟨x, mem, rfl, rfl⟩ := (sound.book ptr size).mp granted
    exact sound.pool.rewrite_reads mem rewritten

theorem Sound.leaves (sound : s.Sound n cells lists) (mem : x ∈ usedCells cells) (calls : List Call)
    (bound : n + calls.length < UInt64.size) (run : s.run calls = .ok s')
    (leaves : s.Leaves x.pointer calls) :
    s'.ledger x.pointer = some x.size ∧ s'.pool.payload x.pointer = s.pool.payload x.pointer := by
  induction calls generalizing s n cells lists with
  | nil =>
    cases run
    exact ⟨sound.book.some_of_mem mem, rfl⟩
  | cons call rest ih =>
    rw [List.length_cons] at bound
    obtain ⟨result, s₁, cells₁, lists₁, taken, -, sound₁, keeps⟩ := sound.step (by omega) call
    obtain ⟨calm, leaves₁⟩ := leaves result s₁ taken
    obtain ⟨mem₁, same⟩ := keeps.payloads x mem calm
    have later : s₁.run rest = .ok s' := by
      rw [← run]
      simp only [Session.run, taken, Checked.ok_bind]
    obtain ⟨granted, payload⟩ := ih sound₁ mem₁ (by omega) later leaves₁
    refine ⟨granted, payload.trans ?_⟩
    refine (sound.pool.reads mem).unique ((sound₁.pool.reads mem₁).congr fun j inside => ?_)
    rw [← sound₁.pool.payload_eq_Ico mem₁] at inside
    exact (same j inside).symm

/-- Pools write inside their span and calls inside their allocations. -/
theorem frame_law {b : Buffer} {k : Construction} {p : Pool} (small : b.size < 2 ^ 31)
    (proper : k.Proper) (built : k.build b = .ok (.ok p)) :
    p.MadeOver b ∧ ∀ calls s, calls.length < 2 ^ 63 → Session.run ⟨p, .empty⟩ calls = .ok s →
      (∀ call, ∃ result s', s.step call = .ok (result, s') ∧ s.Frames s' call) ∧
      (∀ ptr contents, ∃ result s',
        s.step (.rewrite ptr contents) = .ok (result, s') ∧ s.Writes s' ptr contents) ∧
      ∀ ptr size later, s.ledger ptr = some size → calls.length + later.length < 2 ^ 63 →
        ∃ s', s.run later = .ok s' ∧ (s.Leaves ptr later →
          s'.ledger ptr = some size ∧ s'.pool.payload ptr = s.pool.payload ptr) := by
  have limit : UInt64.size = 18446744073709551616 := rfl
  obtain ⟨cells₀, lists₀, start, touched⟩ := Construction.starts small proper built
  refine ⟨⟨touched, start.pool.start, start.pool.inside, touched.size ▸ start.pool.region⟩, ?_⟩
  intro calls s few run
  obtain ⟨s₁, cells, lists, run₁, sound⟩ := runs_sound small proper built calls few
  rw [run] at run₁
  cases run₁
  have steps : ∀ call, ∃ result s', s.step call = .ok (result, s') := by
    intro call
    obtain ⟨result, s', -, -, step, -⟩ := sound.step (by omega) call
    exact ⟨result, s', step⟩
  refine ⟨fun call => ?_, fun ptr contents => ?_, fun ptr size later granted total => ?_⟩
  · obtain ⟨result, s', step⟩ := steps call
    exact ⟨result, s', step, sound.frames (by omega) step⟩
  · obtain ⟨result, s', step⟩ := steps (.rewrite ptr contents)
    exact ⟨result, s', step, sound.writes step⟩
  · obtain ⟨x, mem, rfl, rfl⟩ := (sound.book ptr size).mp granted
    obtain ⟨s', -, -, ran, -⟩ := sound.run later (by omega)
    exact ⟨s', ran, fun leaves => sound.leaves mem later (by omega) ran leaves⟩

theorem frame_law_sample : ∃ p s s',
    Construction.whole.build (.filled 128 7) = .ok (.ok p) ∧ p.MadeOver (.filled 128 7) ∧
      Session.run ⟨p, .empty⟩ [.allocate 24, .allocate 24] = .ok s ∧
      s.run [.free ⟨8⟩, .allocate 16] = .ok s' ∧ s'.ledger ⟨40⟩ = some 24 ∧
      s'.pool.payload ⟨40⟩ = s.pool.payload ⟨40⟩ := by
  have made : ((Construction.whole.session? (.filled 128 7) [.allocate 24, .allocate 24]).map
      fun s => s.ledger ⟨40⟩) = some (some 24) := by decide +kernel
  obtain ⟨s, session, granted⟩ := Option.map_eq_some_iff.mp made
  obtain ⟨p, built, run⟩ := Construction.of_session? session
  have small : (Buffer.filled 128 7).size < 2 ^ 31 := by decide +kernel
  have proper : Construction.whole.Proper := trivial
  obtain ⟨madeOver, laws⟩ := frame_law small proper built
  obtain ⟨-, -, readBack⟩ := laws [.allocate 24, .allocate 24] s (by decide) run
  obtain ⟨s', ran, kept⟩ := readBack ⟨40⟩ 24 [.free ⟨8⟩, .allocate 16] granted (by decide)
  have other : ∀ p result, ¬ Call.Disturbs p (.free ⟨8⟩) ⟨40⟩ result := by
    intro p result
    cases result <;> simp [Call.Disturbs, Call.returns, Call.writes]
  have elsewhere : ∀ p result, ¬ Call.Disturbs p (.allocate 16) ⟨40⟩ result := by
    intro p result
    cases result <;> simp [Call.Disturbs, Call.returns, Call.writes]
  obtain ⟨entry, payload⟩ := kept fun result s₁ _ =>
    ⟨other s.pool result, fun result' s₂ _ => ⟨elsewhere s₁.pool result', trivial⟩⟩
  exact ⟨p, s, s', built, madeOver, run, ran, entry, payload⟩

end Session

end Tlsf
