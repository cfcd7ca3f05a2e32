import Tlsf.Checked

/-!
The byte buffer that a pool lives in. Words are four bytes, little-endian.
The view is `byteAt`: every write is described by the bytes it changes, and
every word by its four bytes. Checked reads and writes fault outside the
buffer; their unchecked parts leave a byte outside the buffer alone.
-/

namespace Tlsf

structure Buffer where
  bytes : ByteArray

namespace Buffer

def size (b : Buffer) : Nat := b.bytes.size

/-- The byte at an offset; zero outside the buffer. -/
def byteAt (b : Buffer) (i : Nat) : UInt8 :=
  if h : i < b.bytes.size then b.bytes[i] else 0

def set (b : Buffer) (i : Nat) (v : UInt8) : Buffer :=
  if h : i < b.bytes.size then ⟨b.bytes.set i v h⟩ else b

/-- Replaces `count` bytes from `i` on; `value` gives the byte for each offset. -/
def update (value : Nat → UInt8) (i : Nat) : (count : Nat) → Buffer → Buffer
  | 0, b => b
  | count + 1, b => update value (i + 1) count (b.set i (value i))

@[simp] theorem size_set (b : Buffer) (i : Nat) (v : UInt8) : (b.set i v).size = b.size := by
  unfold set
  split
  · exact Array.size_set ..
  · rfl

theorem byteAt_set (b : Buffer) (i j : Nat) (v : UInt8) :
    (b.set i v).byteAt j = if i = j ∧ j < b.size then v else b.byteAt j := by
  unfold set
  split
  · rename_i h
    have same : (b.bytes.set i v h).size = b.bytes.size := Array.size_set ..
    by_cases inside : j < b.bytes.size
    · have inside_set : j < (b.bytes.set i v h).size := same ▸ inside
      have read : (b.bytes.set i v h)[j] = if i = j then v else b.bytes[j] := Array.getElem_set ..
      simp [byteAt, same, inside, read, size]
    · simp [byteAt, same, inside, size]
  · rename_i h
    have out : ¬ (i = j ∧ j < b.size) := by
      rintro ⟨rfl, inside⟩
      exact h inside
    simp only [out, if_false]

@[simp] theorem size_update (value : Nat → UInt8) (i count : Nat) (b : Buffer) :
    (update value i count b).size = b.size := by
  induction count generalizing i b with
  | zero => rfl
  | succ count ih => simp [update, ih]

theorem byteAt_update (value : Nat → UInt8) (i count : Nat) (b : Buffer) (j : Nat) :
    (update value i count b).byteAt j =
      if i ≤ j ∧ j < i + count ∧ j < b.size then value j else b.byteAt j := by
  induction count generalizing i b with
  | zero =>
      have out : ¬ (i ≤ j ∧ j < i + 0 ∧ j < b.size) := by omega
      simp only [update, out, if_false]
  | succ count ih =>
      simp only [update, ih, size_set, byteAt_set]
      by_cases e : i = j
      · subst e
        by_cases inside : i < b.size
        · rw [if_neg (by omega), if_pos ⟨rfl, inside⟩, if_pos (by omega)]
        · rw [if_neg (by omega), if_neg (by omega), if_neg (by omega)]
      · have same : (i + 1 ≤ j ∧ j < i + 1 + count ∧ j < b.size) ↔
            (i ≤ j ∧ j < i + (count + 1) ∧ j < b.size) := by omega
        simp only [e, same, false_and, if_false]

def wordAt (b : Buffer) (offset : Nat) : UInt32 :=
  .ofNat ((b.byteAt offset).toNat + 256 * (b.byteAt (offset + 1)).toNat +
    65536 * (b.byteAt (offset + 2)).toNat + 16777216 * (b.byteAt (offset + 3)).toNat)

def wordByte (w : UInt32) (k : Nat) : UInt8 := .ofNat (w.toNat >>> (8 * k))

def setWord (b : Buffer) (offset : Nat) (w : UInt32) : Buffer :=
  b |>.set offset (wordByte w 0)
    |>.set (offset + 1) (wordByte w 1)
    |>.set (offset + 2) (wordByte w 2)
    |>.set (offset + 3) (wordByte w 3)

def readWord (b : Buffer) (offset : Nat) : Checked UInt32 :=
  if offset + 4 ≤ b.size then .ok (b.wordAt offset) else .error .outOfBounds

def writeWord (b : Buffer) (offset : Nat) (w : UInt32) : Checked Buffer :=
  if offset + 4 ≤ b.size then .ok (b.setWord offset w) else .error .outOfBounds

def slice (b : Buffer) (offset count : Nat) : Checked ByteArray :=
  if offset + count ≤ b.size then .ok (b.bytes.extract offset (offset + count))
  else .error .outOfBounds

def fill (b : Buffer) (offset count : Nat) (value : UInt8) : Checked Buffer :=
  if offset + count ≤ b.size then .ok (update (fun _ => value) offset count b)
  else .error .outOfBounds

def patch (b : Buffer) (offset : Nat) (data : ByteArray) : Checked Buffer :=
  if offset + data.size ≤ b.size then
    .ok (update (fun i => (Buffer.mk data).byteAt (i - offset)) offset data.size b)
  else .error .outOfBounds

/-- Copies `count` bytes from `source` to `target`; all of them are read before
any is written. -/
def move (b : Buffer) (source target count : Nat) : Checked Buffer :=
  if source + count ≤ b.size ∧ target + count ≤ b.size then
    .ok (update (fun i => b.byteAt (source + (i - target))) target count b)
  else .error .outOfBounds

def filled (length : Nat) (value : UInt8) : Buffer := ⟨⟨Array.replicate length value⟩⟩

@[simp] theorem size_setWord (b : Buffer) (offset : Nat) (w : UInt32) :
    (b.setWord offset w).size = b.size := by
  simp [setWord]

theorem byteAt_setWord (b : Buffer) (offset : Nat) (w : UInt32)
    (inside : offset + 4 ≤ b.size) (j : Nat) :
    (b.setWord offset w).byteAt j =
      if offset ≤ j ∧ j < offset + 4 then wordByte w (j - offset) else b.byteAt j := by
  simp only [setWord, byteAt_set, size_set]
  by_cases h : offset ≤ j ∧ j < offset + 4
  · have cases : j = offset ∨ j = offset + 1 ∨ j = offset + 2 ∨ j = offset + 3 := by omega
    have bound : j < b.size := by omega
    rcases cases with rfl | rfl | rfl | rfl <;> simp_all
  · have out : ∀ k < 4, ¬ (offset + k = j ∧ j < b.size) := by omega
    have out0 := out 0 (by omega)
    rw [Nat.add_zero] at out0
    simp only [out0, out 1 (by omega), out 2 (by omega), out 3 (by omega), h, if_false]

theorem wordAt_setWord_self (b : Buffer) (offset : Nat) (w : UInt32)
    (inside : offset + 4 ≤ b.size) : (b.setWord offset w).wordAt offset = w := by
  have bound := w.toNat_lt
  have read : ∀ k < 4, (b.setWord offset w).byteAt (offset + k) = wordByte w k := by
    intro k hk
    rw [byteAt_setWord b offset w inside, if_pos (by omega)]
    congr 1
    omega
  have r0 := read 0 (by omega)
  rw [Nat.add_zero] at r0
  apply UInt32.toNat_inj.mp
  simp only [wordAt, r0, read 1 (by omega), read 2 (by omega), read 3 (by omega), wordByte,
    UInt32.toNat_ofNat', UInt8.toNat_ofNat']
  omega

end Buffer

end Tlsf
