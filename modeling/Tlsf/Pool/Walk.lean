import Tlsf.Handle.Json
import Tlsf.Pool

/-!
The blocks of a pool in address order, and the statistics that need them. A
walk follows the sizes from the first block to the header of size zero; in a
damaged pool it may run out of the buffer instead and fault.
-/

namespace Tlsf

open Dimensions

structure BlockInfo where
  pointer : Pointer
  size : Nat
  isFree : Bool
deriving DecidableEq, Repr

namespace BlockInfo

def toJson (i : BlockInfo) : Json :=
  .record [("ptr", i.pointer.toJson), ("size", .ofNat i.size), ("is_free", .bool i.isFree)]

def ofJson? (j : Json) : Option BlockInfo := do
  let given ← j.members? ["ptr", "size", "is_free"]
  pure {
    pointer := ← Json.member? Pointer.ofJson? "ptr" given
    size := ← Json.member? Json.count? "size" given
    isFree := ← Json.member? Json.bool? "is_free" given }

end BlockInfo

theorem Block.inside_of_word {b : Buffer} {h : Nat} {w : SizeWord} (read : Block.word b h = .ok w) :
    h + headerSize ≤ b.size := by
  simp only [Block.word, Buffer.readWord, headerSize] at *
  split at read
  · omega
  · simp [bind, Except.bind] at read

namespace Pool

def walkFrom (b : Buffer) (h : Nat) : Checked (List BlockInfo) :=
  match read : Block.word b h with
  | .error e => .error e
  | .ok w =>
    have := Block.inside_of_word read
    if w.size = 0 then .ok []
    else do
      let rest ← walkFrom b (h + headerSize + w.size)
      pure (⟨.ofOffset (h + headerSize), w.size, w.isFree⟩ :: rest)
termination_by b.size - h
decreasing_by simp only [headerSize] at *; omega

def walk (p : Pool) : Checked (List BlockInfo) := walkFrom p.buffer p.layout.firstBlock

def countFree (s : Statistics) (i : BlockInfo) : Statistics :=
  if i.isFree then
    { s with
      freeBlocks := s.freeBlocks + 1
      freePayload := s.freePayload + i.size
      freeOverhead := s.freeOverhead + headerSize
      largestFree := max s.largestFree i.size }
  else s

def statistics (p : Pool) : Checked Statistics := do
  let overhead ← Checked.mul p.tally.active headerSize
  let blocks ← p.walk
  pure (blocks.foldl countFree { p.tally.snapshot with usedOverhead := overhead })

end Pool

end Tlsf
