import Tlsf.Buffer

/-!
The BLAKE3 digest of a byte string, 32 bytes, unkeyed. The input is cut into
chunks of 1024 bytes and those into blocks of 64 bytes. Chunks are the leaves
of a binary tree whose left subtrees are complete; such a tree arises from
joining neighbours level by level and carrying an odd last node up unchanged.
-/

namespace Tlsf.Blake3

abbrev Words (n : Nat) := Vector UInt32 n

def initial : Words 8 :=
  #v[0x6A09E667, 0xBB67AE85, 0x3C6EF372, 0xA54FF53A, 0x510E527F, 0x9B05688C, 0x1F83D9AB, 0x5BE0CD19]

def chunkStart : UInt32 := 1
def chunkEnd : UInt32 := 2
def parentFlag : UInt32 := 4
def rootFlag : UInt32 := 8

def blockLength : Nat := 64

def blocksPerChunk : Nat := 16

def permutation : Vector (Fin 16) 16 :=
  #v[2, 6, 3, 10, 7, 0, 4, 13, 1, 11, 12, 5, 9, 14, 15, 8]

def rotateRight (x : UInt32) (n : UInt32) : UInt32 := x >>> n ||| x <<< (32 - n)

def mix (s : Words 16) (a b c d : Fin 16) (x y : UInt32) : Words 16 :=
  let va := s[a] + s[b] + x
  let vd := rotateRight (s[d] ^^^ va) 16
  let vc := s[c] + vd
  let vb := rotateRight (s[b] ^^^ vc) 12
  let va := va + vb + y
  let vd := rotateRight (vd ^^^ va) 8
  let vc := vc + vd
  let vb := rotateRight (vb ^^^ vc) 7
  (((s.set a va).set b vb).set c vc).set d vd

def round (s : Words 16) (m : Words 16) : Words 16 :=
  let s := mix s 0 4 8 12 m[0] m[1]
  let s := mix s 1 5 9 13 m[2] m[3]
  let s := mix s 2 6 10 14 m[4] m[5]
  let s := mix s 3 7 11 15 m[6] m[7]
  let s := mix s 0 5 10 15 m[8] m[9]
  let s := mix s 1 6 11 12 m[10] m[11]
  let s := mix s 2 7 8 13 m[12] m[13]
  mix s 3 4 9 14 m[14] m[15]

def permute (m : Words 16) : Words 16 := permutation.map fun i => m[i]

def rounds : Nat → Words 16 → Words 16 → Words 16
  | 0, s, _ => s
  | n + 1, s, m => rounds n (round s m) (permute m)

/-- What one compression takes in. The last one of a chunk and every inner
node of the tree are kept uncompressed until their place is known. -/
structure Node where
  chain : Words 8
  block : Words 16
  counter : Nat
  length : Nat
  flags : UInt32

def Node.compress (n : Node) : Words 8 :=
  let counter := UInt64.ofNat n.counter
  let tail : Words 8 :=
    #v[initial[0], initial[1], initial[2], initial[3],
      counter.toUInt32, (counter >>> 32).toUInt32, .ofNat n.length, n.flags]
  let s := rounds 7 (n.chain ++ tail) n.block
  Vector.ofFn fun i : Fin 8 => s[i.val] ^^^ s[i.val + 8]

def blockWords (data : Buffer) (start : Nat) : Words 16 :=
  Vector.ofFn fun i => data.wordAt (start + 4 * i)

def chunkBlocks (data : Buffer) (counter : Nat) :
    (remaining start : Nat) → (chain : Words 8) → (flags : UInt32) → Node
  | 0, start, chain, flags =>
    ⟨chain, blockWords data start, counter, min blockLength (data.size - start),
      flags ||| chunkEnd⟩
  | remaining + 1, start, chain, flags =>
    let node : Node := ⟨chain, blockWords data start, counter, blockLength, flags⟩
    chunkBlocks data counter remaining (start + blockLength) node.compress 0

def chunk (data : Buffer) (k : Nat) : Node :=
  let start := k * (blocksPerChunk * blockLength)
  let length := min (blocksPerChunk * blockLength) (data.size - start)
  chunkBlocks data k ((length - 1) / blockLength) start initial chunkStart

def chunks (data : Buffer) : List Node :=
  (List.range ((data.size - 1) / (blocksPerChunk * blockLength) + 1)).map (chunk data)

def parent (left right : Node) : Node :=
  ⟨initial, left.compress ++ right.compress, 0, blockLength, parentFlag⟩

/-- Joins neighbours; an odd last node is carried up. -/
def joinPairs : List Node → List Node
  | left :: right :: rest => parent left right :: joinPairs rest
  | rest => rest

theorem length_joinPairs_le (nodes : List Node) : (joinPairs nodes).length ≤ nodes.length := by
  fun_induction joinPairs nodes with
  | case1 left right rest ih => simp only [List.length_cons]; omega
  | case2 => exact Nat.le_refl _

def root (first : Node) (others : List Node) : Node :=
  match others with
  | [] => first
  | second :: rest => root (parent first second) (joinPairs rest)
termination_by others.length
decreasing_by
  have := length_joinPairs_le rest
  simp only [List.length_cons]
  omega

def digest (data : Buffer) : Words 8 :=
  match chunks data with
  | [] => initial
  | first :: others =>
    let node := root first others
    { node with flags := node.flags ||| rootFlag }.compress

def digestBytes (data : Buffer) : List UInt8 :=
  (digest data).toList.flatMap fun w => (List.range 4).map (Buffer.wordByte w)

/-- The first eight bytes of the digest, little-endian: an id that is the same
on every run and machine. -/
def stableId (data : Buffer) : UInt64 :=
  let d := digest data
  d[0].toUInt64 ||| d[1].toUInt64 <<< 32

end Tlsf.Blake3
