import Std.Data.ExtTreeMap
import Std.Data.ExtTreeSet
import Tlsf.Handle

/-!
The ownership registry: a forest over pointers. A tracked pointer has an
owner, perhaps a parent, and a set of children; pointers without a parent are
the roots. Parents name their children and children their parent, so every
change touches both ends.

`unregister` hands the children of a pointer to its parent, `repoint` renames
a pointer in all places, and `descendants` lists a subtree with children
before their parents. Nothing here looks at the pool.
-/

namespace Tlsf

structure Registration where
  owner : OwnerId
  /-- None for roots. -/
  parent : Option Pointer
  children : Std.ExtTreeSet Pointer
deriving DecidableEq

namespace Registration

def isRoot (n : Registration) : Bool := n.parent.isNone

end Registration

structure Registry where
  nodes : Std.ExtTreeMap Pointer Registration
  roots : Std.ExtTreeSet Pointer

namespace Registry

def empty : Registry := ⟨∅, ∅⟩

def node? (r : Registry) (p : Pointer) : Option Registration := r.nodes[p]?

def contains (r : Registry) (p : Pointer) : Bool := r.nodes.contains p

def owner? (r : Registry) (p : Pointer) : Option OwnerId := (r.node? p).map (·.owner)

def size (r : Registry) : Nat := r.nodes.size

def isEmpty (r : Registry) : Bool := r.nodes.isEmpty

def allocations (r : Registry) : List (Pointer × OwnerId) :=
  r.nodes.toList.map fun (p, n) => (p, n.owner)

def rootPointers (r : Registry) : List Pointer := r.roots.toList

/-- The tracked pointer among the ends of a parent link. -/
def tracked? (r : Registry) (p : Option Pointer) : Option Pointer := p.filter r.contains

/-- Gives each of the listed pointers, where tracked, the parent `parent`. -/
def adopt (r : Registry) (children : List Pointer) (parent : Option Pointer) : Registry :=
  let nodes := children.foldl (fun nodes c => nodes.modify c fun n => { n with parent }) r.nodes
  { r with nodes }

/-- Changes the set of pointers that hang below `parent`: its children where it
is tracked, the roots otherwise. -/
def editBelow (r : Registry) (parent : Option Pointer)
    (change : Std.ExtTreeSet Pointer → Std.ExtTreeSet Pointer) : Registry :=
  match r.tracked? parent with
  | some q =>
    let nodes := r.nodes.modify q fun n => { n with children := change n.children }
    { r with nodes }
  | none => { r with roots := change r.roots }

/-- Drops `p` and hands its children to its parent, or makes them roots; gives what was tracked
of it. An untracked pointer changes nothing. -/
def remove (r : Registry) (p : Pointer) : Option Registration × Registry :=
  match r.node? p with
  | none => (none, r)
  | some n =>
    let r := { r with nodes := r.nodes.erase p }
    let r := r.adopt n.children.toList n.parent
    (some n, r.editBelow n.parent fun below => below.erase p ∪ n.children)

theorem remove_fst (r : Registry) (p : Pointer) : (r.remove p).1 = r.node? p := by
  unfold remove
  cases r.node? p <;> rfl

def unregister (r : Registry) (p : Pointer) : Registry := (r.remove p).2

/-- Tracks `p` under `parent`, or as a root where that is untracked or `p`
itself. A pointer that was tracked before starts afresh, without its old
place and children. -/
def register (r : Registry) (p : Pointer) (owner : OwnerId) (parent : Option Pointer) : Registry :=
  let r := r.unregister p
  let parent := r.tracked? parent
  let r := r.editBelow parent fun below => below.insert p
  { r with nodes := r.nodes.insert p ⟨owner, parent, ∅⟩ }

/-- Moves what is tracked at `old` to `new`, with its owner, parent and
children, and says whether `old` was tracked. A different `new` is dropped
first, even where there turns out to be nothing to move. -/
def repoint (r : Registry) (old new : Pointer) : Bool × Registry :=
  if old = new then (r.contains old, r)
  else
    let r := r.unregister new
    match r.node? old with
    | none => (false, r)
    | some n =>
      let r := { r with nodes := r.nodes.erase old }
      let r := r.adopt n.children.toList (some new)
      let r := r.editBelow n.parent fun below => (below.erase old).insert new
      (true, { r with nodes := r.nodes.insert new n })

/-- The children of a pointer, ascending; an untracked one has none. -/
def children (r : Registry) (p : Pointer) : List Pointer :=
  match r.node? p with
  | none => []
  | some n => n.children.toList

/-- How far a traversal of what lies below a pointer has come: the pointers still to
be visited, the next one first, and those listed so far. Every pointer is visited
twice, and marked in between. -/
structure Traversal where
  stack : List (Pointer × Bool)
  listed : List Pointer

namespace Traversal

/-- Puts the children of `p` on the stack, the last one first. -/
def expand (r : Registry) (t : Traversal) (p : Pointer) : Traversal :=
  { t with stack := (r.children p).foldr (fun c stack => (c, false) :: stack) t.stack }

/-- Visits the next pointer: first it is marked and its children come before it,
and then it is listed. -/
def visit (r : Registry) (t : Traversal) : Traversal :=
  match t.stack with
  | [] => t
  | (p, true) :: stack => ⟨stack, t.listed ++ [p]⟩
  | (p, false) :: stack => expand r ⟨(p, true) :: stack, t.listed⟩ p

end Traversal

def traversal (r : Registry) (p : Pointer) : (visits : Nat) → Traversal
  | 0 => Traversal.expand r ⟨[], []⟩ p
  | visits + 1 => (r.traversal p visits).visit r

/-- All pointers below `p`, children before their parents and siblings in
ascending order. Two visits to each tracked pointer are enough for that. -/
def descendants (r : Registry) (p : Pointer) : List Pointer := (r.traversal p (2 * r.size)).listed

end Registry

end Tlsf
