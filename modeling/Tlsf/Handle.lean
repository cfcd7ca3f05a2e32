import Tlsf.Blake3

/-!
Handles: a `Pointer` is the offset of a payload inside the buffer, and an
`OwnerId` names whoever an allocation belongs to. Offset zero is never a
payload, because every payload lies behind a header; it is the null pointer.
-/

namespace Tlsf

structure Pointer where
  word : UInt32
deriving DecidableEq, Repr

namespace Pointer

def null : Pointer := ⟨0⟩

instance : Inhabited Pointer := ⟨null⟩

instance : Ord Pointer := ⟨compareOn word⟩

instance : Std.TransOrd Pointer := inferInstanceAs (Std.TransCmp (compareOn word))

instance : Std.LawfulEqOrd Pointer where
  eq_of_compare {a b} h := by
    have := Std.LawfulEqOrd.eq_of_compare (α := UInt32) h
    cases a; cases b; simp_all

def isNull (p : Pointer) : Bool := p.word == 0

def offset (p : Pointer) : Nat := p.word.toNat

/-- Keeps the low 32 bits of the offset. -/
def ofOffset (offset : Nat) : Pointer := ⟨.ofNat offset⟩

def text (p : Pointer) : String := s!"Pointer({p.word.toNat})"

end Pointer

structure OwnerId where
  word : UInt64
deriving DecidableEq, Repr

namespace OwnerId

def ofName (name : String) : OwnerId := ⟨Blake3.stableId ⟨name.toUTF8⟩⟩

def text (o : OwnerId) : String := s!"OwnerId({o.word.toNat})"

end OwnerId

end Tlsf
