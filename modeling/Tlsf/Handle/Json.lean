import Tlsf.Handle
import Tlsf.Json.Members

/-!
Handles in documents: each is its number.
-/

namespace Tlsf

namespace Pointer

def toJson (p : Pointer) : Json := .ofNat p.word.toNat

def ofJson? (j : Json) : Option Pointer := (j.natural? UInt32.size).map fun n => ⟨.ofNat n⟩

end Pointer

namespace OwnerId

def toJson (o : OwnerId) : Json := .ofNat o.word.toNat

def ofJson? (j : Json) : Option OwnerId := (j.natural? UInt64.size).map fun n => ⟨.ofNat n⟩

end OwnerId

end Tlsf
