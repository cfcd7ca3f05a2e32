import Tlsf.Handle.Json
import Tlsf.Registry

/-!
The registry in documents. Children are written ascending and read as a set,
in any order and with repetitions.
-/

namespace Tlsf

namespace Registration

def toJson (n : Registration) : Json :=
  .record [
    ("owner", n.owner.toJson),
    ("parent", .ofOption (n.parent.map Pointer.toJson)),
    ("children", .array (n.children.toList.map Pointer.toJson))]

def ofJson? (j : Json) : Option Registration := do
  let given ← j.members? ["owner", "parent", "children"]
  let owner ← Json.member? OwnerId.ofJson? "owner" given
  let parent ← Json.memberD? (Json.option? Pointer.ofJson?) "parent" none given
  let children ← Json.member? (Json.list? Pointer.ofJson?) "children" given
  pure ⟨owner, parent, .ofList children⟩

end Registration

namespace Registry

def allocationsJson (r : Registry) : Json :=
  .object (r.allocations.map fun (p, o) => (Text.numeral p.word.toNat, o.toJson))

def rootsJson (r : Registry) : Json := .array (r.rootPointers.map Pointer.toJson)

end Registry

end Tlsf
