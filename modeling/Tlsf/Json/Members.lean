import Tlsf.Json

/-!
Typed reading of documents. A record is read from an object, whose members may
come in any order and beside unknown ones but name nothing known twice, or
from an array that lists the leading members in order. Names are compared
after their escapes are resolved; a name with half a surrogate pair in it
spoils the record.
-/

namespace Tlsf.Json

def hexValue (c : Char) : Nat :=
  if c.isDigit then c.toNat - '0'.toNat
  else if 'a' ≤ c then c.toNat - 'a'.toNat + 10
  else c.toNat - 'A'.toNat + 10

def hexUnit (a b c d : Char) : Nat :=
  ((hexValue a * 16 + hexValue b) * 16 + hexValue c) * 16 + hexValue d

def isHighSurrogate (unit : Nat) : Bool := 0xD800 ≤ unit && unit < 0xDC00

def isLowSurrogate (unit : Nat) : Bool := 0xDC00 ≤ unit && unit < 0xE000

def joinSurrogates (high low : Nat) : Char :=
  Char.ofNat (0x10000 + (high - 0xD800) * 0x400 + (low - 0xDC00))

def escaped (c : Char) : Char :=
  match c with
  | 'b' => '\x08'
  | 'f' => '\x0c'
  | 'n' => '\n'
  | 'r' => '\r'
  | 't' => '\t'
  | c => c

/-- Resolves the escapes in the body of a string; none where a surrogate has no
partner. -/
def unescape? : List Char → Option (List Char)
  | [] => some []
  | '\\' :: 'u' :: a :: b :: c :: d :: rest =>
    let unit := hexUnit a b c d
    if isLowSurrogate unit then none
    else if isHighSurrogate unit then
      match rest with
      | '\\' :: 'u' :: a :: b :: c :: d :: rest =>
        let low := hexUnit a b c d
        if isLowSurrogate low then (unescape? rest).map (joinSurrogates unit low :: ·) else none
      | _ => none
    else (unescape? rest).map (Char.ofNat unit :: ·)
  | '\\' :: c :: rest => (unescape? rest).map (escaped c :: ·)
  | c :: rest => (unescape? rest).map (c :: ·)

def members? (names : List String) : Json → Option (List (String × Json))
  | .object members => do
    let named ← members.mapM fun (name, value) => do
      pure (String.ofList (← unescape? name), value)
    let known := named.filter fun (name, _) => name ∈ names
    if (known.map Prod.fst).Nodup then some known else none
  | .array items => if items.length ≤ names.length then some (names.zip items) else none
  | _ => none

def member? {α : Type} (read : Json → Option α) (name : String)
    (members : List (String × Json)) : Option α :=
  members.lookup name >>= read

def memberD? {α : Type} (read : Json → Option α) (name : String) (missing : α)
    (members : List (String × Json)) : Option α :=
  match members.lookup name with
  | none => some missing
  | some j => read j

def natural? (limit : Nat) : Json → Option Nat
  | .number text => (Text.natural? text).filter (· < limit)
  | _ => none

def bool? : Json → Option Bool
  | .bool value => some value
  | _ => none

def list? {α : Type} (read : Json → Option α) : Json → Option (List α)
  | .array items => items.mapM read
  | _ => none

def option? {α : Type} (read : Json → Option α) : Json → Option (Option α)
  | .null => some none
  | j => (read j).map some

def count? : Json → Option Nat := natural? UInt64.size

end Tlsf.Json
