import Tlsf.Json.Token
import Tlsf.Text.Decimal

/-!
JSON documents. `Json.tokens` spells a document out, `Json.ofTokens?` reads
one back with a stack of the arrays and objects that are still open, so that
nesting is limited by nothing but the text. Numbers and strings stay as they
are written; members keep their order and may repeat.
-/

namespace Tlsf

inductive Json where
  | null
  | bool (value : Bool)
  | number (text : List Char)
  | string (body : List Char)
  | array (items : List Json)
  | object (members : List (List Char × Json))

namespace Json

mutual

def tokens : Json → List Token
  | .null => [.null]
  | .bool value => [.bool value]
  | .number text => [.number text]
  | .string body => [.string body]
  | .array items => .openArray :: itemTokens items
  | .object members => .openObject :: memberTokens members

def itemTokens : List Json → List Token
  | [] => [.closeArray]
  | item :: rest => tokens item ++ moreItemTokens rest

def moreItemTokens : List Json → List Token
  | [] => [.closeArray]
  | item :: rest => .comma :: (tokens item ++ moreItemTokens rest)

def memberTokens : List (List Char × Json) → List Token
  | [] => [.closeObject]
  | (name, value) :: rest => .string name :: .colon :: (tokens value ++ moreMemberTokens rest)

def moreMemberTokens : List (List Char × Json) → List Token
  | [] => [.closeObject]
  | (name, value) :: rest =>
    .comma :: .string name :: .colon :: (tokens value ++ moreMemberTokens rest)

end

def render (j : Json) : String := String.ofList (j.tokens.flatMap Token.text)

/-- An array or object that is still open, with what it holds so far, last
first. -/
inductive Open where
  | array (items : List Json)
  | object (members : List (List Char × Json)) (name : List Char)

mutual

/-- Reads a value and then what is open around it. -/
def readValue : List Token → List Open → Option Json
  | .null :: ts, stack => closeValue .null ts stack
  | .bool value :: ts, stack => closeValue (.bool value) ts stack
  | .number text :: ts, stack => closeValue (.number text) ts stack
  | .string body :: ts, stack => closeValue (.string body) ts stack
  | .openArray :: .closeArray :: ts, stack => closeValue (.array []) ts stack
  | .openArray :: ts, stack => readValue ts (.array [] :: stack)
  | .openObject :: .closeObject :: ts, stack => closeValue (.object []) ts stack
  | .openObject :: .string name :: .colon :: ts, stack => readValue ts (.object [] name :: stack)
  | _, _ => none

/-- Goes on after a value: the document ends, or the innermost open array or
object takes the value and closes or expects another one. -/
def closeValue (value : Json) : List Token → List Open → Option Json
  | [], [] => some value
  | .comma :: ts, .array items :: stack => readValue ts (.array (value :: items) :: stack)
  | .closeArray :: ts, .array items :: stack =>
    closeValue (.array (value :: items).reverse) ts stack
  | .comma :: .string next :: .colon :: ts, .object members name :: stack =>
    readValue ts (.object ((name, value) :: members) next :: stack)
  | .closeObject :: ts, .object members name :: stack =>
    closeValue (.object ((name, value) :: members).reverse) ts stack
  | _, _ => none

end

def ofTokens? (ts : List Token) : Option Json := readValue ts []

def parse? (text : String) : Option Json := tokens? text.toList >>= ofTokens?

/-! Building documents -/

def ofNat (n : Nat) : Json := .number (Text.numeral n)

/-- An object whose names need no escapes. -/
def record (members : List (String × Json)) : Json :=
  .object (members.map fun (name, value) => (name.toList, value))

def ofOption : Option Json → Json
  | none => .null
  | some j => j

end Json

end Tlsf
