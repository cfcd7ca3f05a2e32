/-!
The tokens of a JSON text. Numbers and strings are kept as they are written:
a number is its characters, a string what stands between its quotes, with the
escapes in it. Whether two halves of a surrogate pair meet is not asked here.
-/

namespace Tlsf.Json

inductive Token where
  | openObject
  | closeObject
  | openArray
  | closeArray
  | colon
  | comma
  | null
  | bool (value : Bool)
  | number (text : List Char)
  | string (body : List Char)
deriving DecidableEq, Repr

def Token.text : Token → List Char
  | .openObject => ['\x7b']
  | .closeObject => ['\x7d']
  | .openArray => ['[']
  | .closeArray => [']']
  | .colon => [':']
  | .comma => [',']
  | .null => "null".toList
  | .bool true => "true".toList
  | .bool false => "false".toList
  | .number text => text
  | .string body => '"' :: (body ++ ['"'])

def Token.ofPunctuation? (c : Char) : Option Token :=
  if c = '\x7b' then some .openObject
  else if c = '\x7d' then some .closeObject
  else if c = '[' then some .openArray
  else if c = ']' then some .closeArray
  else if c = ':' then some .colon
  else if c = ',' then some .comma
  else none

def Token.ofWord? (word : List Char) : Option Token :=
  if word = "null".toList then some .null
  else if word = "true".toList then some (.bool true)
  else if word = "false".toList then some (.bool false)
  else none

def isSpace (c : Char) : Bool := c == ' ' || c == '\t' || c == '\n' || c == '\r'

def isNumberChar (c : Char) : Bool :=
  c.isDigit || c == '-' || c == '+' || c == '.' || c == 'e' || c == 'E'

def isExponent : List Char → Bool
  | [] => true
  | c :: rest =>
    let digits := match rest with
      | '+' :: digits => digits
      | '-' :: digits => digits
      | digits => digits
    (c == 'e' || c == 'E') && !digits.isEmpty && digits.all Char.isDigit

def isFraction : List Char → Bool
  | '.' :: d :: rest => d.isDigit && isExponent (rest.dropWhile Char.isDigit)
  | rest => isExponent rest

def isNumber (text : List Char) : Bool :=
  let unsigned := match text with
    | '-' :: rest => rest
    | rest => rest
  match unsigned with
  | '0' :: rest => isFraction rest
  | d :: rest => d.isDigit && isFraction (rest.dropWhile Char.isDigit)
  | [] => false

def isHexDigit (c : Char) : Bool :=
  c.isDigit || ('a' ≤ c && c ≤ 'f') || ('A' ≤ c && c ≤ 'F')

def isEscapable (c : Char) : Bool := "\"\\/bfnrt".toList.contains c

/-- The body of a string whose opening quote has been read, and what follows
its closing quote. Control characters have to be escaped. -/
def stringBody? : List Char → Option (List Char × List Char)
  | [] => none
  | '"' :: rest => some ([], rest)
  | '\\' :: 'u' :: a :: b :: c :: d :: rest =>
    if [a, b, c, d].all isHexDigit then
      (stringBody? rest).map fun (body, rest) => ('\\' :: 'u' :: a :: b :: c :: d :: body, rest)
    else none
  | '\\' :: c :: rest =>
    if isEscapable c then
      (stringBody? rest).map fun (body, rest) => ('\\' :: c :: body, rest)
    else none
  | c :: rest =>
    if c = '\\' || c.toNat < 0x20 then none
    else (stringBody? rest).map fun (body, rest) => (c :: body, rest)

theorem length_lt_of_stringBody? {cs body rest : List Char}
    (h : stringBody? cs = some (body, rest)) : rest.length < cs.length := by
  fun_induction stringBody? cs generalizing body rest with
  | case1 => simp at h
  | case2 => simp_all
  | case3 a b c d cs _ ih =>
    obtain ⟨⟨body', rest'⟩, found, e⟩ := Option.map_eq_some_iff.mp h
    have := ih found
    simp_all only [Prod.mk.injEq, List.length_cons]
    omega
  | case4 => simp at h
  | case5 c cs _ _ ih =>
    obtain ⟨⟨body', rest'⟩, found, e⟩ := Option.map_eq_some_iff.mp h
    have := ih found
    simp_all only [Prod.mk.injEq, List.length_cons]
    omega
  | case6 => simp at h
  | case7 => simp at h
  | case8 c cs _ _ _ _ ih =>
    obtain ⟨⟨body', rest'⟩, found, e⟩ := Option.map_eq_some_iff.mp h
    have := ih found
    simp_all only [Prod.mk.injEq, List.length_cons]
    omega

theorem length_dropWhile_le (p : Char → Bool) (cs : List Char) :
    (cs.dropWhile p).length ≤ cs.length := (List.dropWhile_suffix p).length_le

/-- The tokens of a text; none where a character starts no token. A number or
a word reaches as far as it can. -/
def tokens? (cs : List Char) : Option (List Token) :=
  match cs with
  | [] => some []
  | c :: rest =>
    if isSpace c then tokens? rest
    else match Token.ofPunctuation? c with
    | some t => (tokens? rest).map (t :: ·)
    | none =>
      if c = '"' then
        match h : stringBody? rest with
        | none => none
        | some (body, rest') =>
          have := length_lt_of_stringBody? h
          (tokens? rest').map (.string body :: ·)
      else if isNumberChar c then
        let text := c :: rest.takeWhile isNumberChar
        have := length_dropWhile_le isNumberChar rest
        if isNumber text then (tokens? (rest.dropWhile isNumberChar)).map (.number text :: ·)
        else none
      else
        have := length_dropWhile_le Char.isLower rest
        match Token.ofWord? (c :: rest.takeWhile Char.isLower) with
        | none => none
        | some t => (tokens? (rest.dropWhile Char.isLower)).map (t :: ·)
termination_by cs.length
decreasing_by all_goals simp only [List.length_cons]; omega

end Tlsf.Json
