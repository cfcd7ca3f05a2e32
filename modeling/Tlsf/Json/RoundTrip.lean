import Tlsf.Json

/-!
Spelling a document out and reading it back. `readValue_tokens` is the general
form: whatever follows the document and whatever is open around it, reading
goes on as if the document had just been read.
-/

namespace Tlsf.Json

theorem readValue_openArray (item : Json) (ts : List Token) (stack : List Open) :
    readValue (.openArray :: (item.tokens ++ ts)) stack =
      readValue (item.tokens ++ ts) (.array [] :: stack) := by
  cases item <;> simp [tokens, readValue]

mutual

theorem readValue_tokens (j : Json) (ts : List Token) (stack : List Open) :
    readValue (j.tokens ++ ts) stack = closeValue j ts stack := by
  match j with
  | .null => simp [tokens, readValue]
  | .bool value => simp [tokens, readValue]
  | .number text => simp [tokens, readValue]
  | .string body => simp [tokens, readValue]
  | .array [] => simp [tokens, itemTokens, readValue]
  | .array (item :: rest) =>
    simp only [tokens, itemTokens, List.cons_append, List.append_assoc]
    rw [readValue_openArray, readValue_tokens item, closeValue_moreItemTokens rest]
    rfl
  | .object [] => simp [tokens, memberTokens, readValue]
  | .object ((name, value) :: rest) =>
    simp only [tokens, memberTokens, List.cons_append, List.append_assoc]
    rw [readValue, readValue_tokens value, closeValue_moreMemberTokens rest]
    rfl

theorem closeValue_moreItemTokens (rest : List Json) (value : Json) (before : List Json)
    (ts : List Token) (stack : List Open) :
    closeValue value (moreItemTokens rest ++ ts) (.array before :: stack) =
      closeValue (.array (before.reverse ++ value :: rest)) ts stack := by
  match rest with
  | [] => simp [moreItemTokens, closeValue]
  | item :: rest =>
    simp only [moreItemTokens, List.cons_append, List.append_assoc, closeValue]
    rw [readValue_tokens item, closeValue_moreItemTokens rest]
    simp

theorem closeValue_moreMemberTokens (rest : List (List Char × Json)) (value : Json)
    (before : List (List Char × Json)) (name : List Char) (ts : List Token) (stack : List Open) :
    closeValue value (moreMemberTokens rest ++ ts) (.object before name :: stack) =
      closeValue (.object (before.reverse ++ (name, value) :: rest)) ts stack := by
  match rest with
  | [] => simp [moreMemberTokens, closeValue]
  | (next, item) :: rest =>
    simp only [moreMemberTokens, List.cons_append, List.append_assoc, closeValue]
    rw [readValue_tokens item, closeValue_moreMemberTokens rest]
    simp

end

theorem ofTokens?_tokens (j : Json) : ofTokens? j.tokens = some j := by
  have := readValue_tokens j [] []
  rw [List.append_nil] at this
  rw [ofTokens?, this]
  rfl

end Tlsf.Json
