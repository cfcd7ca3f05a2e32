import Tlsf.Json.RoundTrip

/-!
Documents as texts. A number or a word reaches as far as it can, so what follows it in a text must
be something that cannot go on with it; between the tokens of a document there always is some
punctuation that separates them. `parse?_render` reads a document back from its text.
-/

namespace Tlsf.Json

def Token.Spelled : Token → Prop
  | .number text => (∀ c ∈ text, isNumberChar c = true) ∧ isNumber text = true
  | .string body => stringBody? (body ++ ['"']) = some (body, [])
  | _ => True

/-- The text does not go on with a character of a number or of a word. -/
def Breaks (cs : List Char) : Prop := ∀ c ∈ cs.head?, isNumberChar c = false ∧ c.isLower = false

theorem breaks_nil : Breaks [] := fun _ head => nomatch head

theorem breaks_cons {c : Char} {cs : List Char}
    (breaks : isNumberChar c = false ∧ c.isLower = false) : Breaks (c :: cs) := by
  intro d head
  obtain rfl : c = d := Option.some.inj head
  exact breaks

/-! Runs of characters -/

section Runs

variable {p : Char → Bool} {run cs : List Char}

theorem takeWhile_run (inside : ∀ c ∈ run, p c = true) (stop : ∀ c ∈ cs.head?, p c = false) :
    (run ++ cs).takeWhile p = run := by
  rw [List.takeWhile_append_of_pos inside]
  cases cs with
  | nil => simp
  | cons c cs => simp [stop c rfl]

theorem dropWhile_run (inside : ∀ c ∈ run, p c = true) (stop : ∀ c ∈ cs.head?, p c = false) :
    (run ++ cs).dropWhile p = cs := by
  rw [List.dropWhile_append_of_pos inside]
  cases cs with
  | nil => rfl
  | cons c cs => simp [stop c rfl]

end Runs

/-- A character that stands for itself in a string. -/
def Plain (c : Char) : Prop := c ≠ '"' ∧ c ≠ '\\' ∧ 0x20 ≤ c.toNat

instance (c : Char) : Decidable (Plain c) := inferInstanceAs (Decidable (_ ∧ _ ∧ _))

theorem stringBody?_plain {c : Char} {cs : List Char} (plain : Plain c) :
    stringBody? (c :: cs) = (stringBody? cs).map fun (body, rest) => (c :: body, rest) := by
  obtain ⟨quote, escape, printable⟩ := plain
  simp [stringBody?, escape, Nat.not_lt.mpr printable]

theorem stringBody?_append {cs body rest : List Char} (read : stringBody? cs = some (body, rest))
    (more : List Char) : stringBody? (cs ++ more) = some (body, rest ++ more) := by
  fun_induction stringBody? cs generalizing body rest with
  | case1 => cases read
  | case2 cs =>
    cases read
    rfl
  | case3 a b c d cs hex ih =>
    obtain ⟨⟨body', rest'⟩, found, same⟩ := Option.map_eq_some_iff.mp read
    cases same
    simp only [List.cons_append, stringBody?, hex, if_true, ih found, Option.map_some]
  | case4 => cases read
  | case5 c cs unicode escapable ih =>
    obtain ⟨⟨body', rest'⟩, found, same⟩ := Option.map_eq_some_iff.mp read
    cases same
    have other : c ≠ 'u' := by
      rintro rfl
      cases escapable
    simp [stringBody?, other, escapable, ih found]
  | case6 => cases read
  | case7 => cases read
  | case8 c cs quote unicode escape plain ih =>
    obtain ⟨⟨body', rest'⟩, found, same⟩ := Option.map_eq_some_iff.mp read
    cases same
    simp only [Bool.or_eq_true, decide_eq_true_eq, not_or, Nat.not_lt] at plain
    rw [List.cons_append, stringBody?_plain ⟨quote, plain⟩, ih found]
    rfl

/-! One token off the front of a text -/

section Tokens

variable {c : Char} {cs run body : List Char} {t : Token}

theorem isSpace_iff : isSpace c = true ↔ ((c = ' ' ∨ c = '\t') ∨ c = '\n') ∨ c = '\r' := by
  simp only [isSpace, Bool.or_eq_true, beq_iff_eq]

theorem tokens?_punctuation (named : Token.ofPunctuation? c = some t) :
    tokens? (c :: cs) = (tokens? cs).map (t :: ·) := by
  have space : ¬ isSpace c = true := by
    rw [isSpace_iff]
    rintro (((rfl | rfl) | rfl) | rfl) <;> cases named
  rw [tokens?, if_neg space, named]

theorem tokens?_mark (text : t.text = [c]) (named : Token.ofPunctuation? c = some t) :
    tokens? (t.text ++ cs) = (tokens? cs).map (t :: ·) := by
  rw [text]
  exact tokens?_punctuation named

theorem tokens?_string (spelled : stringBody? (body ++ ['"']) = some (body, [])) (cs : List Char) :
    tokens? ('"' :: (body ++ '"' :: cs)) = (tokens? cs).map (.string body :: ·) := by
  have read : stringBody? (body ++ '"' :: cs) = some (body, cs) := by
    simpa using stringBody?_append spelled cs
  have other : Token.ofPunctuation? '"' = none := rfl
  rw [tokens?, if_neg (by decide), other]
  simp only [if_true]
  split
  · rename_i missing
    rw [read] at missing
    cases missing
  · rename_i found
    rw [read] at found
    cases found
    rfl

theorem isNumberChar_apart (number : isNumberChar c = true) :
    ¬ isSpace c = true ∧ Token.ofPunctuation? c = none ∧ c ≠ '"' := by
  refine ⟨?_, ?_, ?_⟩
  · rw [isSpace_iff]
    rintro (((rfl | rfl) | rfl) | rfl) <;> cases number
  · unfold Token.ofPunctuation?
    have other : ∀ d, isNumberChar d = false → c ≠ d := by
      rintro d no rfl
      rw [number] at no
      cases no
    rw [if_neg (other _ rfl), if_neg (other _ rfl), if_neg (other _ rfl), if_neg (other _ rfl),
      if_neg (other _ rfl), if_neg (other _ rfl)]
  · rintro rfl
    cases number

theorem tokens?_number (inside : ∀ c ∈ run, isNumberChar c = true) (number : isNumber run = true)
    (breaks : Breaks cs) : tokens? (run ++ cs) = (tokens? cs).map (.number run :: ·) := by
  cases run with
  | nil => cases number
  | cons c run =>
    have stop : ∀ d ∈ cs.head?, isNumberChar d = false := fun d head => (breaks d head).1
    obtain ⟨first, inside⟩ := List.forall_mem_cons.mp inside
    obtain ⟨space, punctuation, quote⟩ := isNumberChar_apart first
    rw [List.cons_append, tokens?, if_neg space, punctuation]
    simp only [if_neg quote, if_pos first, takeWhile_run inside stop, dropWhile_run inside stop,
      if_pos number]

theorem tokens?_word (c : Char) (run : List Char) (named : Token.ofWord? (c :: run) = some t)
    (inside : run.all Char.isLower = true)
    (apart : ¬ isSpace c = true ∧ Token.ofPunctuation? c = none ∧ c ≠ '"' ∧ isNumberChar c = false)
    (breaks : Breaks cs) : tokens? (c :: (run ++ cs)) = (tokens? cs).map (t :: ·) := by
  have inside := List.all_eq_true.mp inside
  have stop : ∀ d ∈ cs.head?, d.isLower = false := fun d head => (breaks d head).2
  obtain ⟨space, punctuation, quote, number⟩ := apart
  rw [tokens?, if_neg space, punctuation]
  simp only [if_neg quote, number, takeWhile_run inside stop, dropWhile_run inside stop, named,
    Bool.false_eq_true, if_false]

/-- Reading one token, when the text goes on with nothing that the token could take in. -/
theorem tokens?_text (spelled : t.Spelled) (breaks : Breaks cs) :
    tokens? (t.text ++ cs) = (tokens? cs).map (t :: ·) := by
  cases t with
  | openObject => exact tokens?_punctuation rfl
  | closeObject => exact tokens?_punctuation rfl
  | openArray => exact tokens?_punctuation rfl
  | closeArray => exact tokens?_punctuation rfl
  | colon => exact tokens?_punctuation rfl
  | comma => exact tokens?_punctuation rfl
  | null => exact tokens?_word 'n' "ull".toList rfl rfl (by decide) breaks
  | bool value =>
    cases value with
    | true => exact tokens?_word 't' "rue".toList rfl rfl (by decide) breaks
    | false => exact tokens?_word 'f' "alse".toList rfl rfl (by decide) breaks
  | number text => exact tokens?_number spelled.1 spelled.2 breaks
  | string body =>
    have read := tokens?_string spelled cs
    simpa [Token.text] using read

theorem tokens?_name (spelled : (Token.string run).Spelled) :
    tokens? ((Token.string run).text ++ (Token.colon.text ++ cs)) =
      (tokens? cs).map fun ts => .string run :: .colon :: ts := by
  have read := tokens?_string spelled (Token.colon.text ++ cs)
  rw [tokens?_mark (t := .colon) rfl rfl, Option.map_map, Function.comp_def] at read
  simpa only [Token.text, List.cons_append, List.append_assoc, List.nil_append] using read

end Tokens

/-! Whole documents. Each lemma is told for any text behind the document, so that the members and
items that follow can be read by the same induction. -/

theorem breaks_moreItems (rest : List Json) (cs : List Char) :
    Breaks ((moreItemTokens rest).flatMap Token.text ++ cs) := by
  cases rest <;> exact breaks_cons (by decide)

theorem breaks_moreMembers (rest : List (List Char × Json)) (cs : List Char) :
    Breaks ((moreMemberTokens rest).flatMap Token.text ++ cs) := by
  cases rest <;> exact breaks_cons (by decide)

mutual

theorem tokens?_tokens (j : Json) (spelled : ∀ t ∈ j.tokens, t.Spelled) (cs : List Char)
    (breaks : Breaks cs) :
    tokens? (j.tokens.flatMap Token.text ++ cs) = (tokens? cs).map (j.tokens ++ ·) := by
  match j with
  | .null => simpa [tokens] using tokens?_text (t := .null) trivial breaks
  | .bool value => simpa [tokens] using tokens?_text (t := .bool value) trivial breaks
  | .number text =>
    have number := spelled (.number text) (List.mem_singleton_self _)
    simpa [tokens] using tokens?_text number breaks
  | .string body =>
    have string := spelled (.string body) (List.mem_singleton_self _)
    simpa [tokens] using tokens?_text string breaks
  | .array [] =>
    simp [tokens, itemTokens, Token.text, tokens?_punctuation, Token.ofPunctuation?,
      Function.comp_def]
  | .array (item :: rest) =>
    rw [tokens, itemTokens] at spelled ⊢
    obtain ⟨first, later⟩ := List.forall_mem_append.mp (List.forall_mem_cons.mp spelled).2
    simp only [List.flatMap_cons, List.flatMap_append, List.append_assoc]
    rw [tokens?_mark (t := .openArray) rfl rfl,
      tokens?_tokens item first _ (breaks_moreItems rest cs), tokens?_moreItems rest later]
    simp [Function.comp_def]
  | .object [] =>
    simp [tokens, memberTokens, Token.text, tokens?_punctuation, Token.ofPunctuation?,
      Function.comp_def]
  | .object ((name, value) :: rest) =>
    rw [tokens, memberTokens] at spelled ⊢
    obtain ⟨named, inside⟩ := List.forall_mem_cons.mp (List.forall_mem_cons.mp spelled).2
    obtain ⟨first, later⟩ := List.forall_mem_append.mp (List.forall_mem_cons.mp inside).2
    simp only [List.flatMap_cons, List.flatMap_append, List.append_assoc]
    rw [tokens?_mark (t := .openObject) rfl rfl, tokens?_name named,
      tokens?_tokens value first _ (breaks_moreMembers rest cs), tokens?_moreMembers rest later]
    simp [Function.comp_def]

theorem tokens?_moreItems (rest : List Json) (spelled : ∀ t ∈ moreItemTokens rest, t.Spelled)
    (cs : List Char) :
    tokens? ((moreItemTokens rest).flatMap Token.text ++ cs) =
      (tokens? cs).map (moreItemTokens rest ++ ·) := by
  match rest with
  | [] => simp [moreItemTokens, Token.text, tokens?_punctuation, Token.ofPunctuation?]
  | item :: rest =>
    rw [moreItemTokens] at spelled ⊢
    obtain ⟨first, later⟩ := List.forall_mem_append.mp (List.forall_mem_cons.mp spelled).2
    simp only [List.flatMap_cons, List.flatMap_append, List.append_assoc]
    rw [tokens?_mark (t := .comma) rfl rfl,
      tokens?_tokens item first _ (breaks_moreItems rest cs), tokens?_moreItems rest later]
    simp [Function.comp_def]

theorem tokens?_moreMembers (rest : List (List Char × Json))
    (spelled : ∀ t ∈ moreMemberTokens rest, t.Spelled) (cs : List Char) :
    tokens? ((moreMemberTokens rest).flatMap Token.text ++ cs) =
      (tokens? cs).map (moreMemberTokens rest ++ ·) := by
  match rest with
  | [] => simp [moreMemberTokens, Token.text, tokens?_punctuation, Token.ofPunctuation?]
  | (name, value) :: rest =>
    rw [moreMemberTokens] at spelled ⊢
    obtain ⟨named, inside⟩ := List.forall_mem_cons.mp (List.forall_mem_cons.mp spelled).2
    obtain ⟨first, later⟩ := List.forall_mem_append.mp (List.forall_mem_cons.mp inside).2
    simp only [List.flatMap_cons, List.flatMap_append, List.append_assoc]
    rw [tokens?_mark (t := .comma) rfl rfl, tokens?_name named,
      tokens?_tokens value first _ (breaks_moreMembers rest cs), tokens?_moreMembers rest later]
    simp [Function.comp_def]

end

theorem parse?_render (j : Json) (spelled : ∀ t ∈ j.tokens, t.Spelled) :
    parse? j.render = some j := by
  have read := tokens?_tokens j spelled [] breaks_nil
  simp only [List.append_nil, show tokens? [] = some [] by rw [tokens?], Option.map_some] at read
  rw [parse?, render, String.toList_ofList, read]
  exact ofTokens?_tokens j

/-! Numerals -/

theorem numeral_digits (n : Nat) : ∀ c ∈ Text.numeral n, c.isDigit = true := fun _ mem =>
  Nat.isDigit_of_mem_toDigits (by omega) (by omega) mem

theorem numeral_leading {n : Nat} (positive : 0 < n) : ∀ c ∈ (Text.numeral n).head?, c ≠ '0' := by
  unfold Text.numeral
  induction n using Nat.strongRecOn with
  | ind n ih =>
    by_cases small : n < 10
    · rw [Nat.toDigits_of_lt_base small]
      rintro c head rfl
      obtain zero := Nat.digitChar_eq_zero.mp (Option.some.inj head)
      omega
    · have leading := ih (n / 10) (by omega) (by omega)
      rw [Nat.toDigits_of_base_le (by omega) (by omega)]
      cases front : Nat.toDigits 10 (n / 10) with
      | nil => exact absurd front Nat.toDigits_ne_nil
      | cons c cs =>
        rw [front] at leading
        exact leading

theorem isNumber_digits {c : Char} {cs : List Char} (digits : ∀ d ∈ c :: cs, d.isDigit = true)
    (leading : c ≠ '0') : isNumber (c :: cs) = true := by
  obtain ⟨first, rest⟩ := List.forall_mem_cons.mp digits
  have sign : c ≠ '-' := by
    rintro rfl
    cases first
  have ends := dropWhile_run rest fun d (head : d ∈ ([] : List Char).head?) => nomatch head
  rw [List.append_nil] at ends
  simp [isNumber, sign, first, ends, isFraction, isExponent]

theorem numeral_spelled (n : Nat) : (Token.number (Text.numeral n)).Spelled := by
  constructor
  · intro c mem
    simp [isNumberChar, numeral_digits n c mem]
  · rcases Nat.eq_zero_or_pos n with rfl | positive
    · rfl
    · have leading := numeral_leading positive
      have digits := numeral_digits n
      cases numeral : Text.numeral n with
      | nil => exact absurd numeral Nat.toDigits_ne_nil
      | cons c cs =>
        rw [numeral] at leading digits
        exact isNumber_digits digits (leading c rfl)

/-! Records -/

theorem string_spelled {body : List Char} (plain : ∀ c ∈ body, Plain c) :
    (Token.string body).Spelled := by
  change stringBody? (body ++ ['"']) = some (body, [])
  induction body with
  | nil => rfl
  | cons c body ih =>
    obtain ⟨first, rest⟩ := List.forall_mem_cons.mp plain
    rw [List.cons_append, stringBody?_plain first, ih rest]
    rfl

def memberText (member : String × Json) : String :=
  "\"" ++ member.1 ++ "\":" ++ member.2.render

theorem memberText_toList (name : String) (value : Json) :
    (memberText (name, value)).toList =
      (Token.string name.toList).text ++ (Token.colon.text ++ value.tokens.flatMap Token.text) := by
  simp [memberText, render, Token.text]

theorem moreMembers_text (member : String × Json) (rest : List (String × Json)) :
    (memberText member).toList ++
        (moreMemberTokens (rest.map fun (name, value) => (name.toList, value))).flatMap Token.text =
      ",".toList.intercalate (((member :: rest).map memberText).map String.toList) ++ ['\x7d'] := by
  induction rest generalizing member with
  | nil => simp [moreMemberTokens, Token.text]
  | cons next rest ih =>
    have later := ih next
    rw [memberText_toList] at later
    simp only [List.map_cons, List.intercalate_cons_cons, moreMemberTokens, List.flatMap_cons,
      List.flatMap_append, List.append_assoc] at later ⊢
    rw [later]
    rfl

theorem render_record (members : List (String × Json)) :
    (record members).render = "\x7b" ++ ",".intercalate (members.map memberText) ++ "\x7d" := by
  apply String.toList_inj.mp
  rw [render, record, String.toList_ofList, String.toList_append, String.toList_append,
    String.toList_intercalate]
  cases members with
  | nil => rfl
  | cons member rest =>
    have inside := moreMembers_text member rest
    rw [memberText_toList] at inside
    simp only [List.map_cons, tokens, memberTokens, List.flatMap_cons, List.flatMap_append,
      List.append_assoc] at inside ⊢
    rw [inside]
    rfl

def MemberSpelled (member : String × Json) : Prop :=
  (∀ c ∈ member.1.toList, Plain c) ∧ ∀ t ∈ member.2.tokens, t.Spelled

theorem moreMembers_spelled {members : List (String × Json)}
    (spelled : ∀ m ∈ members, MemberSpelled m) :
    ∀ t ∈ moreMemberTokens (members.map fun (name, value) => (name.toList, value)), t.Spelled := by
  induction members with
  | nil => simp [moreMemberTokens, Token.Spelled]
  | cons member rest ih =>
    obtain ⟨⟨plain, value⟩, later⟩ := List.forall_mem_cons.mp spelled
    rw [List.map_cons, moreMemberTokens]
    refine List.forall_mem_cons.mpr ⟨trivial, List.forall_mem_cons.mpr ⟨string_spelled plain,
      List.forall_mem_cons.mpr ⟨trivial, List.forall_mem_append.mpr ⟨value, ih later⟩⟩⟩⟩

theorem record_spelled {members : List (String × Json)}
    (spelled : ∀ m ∈ members, MemberSpelled m) : ∀ t ∈ (record members).tokens, t.Spelled := by
  have more := moreMembers_spelled spelled
  rw [record, tokens]
  refine List.forall_mem_cons.mpr ⟨trivial, ?_⟩
  cases members with
  | nil => exact more
  | cons member rest => exact (List.forall_mem_cons.mp more).2

end Tlsf.Json
