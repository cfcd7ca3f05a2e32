/-!
A library that writes values as JSON texts and reads them back, as a parameter. It has codecs for
words, flags and optional values, and makes one for a record type from its declaration. What is
known of it is `Documented`: the behaviour that such a library promises.
-/

namespace Tlsf

/-- How a record type is declared: its fields in order, their names and codecs, and the record that
has the values of fields that a text leaves out. A record is the product of its fields. -/
structure Declaration (Codec : Type → Type) (ι ρ : Type) where
  fields : List ι
  name : ι → String
  Value : ι → Type
  codec : (f : ι) → Codec (Value f)
  get : ρ → (f : ι) → Value f
  make : ((f : ι) → Value f) → ρ
  default : ρ
  complete : ∀ f, f ∈ fields
  once : fields.Nodup
  distinct : ∀ {f g}, name f = name g → f = g
  identifier : ∀ f, ∀ c ∈ (name f).toList, c.isAlphanum = true ∨ c = '_'
  make_get : ∀ r, make (get r) = r
  get_make : ∀ values, get (make values) = values

theorem Declaration.ext {Codec : Type → Type} {ι ρ : Type} (d : Declaration Codec ι ρ) {r r' : ρ}
    (same : ∀ f, d.get r f = d.get r' f) : r = r' := by
  rw [← d.make_get r, ← d.make_get r']
  exact congrArg d.make (funext same)

structure Serializer where
  Codec : Type → Type
  write : {α : Type} → Codec α → α → String
  /-- None for a text that is no value of the type. -/
  read : {α : Type} → Codec α → String → Option α
  word : Codec UInt64
  flag : Codec Bool
  option : {α : Type} → Codec α → Codec (Option α)
  record : {ι ρ : Type} → Declaration Codec ι ρ → Codec ρ

def objectText (members : List (String × String)) : String :=
  "\x7b" ++ ",".intercalate (members.map fun m => "\"" ++ m.1 ++ "\":" ++ m.2) ++ "\x7d"

/-- A text that opens no array and no object. Reading bounds how deep these may be nested. -/
def Flat (text : String) : Prop := ∀ c ∈ text.toList, c ≠ '[' ∧ c ≠ '\x7b'

instance (text : String) : Decidable (Flat text) := List.decidableBAll _ text.toList

namespace Serializer

variable {α ι ρ : Type} (s : Serializer)

def fieldText (d : Declaration s.Codec ι ρ) (r : ρ) (f : ι) : String :=
  s.write (d.codec f) (d.get r f)

def listing (d : Declaration s.Codec ι ρ) (r : ρ) (given : List ι) : String :=
  objectText (given.map fun f => (d.name f, s.fieldText d r f))

/-- The documented behaviour: compact output with decimal numbers, null for an absent value, the
fields of a record in the order of their declaration; on reading, fields in any order, and the
default's value for a field that is left out. -/
structure Documented : Prop where
  word_written (n : UInt64) : s.write s.word n = toString n
  word_read (n : UInt64) : s.read s.word (toString n) = some n
  flag_written (value : Bool) : s.write s.flag value = toString value
  flag_read (value : Bool) : s.read s.flag (toString value) = some value
  none_written {α : Type} (c : s.Codec α) : s.write (s.option c) none = "null"
  none_read {α : Type} (c : s.Codec α) : s.read (s.option c) "null" = some none
  some_written {α : Type} (c : s.Codec α) (a : α) : s.write (s.option c) (some a) = s.write c a
  some_read {α : Type} (c : s.Codec α) (a : α) (nonnull : s.write c a ≠ "null")
    (read : s.read c (s.write c a) = some a) : s.read (s.option c) (s.write c a) = some (some a)
  record_written {ι ρ : Type} (d : Declaration s.Codec ι ρ) (r : ρ) :
    s.write (s.record d) r = s.listing d r d.fields
  record_listed {ι ρ : Type} (d : Declaration s.Codec ι ρ) (r : ρ) {given : List ι}
    (once : given.Nodup) (flat : ∀ f ∈ given, Flat (s.fieldText d r f))
    (read : ∀ f ∈ given, s.read (d.codec f) (s.fieldText d r f) = some (d.get r f)) :
    ∃ r', s.read (s.record d) (s.listing d r given) = some r' ∧ ∀ f ∈ given, d.get r' f = d.get r f
  record_left {ι ρ : Type} (d : Declaration s.Codec ι ρ) (r : ρ) {given : List ι} {r' : ρ}
    (once : given.Nodup) (read : s.read (s.record d) (s.listing d r given) = some r') :
    ∀ f, f ∉ given → d.get r' f = d.get d.default f

end Serializer

end Tlsf
