import Tlsf.Config.Json
import Tlsf.Proofs.JsonTexts

/-!
Configurations as texts, with any library that keeps what is documented of it. A text may list the
fields of a configuration in any order and leave out those that have their defaults: `parse_text`
says that reading it gives the configuration back when it is valid and its error when it is not.
-/

namespace Tlsf.Config

variable {s : Serializer} {c : Config} {f : Field} {fields : List Field}

def Field.text (c : Config) : Field → String
  | .regionStart => toString c.regionStart
  | .regionSize => match c.regionSize with
    | none => "null"
    | some size => toString size
  | .trackOwnership => toString c.trackOwnership
  | .stompFreed => toString c.stompFreed

def text (c : Config) (fields : List Field) : String :=
  objectText (fields.map fun f => (f.name, f.text c))

/-- Whether the field has the value that it takes where a text leaves it out. -/
def Field.AtDefault (c : Config) (f : Field) : Prop := c.get f = ({} : Config).get f

/-! Texts of the fields -/

theorem word_digits (n : UInt64) : ∀ c ∈ (toString n).toList, c.isDigit = true := by
  rw [Json.toString_word, String.toList_ofList]
  exact Json.numeral_digits n.toNat

theorem word_ne_null (n : UInt64) : toString n ≠ "null" := by
  intro null
  have digit := word_digits n 'n'
  rw [null] at digit
  exact absurd (digit (by decide)) (by decide)

theorem flat_word (n : UInt64) : Flat (toString n) := by
  intro c mem
  have digit := word_digits n c mem
  constructor
  · rintro rfl
    cases digit
  · rintro rfl
    cases digit

theorem flat_flag (value : Bool) : Flat (toString value) := by
  cases value <;> decide

theorem Field.flat_text (c : Config) (f : Field) : Flat (f.text c) := by
  cases f with
  | regionStart => exact flat_word c.regionStart
  | regionSize =>
    simp only [Field.text]
    cases c.regionSize with
    | none => decide
    | some size => exact flat_word size
  | trackOwnership => exact flat_flag c.trackOwnership
  | stompFreed => exact flat_flag c.stompFreed

theorem fieldText_eq (doc : s.Documented) (c : Config) (f : Field) :
    s.fieldText (declaration s) c f = f.text c := by
  cases f with
  | regionStart => exact doc.word_written c.regionStart
  | regionSize =>
    change s.write (s.option s.word) c.regionSize = Field.text c .regionSize
    simp only [Field.text]
    cases c.regionSize with
    | none => exact doc.none_written s.word
    | some size => exact (doc.some_written s.word size).trans (doc.word_written size)
  | trackOwnership => exact doc.flag_written c.trackOwnership
  | stompFreed => exact doc.flag_written c.stompFreed

theorem read_field (doc : s.Documented) (c : Config) (f : Field) :
    s.read ((declaration s).codec f) (f.text c) = some (c.get f) := by
  cases f with
  | regionStart => exact doc.word_read c.regionStart
  | regionSize =>
    change s.read (s.option s.word) (Field.text c .regionSize) = some c.regionSize
    simp only [Field.text]
    cases c.regionSize with
    | none => exact doc.none_read s.word
    | some size =>
      have written := doc.word_written size
      have nonnull : s.write s.word size ≠ "null" := written ▸ word_ne_null size
      have read : s.read s.word (s.write s.word size) = some size := written ▸ doc.word_read size
      have back := doc.some_read s.word size nonnull read
      rw [written] at back
      exact back
  | trackOwnership => exact doc.flag_read c.trackOwnership
  | stompFreed => exact doc.flag_read c.stompFreed

/-! Texts of configurations -/

theorem listing_text (doc : s.Documented) (c : Config) (fields : List Field) :
    s.listing (declaration s) c fields = c.text fields := by
  simp only [Serializer.listing, text, fieldText_eq doc]
  rfl

theorem read_text (doc : s.Documented) (once : fields.Nodup)
    (left : ∀ f, f ∉ fields → f.AtDefault c) : s.read (codec s) (c.text fields) = some c := by
  rw [← listing_text doc]
  obtain ⟨c', read, listed⟩ := doc.record_listed (declaration s) c once
    (fun f _ => fieldText_eq doc c f ▸ f.flat_text c)
    (fun f _ => fieldText_eq doc c f ▸ read_field doc c f)
  have missing := doc.record_left (declaration s) c once read
  have same : c' = c := (declaration s).ext fun f => by
    by_cases mem : f ∈ fields
    · exact listed f mem
    · exact (missing f mem).trans (left f mem).symm
  rw [codec, read, same]

/-- Reading a configuration back: from what it is written as, and from any text that lists its
fields in some order and leaves out none but those that have their defaults. -/
theorem parse_text (doc : s.Documented) (c : Config) :
    s.write (codec s) c = c.text Field.all ∧
      ∀ fields : List Field, fields.Nodup → (∀ f, f ∉ fields → f.AtDefault c) →
        (c.validate = .ok () → parseWith s (c.text fields) = .ok c) ∧
          ∀ e, c.validate = .error e → parseWith s (c.text fields) = .error e := by
  have written := doc.record_written (declaration s) c
  refine ⟨written.trans (listing_text doc c Field.all), fun fields once left => ?_⟩
  have read : parseWith s (c.text fields) = c.validate.map fun _ => c := by
    rw [parseWith, read_text doc once left]
  constructor
  · intro valid
    rw [read, valid]
    rfl
  · intro e invalid
    rw [read, invalid]
    rfl

theorem parse_text_sample :
    Json.serializer.Documented ∧
      parseWith Json.serializer "\x7b\"region_size\":4096,\"region_start\":64\x7d" =
        .ok { regionStart := 64, regionSize := some 4096 } ∧
      parseWith Json.serializer "\x7b\"region_size\":1,\"region_start\":18446744073709551615\x7d" =
        .error (.regionOverflow 18446744073709551615 1) := by
  have once : [Field.regionSize, Field.regionStart].Nodup := by decide
  have left (start : UInt64) (size : Option UInt64) : ∀ f, f ∉ [Field.regionSize, Field.regionStart] →
      f.AtDefault { regionStart := start, regionSize := size } := by
    intro f missing
    cases f with
    | regionStart => exact absurd (by decide) missing
    | regionSize => exact absurd (by decide) missing
    | trackOwnership => rfl
    | stompFreed => rfl
  have valid := (parse_text Json.documented { regionStart := 64, regionSize := some 4096 }).2 _ once
    (left 64 (some 4096))
  have overflow := (parse_text Json.documented
    { regionStart := 18446744073709551615, regionSize := some 1 }).2 _ once
    (left 18446744073709551615 (some 1))
  exact ⟨Json.documented, valid.1 rfl, overflow.2 _ rfl⟩

end Tlsf.Config
