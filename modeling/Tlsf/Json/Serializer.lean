import Tlsf.Json.Members
import Tlsf.Json.Spelling
import Tlsf.Serializer

/-!
A library of its own for JSON texts. A codec is a pair of translations to and from documents, and
what it writes can be read off the text again. Records may also be read from an array that lists
their leading fields in order.
-/

namespace Tlsf.Json

structure Codec (α : Type) where
  toJson : α → Json
  ofJson? : Json → Option α
  spelled : ∀ a, ∀ t ∈ (toJson a).tokens, t.Spelled

theorem Plain.of_identifier {c : Char} (identifier : c.isAlphanum = true ∨ c = '_') : Plain c := by
  have marks : ∀ n < 0x30, (Char.ofNat n).isAlphanum = false := by decide
  have printable : 0x30 ≤ c.toNat := by
    rcases identifier with inside | rfl
    · refine Nat.le_of_not_lt fun below => ?_
      have mark := marks c.toNat below
      rw [Char.ofNat_toNat, inside] at mark
      cases mark
    · decide
  refine ⟨?_, ?_, Nat.le_trans (by decide) printable⟩
  · rintro rfl
    exact absurd printable (by decide)
  · rintro rfl
    exact absurd identifier (by decide)

namespace Codec

variable {α ι ρ : Type}

def word : Codec UInt64 where
  toJson n := .ofNat n.toNat
  ofJson? j := (j.natural? UInt64.size).map UInt64.ofNat
  spelled n := List.forall_mem_singleton.mpr (numeral_spelled n.toNat)

def flag : Codec Bool where
  toJson value := .bool value
  ofJson? := bool?
  spelled _ := List.forall_mem_singleton.mpr trivial

def option (c : Codec α) : Codec (Option α) where
  toJson a := .ofOption (a.map c.toJson)
  ofJson? := option? c.ofJson?
  spelled a := by
    cases a with
    | none => exact List.forall_mem_singleton.mpr trivial
    | some a => exact c.spelled a

section Records

variable (d : Declaration Codec ι ρ)

def member (r : ρ) (f : ι) : String × Json := (d.name f, (d.codec f).toJson (d.get r f))

theorem member_spelled (r : ρ) (f : ι) : MemberSpelled (member d r f) :=
  ⟨fun c mem => .of_identifier (d.identifier f c mem), (d.codec f).spelled (d.get r f)⟩

def fieldOf? (given : List (String × Json)) (f : ι) : Option (d.Value f) :=
  memberD? (d.codec f).ofJson? (d.name f) (d.get d.default f) given

def fromMembers? (given : List (String × Json)) : Option ρ :=
  if h : ∀ f ∈ d.fields, (fieldOf? d given f).isSome then
    some (d.make fun f => (fieldOf? d given f).get (h f (d.complete f)))
  else none

def record : Codec ρ where
  toJson r := .record (d.fields.map (member d r))
  ofJson? j := j.members? (d.fields.map d.name) >>= fromMembers? d
  spelled r := record_spelled (List.forall_mem_map.mpr fun f _ => member_spelled d r f)

end Records

end Codec

def serializer : Serializer where
  Codec := Codec
  write c a := (c.toJson a).render
  read c text := parse? text >>= c.ofJson?
  word := .word
  flag := .flag
  option := .option
  record := .record

end Tlsf.Json
