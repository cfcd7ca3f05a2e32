import Tlsf.Config
import Tlsf.Serializer

/-!
Configurations as records with four fields. A text is read by a library that knows their
declaration, and what it gives is validated.
-/

namespace Tlsf.Config

inductive Field where
  | regionStart
  | regionSize
  | trackOwnership
  | stompFreed
deriving DecidableEq, Repr

namespace Field

def name : Field → String
  | .regionStart => "region_start"
  | .regionSize => "region_size"
  | .trackOwnership => "track_ownership"
  | .stompFreed => "stomp_freed"

/-- The order in which a configuration is written. -/
def all : List Field := [.regionStart, .regionSize, .trackOwnership, .stompFreed]

def Value : Field → Type
  | .regionStart => UInt64
  | .regionSize => Option UInt64
  | .trackOwnership => Bool
  | .stompFreed => Bool

def codec (s : Serializer) : (f : Field) → s.Codec f.Value
  | .regionStart => s.word
  | .regionSize => s.option s.word
  | .trackOwnership => s.flag
  | .stompFreed => s.flag

end Field

def get (c : Config) : (f : Field) → f.Value
  | .regionStart => c.regionStart
  | .regionSize => c.regionSize
  | .trackOwnership => c.trackOwnership
  | .stompFreed => c.stompFreed

def make (value : (f : Field) → f.Value) : Config where
  regionStart := value .regionStart
  regionSize := value .regionSize
  trackOwnership := value .trackOwnership
  stompFreed := value .stompFreed

theorem Field.name_identifier (f : Field) :
    ∀ c ∈ f.name.toList, c.isAlphanum = true ∨ c = '_' := by
  have checked : f.name.toList.all (fun c => c.isAlphanum || c == '_') = true := by
    cases f <;> decide
  simpa only [List.all_eq_true, Bool.or_eq_true, beq_iff_eq] using checked

def declaration (s : Serializer) : Declaration s.Codec Field Config where
  fields := Field.all
  name := Field.name
  Value := Field.Value
  codec := Field.codec s
  get := get
  make := make
  default := {}
  complete f := by cases f <;> decide
  once := by decide
  distinct {f g} same := by cases f <;> cases g <;> simp [Field.name] at same ⊢
  identifier := Field.name_identifier
  make_get _ := rfl
  get_make value := by
    funext f
    cases f <;> rfl

def codec (s : Serializer) : s.Codec Config := s.record (declaration s)

def parseWith (s : Serializer) (text : String) : Except ConfigError Config :=
  match s.read (codec s) text with
  | none => .error .unreadable
  | some c => c.validate.map fun _ => c

end Tlsf.Config
