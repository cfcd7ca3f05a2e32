/-!
The configuration of a pool: which part of the buffer it manages, whether it
tracks ownership, and whether released payloads are overwritten. `validate`
refuses regions that make no sense for any buffer, and `resolve` fits a
configuration to one buffer.
-/

namespace Tlsf

structure Config where
  regionStart : UInt64 := 0
  /-- The region's length; none reaches to the end of the buffer. -/
  regionSize : Option UInt64 := none
  trackOwnership : Bool := false
  stompFreed : Bool := true
deriving DecidableEq, Repr

inductive ConfigError where
  | emptyRegion
  | regionOverflow (start size : Nat)
  | startBeyond (start length : Nat)
  | regionExceeds (start stop length : Nat)
  /-- A text that is no configuration. What its reader says about that is left out. -/
  | unreadable
  /-- A reason that the host states. -/
  | stated (reason : String)
deriving DecidableEq, Repr

namespace ConfigError

def reason : ConfigError → String
  | .emptyRegion => "region_size must be greater than zero"
  | .regionOverflow start size => s!"region [{start}, +{size}) overflows the address space"
  | .startBeyond start length => s!"region_start {start} lies beyond buffer of {length} bytes"
  | .regionExceeds start stop length =>
    s!"region [{start}, {stop}) exceeds buffer of {length} bytes"
  | .unreadable => "the document is not a pool configuration"
  | .stated reason => reason

def message (e : ConfigError) : String := "Invalid configuration: " ++ e.reason

end ConfigError

namespace Config

/-- Refuses an empty region and one that ends past the last 64-bit offset. -/
def validate (c : Config) : Except ConfigError Unit :=
  match c.regionSize with
  | none => .ok ()
  | some size =>
    if size = 0 then .error .emptyRegion
    else if c.regionStart.toNat + size.toNat < UInt64.size then .ok ()
    else .error (.regionOverflow c.regionStart.toNat size.toNat)

def resolve (c : Config) (length : Nat) : Except ConfigError (Nat × Nat) := do
  c.validate
  let start := c.regionStart.toNat
  if length < start then throw (.startBeyond start length)
  let size := match c.regionSize with
    | none => length - start
    | some size => size.toNat
  if length < start + size then throw (.regionExceeds start (start + size) length)
  pure (start, size)

end Config

end Tlsf
