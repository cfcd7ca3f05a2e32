import Tlsf.Config
import Tlsf.Text.Blank
import Tlsf.Text.Decimal

/-!
A configuration from settings in the host's environment. A setting that is
missing, not valid UTF-8, or not understood keeps its default. Numbers are
decimal with an optional plus sign; flags are words, in any case and between
blanks. The region is not validated here.
-/

namespace Tlsf.Config

def readNumber? (text : String) : Option UInt64 := do
  let digits := match text.toList with
    | '+' :: rest => rest
    | cs => cs
  let n ← Text.natural? digits
  if n < UInt64.size then some (.ofNat n) else none

def readFlag? (text : String) : Option Bool :=
  let word := String.ofList ((Text.trim text.toList).map Char.toLower)
  if word ∈ ["1", "true", "yes", "on"] then some true
  else if word ∈ ["0", "false", "no", "off"] then some false
  else none

/-- The configuration from the settings whose names start with `stem`; `get`
gives the bytes of a setting. -/
def ofEnvironment (stem : String) (get : String → Option ByteArray) : Config :=
  let text? (name : String) : Option String := get (stem ++ name) >>= String.fromUTF8?
  let default : Config := {}
  { regionStart := (text? "_REGION_START" >>= readNumber?).getD default.regionStart
    regionSize := (text? "_REGION_SIZE" >>= readNumber?).or default.regionSize
    trackOwnership := (text? "_TRACK_OWNERSHIP" >>= readFlag?).getD default.trackOwnership
    stompFreed := (text? "_STOMP_FREED" >>= readFlag?).getD default.stompFreed }

end Tlsf.Config
