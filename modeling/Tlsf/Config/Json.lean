import Tlsf.Config.Fields
import Tlsf.Json.Serializer

/-!
Configurations as documents. All four members are written, in a fixed order;
any of them may be missing when one is read and then has its default.
-/

namespace Tlsf.Config

def documents : Json.Codec Config := codec Json.serializer

def toJson (c : Config) : Json := documents.toJson c

def ofJson? (j : Json) : Option Config := documents.ofJson? j

def parse : String → Except ConfigError Config := parseWith Json.serializer

end Tlsf.Config
