import Reckoner.Number.Basic
import Reckoner.Keyed
import Reckoner.Text.Pieces

/-!
# Data

The loosely typed values that come from outside: what a document holds, and what configurations are built from.
-/
namespace Reckoner

/-- A value whose type is known only by looking at it. Its texts are of another type. -/
inductive Value (τ : Type) where
  | null
  | bool (b : Bool)
  | number (n : Number)
  | text (s : τ)
  | bytes (bs : List UInt8)
  | list (items : List (Value τ))
  | dict (entries : List (τ × Value τ))
  deriving Inhabited

/-- A value with texts of characters. -/
abbrev Datum := Value String

/-- A value as a document spells it: its texts may hold half a surrogate pair. -/
abbrev Document := Value (List Text.Piece)

namespace Value

variable {τ : Type}

def ofInt (n : Int) : Value τ :=
  .number (.int n)

def typeName : Value τ → String
  | .null => "NoneType"
  | .bool _ => "bool"
  | .number (.int _) => "int"
  | .number (.double _) => "float"
  | .text _ => "str"
  | .bytes _ => "bytes"
  | .list _ => "list"
  | .dict _ => "dict"

end Value
end Reckoner
