/-!
# Problems with data

What is wrong with loosely typed data, and where. A check gives a value or all problems that it found; checks of
several fields are joined so that no problem hides another.
-/
namespace Reckoner.Field

inductive Fault where
  | missing
  | stringType
  | stringUnicode
  | stringTooShort
  | stringTooLong
  | intType
  | intParsing
  | intParsingSize
  | intFromFloat
  | finiteNumber
  | greaterThanEqual
  | lessThanEqual
  | boolType
  | boolParsing
  | floatType
  | floatParsing
  | callableType
  | valueError
  | ipAnyAddress
  | frozenInstance
  | modelType
  | jsonType
  | jsonInvalid
  deriving DecidableEq, Repr

def Fault.label : Fault → String
  | .missing => "missing"
  | .stringType => "string_type"
  | .stringUnicode => "string_unicode"
  | .stringTooShort => "string_too_short"
  | .stringTooLong => "string_too_long"
  | .intType => "int_type"
  | .intParsing => "int_parsing"
  | .intParsingSize => "int_parsing_size"
  | .intFromFloat => "int_from_float"
  | .finiteNumber => "finite_number"
  | .greaterThanEqual => "greater_than_equal"
  | .lessThanEqual => "less_than_equal"
  | .boolType => "bool_type"
  | .boolParsing => "bool_parsing"
  | .floatType => "float_type"
  | .floatParsing => "float_parsing"
  | .callableType => "callable_type"
  | .valueError => "value_error"
  | .ipAnyAddress => "ip_any_address"
  | .frozenInstance => "frozen_instance"
  | .modelType => "model_type"
  | .jsonType => "json_type"
  | .jsonInvalid => "json_invalid"

/-- A fault and the path to the part of the data that has it. -/
structure Problem where
  path : List String
  fault : Fault
  deriving DecidableEq, Repr

abbrev Checked (α : Type) := Except (List Problem) α

namespace Checked

def fail {α : Type} (f : Fault) : Checked α :=
  .error [⟨[], f⟩]

def within {α : Type} (name : String) (x : Checked α) : Checked α :=
  x.mapError fun ps => ps.map fun p => { p with path := name :: p.path }

def both {α β : Type} : Checked α → Checked β → Checked (α × β)
  | .ok a, .ok b => .ok (a, b)
  | .ok _, .error qs => .error qs
  | .error ps, .ok _ => .error ps
  | .error ps, .error qs => .error (ps ++ qs)

end Checked
end Reckoner.Field
