import Reckoner.Text.Quoted
import Reckoner.Datum.Basic

/-!
# Setting fields

What setting a name of a built record to a value leads to. A name that begins with an underscore is no field: anything
may be noted under it, but for the few names that every record keeps for itself. Of the other names a frozen record
refuses all, and any other record refuses those that are not its fields.
-/
namespace Reckoner.Field

structure Form where
  name : String
  fields : List String
  /-- Whether a record keeps the values that it was built with. -/
  frozen : Bool
  deriving DecidableEq, Repr

inductive Refusal where
  | frozen
  | unknownField
  /-- The name gives a value that is computed from the record. -/
  | computed
  /-- The name is for the references to the record, which nobody sets. -/
  | notWritable
  /-- The name is for the form of the record, and the value of that type is none. -/
  | notForm (typeName : String)
  /-- The name is for all fields at once, and the value of that type is no dictionary. -/
  | notDictionary (typeName : String)
  deriving DecidableEq, Repr

namespace Form

/-- The names without an underscore that give computed values. -/
def computedNames : List String := ["model_extra", "model_fields_set"]

/-- Why a name that begins with an underscore cannot be set, if it cannot. -/
def reservedRefusal? (name : String) (value : Datum) : Option Refusal :=
  match name, value with
  | "__class__", v => some (.notForm v.typeName)
  | "__dict__", .dict _ => none
  | "__dict__", v => some (.notDictionary v.typeName)
  | "__weakref__", _ => some .notWritable
  | "__fields__", _ | "__fields_set__", _ => some .computed
  | _, _ => none

def isFree (name : String) : Bool :=
  name.toList.head? = some '_'

def refusal? (form : Form) (name : String) (value : Datum) : Option Refusal :=
  if isFree name then reservedRefusal? name value
  else if form.frozen then some .frozen
  else if computedNames.contains name then some .computed
  else if form.fields.contains name then none
  else some .unknownField

def refusalText (form : Form) (name : String) : Refusal → String
  | .frozen => "Instance is frozen"
  | .unknownField => "\"" ++ form.name ++ "\" object has no field \"" ++ name ++ "\""
  | .computed =>
    "property " ++ Text.quoted name ++ " of " ++ Text.quoted form.name ++ " object has no setter"
  | .notWritable =>
    "attribute " ++ Text.quoted name ++ " of " ++ Text.quoted form.name ++ " objects is not writable"
  | .notForm typeName => name ++ " must be set to a class, not " ++ Text.quoted typeName ++ " object"
  | .notDictionary typeName => name ++ " must be set to a dictionary, not a " ++ Text.quoted typeName

theorem refusal?_of_frozen {form : Form} {name : String} (hf : form.frozen = true) (hn : isFree name = false)
    (value : Datum) : form.refusal? name value = some .frozen := by
  simp [refusal?, hf, hn]

end Form
end Reckoner.Field
