import Reckoner.Expr.Operator
import Reckoner.Field.Assignment
import Reckoner.Field.Check

/-!
# Operators from fields

Building an operator from loosely typed data. An operator does not change once it is built.
-/
namespace Reckoner.Operator

def symbolOfDatum (v : Datum) : Field.Checked Char := do
  let s ← Field.asText v
  match s.toList with
  | [c] => return c
  | [] => Field.Checked.fail .stringTooShort
  | _ => Field.Checked.fail .stringTooLong

def precedenceOfDatum (v : Datum) : Field.Checked { n : Nat // 1 ≤ n } := do
  let n ← Field.asInt v
  if h : 1 ≤ n then return ⟨n.toNat, by omega⟩ else Field.Checked.fail .greaterThanEqual

/-- An operator from loosely typed fields, given the operations that a name may stand for. -/
def ofFields (operation? : String → Option Operation) (entries : List (String × Datum)) : Field.Checked Operator :=
  let symbol := Field.required entries "symbol" symbolOfDatum
  let precedence := Field.required entries "precedence" precedenceOfDatum
  let operation := Field.required entries "function" (Field.named? .callableType operation?)
  let fallible := Field.optional entries "fallible" false Field.asBool
  ((symbol.both precedence).both (operation.both fallible)).map fun ((c, p), o, f) => ⟨c, p, o, f, p.2⟩

/-- The form of operators: they do not change. -/
def form : Field.Form := ⟨"Operator", ["symbol", "precedence", "function", "fallible"], true⟩

end Reckoner.Operator
