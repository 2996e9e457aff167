import Reckoner.Expr.Evaluate
import Reckoner.Field.Check
import Reckoner.Json.Reader
import Reckoner.Json.Writer

/-!
# Requests and answers

What a client asks, an expression, and what it is told, a number or an error text; both as documents with one field.
-/
namespace Reckoner.Service

/-- The only error text that clients are shown. -/
def genericError : String := "Invalid mathematical expression"

structure Request where
  expression : String
  deriving DecidableEq, Repr

inductive Answer where
  | result (value : Number)
  | error (text : String)
  deriving DecidableEq

/-- The values of requests stand in two hundred lists and dictionaries at most, the digits before a point are limited,
and texts have no half of a surrogate pair. -/
def requestDialect : Json.Dialect String :=
  ⟨fun depth _ => depth ≤ 200, true, Text.ofPieces?⟩

def entries : Datum → Field.Checked (List (String × Datum))
  | .dict es => .ok es
  | _ => .fail .modelType

def parseDocument (cs : List Char) : Field.Checked Datum :=
  match Json.read requestDialect cs with
  | .ok v => .ok v
  | .error _ => .fail .jsonInvalid

def parsePayload : Datum → Field.Checked Datum
  | .text s => parseDocument s.toList
  | .bytes bs =>
    match Text.ofUtf8? bs with
    | some cs => parseDocument cs
    | none => .fail .jsonInvalid
  | _ => .fail .jsonType

def document (name : String) (value : Datum) : Datum :=
  .dict [(name, value)]

namespace Request

def ofDatum (v : Datum) : Field.Checked Request := do
  let es ← entries v
  let expression ← Field.required es "expression" Field.asText
  return ⟨expression⟩

def ofPayload (v : Datum) : Field.Checked Request := do
  ofDatum (← parsePayload v)

def toDatum (r : Request) : Datum :=
  document "expression" (.text r.expression)

/-- The document of a request, without blanks and with characters beyond ASCII as they are. -/
def text (r : Request) : List Char :=
  Json.write .compact r.toDatum

end Request

namespace Answer

def resultOfDatum (v : Datum) : Field.Checked Answer := do
  let es ← entries v
  let value ← Field.required es "result" Field.asNumber
  return .result value

/-- An answer with an error text, from loosely typed data. Without a text it is the generic one. -/
def errorOfDatum (v : Datum) : Field.Checked Answer := do
  let es ← entries v
  let text ← Field.optional es "error" genericError Field.asText
  return .error text

def toDatum : Answer → Datum
  | .result v => document "result" (.number v)
  | .error t => document "error" (.text t)

/-- The document of an answer in ASCII, with blanks after colons. -/
def text (a : Answer) : List Char :=
  Json.write .ascii a.toDatum

def generic : Answer := .error genericError

end Answer
end Reckoner.Service
