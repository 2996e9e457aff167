import Reckoner.Log.Logged
import Reckoner.Service.Request

/-!
# Calculations

From a payload to a number. Whoever asks learns only that a request was rejected; its category is kept beside, and the
log tells the rest.
-/
namespace Reckoner.Service

open Log (Logged)

inductive RejectionKind where
  | invalidRequest
  | evaluation (kind : ErrorKind)
  deriving DecidableEq, Repr

def RejectionKind.label : RejectionKind → String
  | .invalidRequest => "invalid_request"
  | .evaluation kind => kind.label

/-- A rejected request: the reason and the text for the client. -/
structure Rejection where
  kind : RejectionKind
  message : String := genericError
  deriving DecidableEq, Repr

/-- A rejection is built from its reason and perhaps a text. -/
def Rejection.arity : Arity := ⟨["kind"], 1⟩

def Rejection.answer (r : Rejection) : Answer :=
  .error r.message

/-- How a calculation ends without a number. -/
inductive Refusal where
  | rejected (r : Rejection)
  /-- Evaluation stopped for a reason that is no evaluation error. -/
  | unexpected (f : Failure)
  deriving DecidableEq, Repr

/-- The request in a payload: data with fields, or the text or the bytes of a document. -/
def requestOf : Datum → Field.Checked Request
  | .dict es => Request.ofDatum (.dict es)
  | v => Request.ofPayload v

/-- The value of an expression; an evaluation error rejects the request. -/
def evaluateRequest (r : Request) : Logged (Except Refusal Number) := do
  match ← evaluateLogged r.expression with
  | .ok v => return .ok v
  | .error (.evaluation e) =>
    Logged.say .warning
      ("🧮❌ [" ++ e.kind.label ++ "] " ++ e.message ++ " in " ++ Text.quoted r.expression)
    return .error (.rejected ⟨.evaluation e.kind, genericError⟩)
  | .error f => return .error (.unexpected f)

/-- The number that a payload asks for. -/
def calculate (payload : Datum) : Logged (Except Refusal Number) :=
  match requestOf payload with
  | .ok r => evaluateRequest r
  | .error ps => do
    Logged.say .warning ("📨❌ Rejected malformed request: " ++ toString ps.length ++ " validation error(s)")
    return .error (.rejected ⟨.invalidRequest, genericError⟩)

end Reckoner.Service
