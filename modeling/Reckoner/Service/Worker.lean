import Reckoner.Service.Calculation
import Reckoner.Service.Pipe

/-!
# Workers

A worker answers one request line. Whatever happens, it sends one message, its line number with the answer, and closes
its pipe.
-/
namespace Reckoner.Service

open Log (Logged)

/-- A worker's task: a request line that holds more than blanks, and its number from one on. -/
structure Worker where
  request : String
  lineNumber : Int
  request_filled : ¬Text.isBlankText request.toList
  one_le_lineNumber : 1 ≤ lineNumber

namespace Worker

def ofFields (request : String) (lineNumber : Datum) : Field.Checked Worker :=
  let filled : Field.Checked { s : String // ¬Text.isBlankText s.toList } :=
    if h : Text.isBlankText request.toList then (Field.Checked.fail .valueError).within "request"
    else .ok ⟨request, h⟩
  let line : Field.Checked { n : Int // 1 ≤ n } :=
    (Field.asInt lineNumber >>= fun n =>
      if h : 1 ≤ n then .ok ⟨n, h⟩ else Field.Checked.fail .greaterThanEqual).within "line_number"
  (filled.both line).map fun (r, n) => ⟨r, n, r.2, n.2⟩

def answer (w : Worker) : Logged Answer := do
  match ← calculate (.text w.request) with
  | .ok v => return .result v
  | .error (.rejected r) => return r.answer
  | .error (.unexpected f) =>
    Logged.say .error
      ("👷❌ Unexpected failure on line " ++ toString w.lineNumber ++ ": " ++ f.message)
    return .generic

def message (w : Worker) : Logged (Message Answer) := do
  let a ← w.answer
  return ⟨w.lineNumber, a⟩

/-- Run the worker on a pipe: the pipe afterwards, with the message in it and closed. -/
def run (w : Worker) (pipe : Pipe Answer) : Logged (Pipe Answer) := do
  let line := toString w.lineNumber
  Logged.say .info ("👷🏁 Worker started on line " ++ line ++ ": " ++ w.request)
  let m ← w.message
  match m.response with
  | .result v => Logged.say .info ("👷✅ Worker finished on line " ++ line ++ ": " ++ toString v)
  | .error _ => Logged.say .info ("👷⚠️ Worker rejected line " ++ line)
  return (pipe.send m).close

end Worker
end Reckoner.Service
