import Reckoner.Text.Blank
import Reckoner.Text.Parts
import Reckoner.Number.DigitLimit
import Reckoner.Net.Endpoint
import Reckoner.Command.Arguments

/-!
# Command lines

The three commands and their options: `eval` with an expression, `serve` with an endpoint, `run` with a file and an
endpoint.
-/
namespace Reckoner.Command

inductive Invocation where
  | eval (expression : String)
  | serve (endpoint : Net.Endpoint)
  | run (file : Path) (endpoint : Net.Endpoint)
  deriving DecidableEq, Repr

inductive Verb where
  | eval
  | serve
  | run
  deriving DecidableEq, Repr

namespace Verb

def all : List Verb :=
  [.eval, .serve, .run]

def name : Verb → String
  | .eval => "eval"
  | .serve => "serve"
  | .run => "run"

def ofName? (name : List Char) : Option Verb :=
  all.find? fun v => v.name.toList = name

@[simp] theorem ofName?_name (v : Verb) : ofName? v.name.toList = some v := by
  cases v <;> decide

def synopsis : Verb → String
  | .eval => "EXPRESSION"
  | .serve => "[--host HOST] [--port PORT]"
  | .run => "[--host HOST] [--port PORT] FILE"

def flags : Verb → List Flag
  | .eval => [.help]
  | .serve | .run => [.help, .host, .port]

def takesOperand : Verb → Bool
  | .eval | .run => true
  | .serve => false

end Verb

def usage : String :=
  String.join ("usage:\n" :: Verb.all.map fun v => "  reckoner " ++ v.name ++ " " ++ v.synopsis ++ "\n")

/-- The number that an argument writes: white space around it, one sign, decimal digits of any script, and single
underscores between them. -/
def wholeNumber? (cs : List Char) : Option Int :=
  let body := Text.trimWhere Text.isWhiteSpace cs
  let (negative, ds) := Text.splitSign body
  match (Text.parts '_' ds).mapM fun g => if g.isEmpty then none else g.mapM Text.decimalDigit? with
  | none => none
  | some groups =>
    let values := groups.flatten
    if DigitLimit.maxDigits < values.length then none
    else some (Text.signed negative (Text.ofDigitValues 10 values))

structure Reading where
  operand : Option (List Char) := none
  host : Option (List Char) := none
  /-- The port if it was given: its number, or none for an attached double dash, which stands for no value. -/
  port : Option (Option Int) := none
  leftover : Bool := false

def Reading.setFlag (r : Reading) (f : Flag) (value : List Char) : Except Exit Reading :=
  match f with
  | .help => .error .help
  | .host => .ok { r with host := some value }
  | .port =>
    if value = ['-', '-'] then .ok { r with port := some none }
    else
      match wholeNumber? value with
      | some n => .ok { r with port := some (some n) }
      | none => .error .usage

/-- Take arguments from left to right. The first plain one is the operand if the command has one; a separator beside it
goes with it. -/
def take (operandExpected : Bool) (r : Reading) : List Shaped → Except Exit Reading
  | [] => .ok r
  | (.plain, arg) :: rest =>
    if operandExpected then
      let r := { r with operand := some arg }
      match rest with
      | (.separator, _) :: rest => take false r rest
      | rest => take false r rest
    else take false { r with leftover := true } rest
  | (.separator, _) :: rest =>
    if operandExpected then
      match rest with
      | (.plain, arg) :: rest => take false { r with operand := some arg } rest
      | rest => take operandExpected { r with leftover := true } rest
    else take operandExpected { r with leftover := true } rest
  | (.option none, _) :: rest => take operandExpected { r with leftover := true } rest
  | (.option (some m), _) :: rest =>
    if m.flag = .help then .error (if isHelp m then .help else .usage)
    else
      match m.attached with
      | .value v | .joined v => do
        let r ← r.setFlag m.flag v
        take operandExpected r rest
      | .nothing =>
        match rest with
        | (.plain, v) :: rest => do
          let r ← r.setFlag m.flag v
          take operandExpected r rest
        | _ => .error .usage

/-- A value of the arguments that was checked, or the exit of a faulty command line. -/
def orUsage {α : Type} : Field.Checked α → Except Exit α
  | .ok a => .ok a
  | .error _ => .error .usage

def Reading.endpoint (r : Reading) : Except Exit Net.Endpoint := do
  let host ←
    match r.host with
    | none => pure Net.Endpoint.default.host
    | some cs => orUsage (Net.Address.ofDatum (.text (String.ofList cs)))
  match r.port.getD (some Net.Endpoint.default.port) with
  | none => throw .usage
  | some n => return .ofParts host (← orUsage (Net.Endpoint.portOfInt n))

/-- The command of a verb with its arguments. Its file must be there. -/
def Reading.command (look : Path → Files.Target) (verb : Verb) (r : Reading) : Except Exit Invocation :=
  if r.leftover then .error .usage
  else
    match verb, r.operand with
    | .eval, some e => .ok (.eval (String.ofList e))
    | .serve, _ => do return .serve (← r.endpoint)
    | .run, some f =>
      let path := Path.ofText f
      match look path with
      | .file _ => do return .run path (← r.endpoint)
      | .tooLong => .error (.file (.nameTooLong path))
      | .folder | .nothing => .error .usage
    | _, none => .error .usage

/-- Find the command among arguments, and read what follows it with the options of that command. -/
def findVerb (look : Path → Files.Target) (leftover : Bool) : List Shaped → Except Exit Invocation
  | [] => .error .usage
  | (.plain, name) :: rest =>
    match Verb.ofName? name with
    | none => .error .usage
    | some verb => do
      let args ← shapes (flagNames verb.flags) (rest.map (·.2))
      let r ← take verb.takesOperand {} args
      Reading.command look verb { r with leftover := leftover || r.leftover }
  | (.separator, _) :: _ => .error .usage
  | (.option none, _) :: rest => findVerb look true rest
  | (.option (some m), _) :: _ => .error (if isHelp m then .help else .usage)

def parse (look : Path → Files.Target) (argv : List String) : Except Exit Invocation := do
  let args ← shapes (flagNames [.help]) (argv.map String.toList)
  findVerb look false args

end Reckoner.Command
