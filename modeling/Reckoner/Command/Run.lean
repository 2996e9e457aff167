import Reckoner.Service.Client
import Reckoner.Service.Server
import Reckoner.Command.Options

/-!
# Running commands

What each command does, apart from the sockets and files that it does it with. A session of `run` is the exchange
between a client and a server that were started for it.
-/
namespace Reckoner.Command

structure Printed where
  status : Nat
  out : String := ""
  err : String := ""
  deriving DecidableEq, Repr

/-- Print the value of an expression, or why it has none. Failures other than evaluation errors are not handled. -/
def evalExpression (expression : String) : Except Failure Printed :=
  match evaluate expression with
  | .ok v => .ok { status := 0, out := toString v ++ "\n" }
  | .error (.evaluation e) =>
    .ok { status := 1, err := Service.genericError ++ " (" ++ e.kind.label ++ ": " ++ e.message ++ ")\n" }
  | .error f => .error f

def replyOf (server : Service.Server) (processors : Nat) (payload : List UInt8) : List UInt8 :=
  match server.handleClient processors ⟨[payload], none⟩ with
  | .ok served => Text.toUtf8 (served.value.getD [])
  | .error _ => []

inductive RunFault where
  | path (fault : Path.Fault)
  | output (fault : Files.Fault)
  | file (fault : Service.ResultsFile.Fault)
  deriving DecidableEq, Repr

/-- What running a file did: the results file and its text if it was opened, and the events. -/
structure FileSession where
  written : Option (Path × String) := none
  events : List Net.Event := []
  outcome : Except RunFault Printed

def sessionEvents (endpoint : Net.Endpoint) (connected : Bool) : List Net.Event :=
  (if connected then [.connect endpoint, .shutdownWrite, .bind endpoint, .listen, .accept, .close] else [])
    ++ [.terminate, .join]

/-- What is left of a run whose results file cannot be opened: the exchange came before. -/
def closeOutput (fault : Files.Fault) (s : FileSession) : FileSession :=
  if s.written.isSome then { s with written := none, outcome := .error (.output fault) } else s

/-- Send the expressions of a file to a server and write the results beside it. -/
def runFile (processors : Nat) (room : Service.StackRoom) (look : Path → Files.Target) (path : Path) (endpoint : Net.Endpoint)
    (contents : List UInt8) : FileSession :=
  match path.resultsFile with
  | .error f => { outcome := .error (.path f) }
  | .ok output =>
    let run := Service.ResultsFile.send room (replyOf { endpoint } processors) contents
    let session : FileSession :=
      { written := run.written.map (output, ·)
        events := sessionEvents endpoint run.payload.isSome
        outcome :=
          match run.fault with
          | some f => .error (.file f)
          | none => .ok { status := 0, out := String.ofList output.text ++ "\n" } }
    ((look output).writeFault? output).elim session fun fault => closeOutput fault session

end Reckoner.Command
