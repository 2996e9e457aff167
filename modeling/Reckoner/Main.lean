import Reckoner.Command.Run

/-!
# The program

The outer layer: it reads arguments, files and request lines, and prints what the library answers. `serve` answers the
requests on standard input as those of one client; `run` answers the requests that a file's expressions make.
-/
namespace Reckoner

def processors : Nat := 8

/-- What the program itself leaves of a stack of a thousand calls. -/
def room : Service.StackRoom := ⟨988, by decide⟩

/-- The bytes of a stream up to its end. -/
partial def readAll (input : IO.FS.Stream) (got : ByteArray) : IO ByteArray := do
  let chunk ← input.read 65536
  if chunk.isEmpty then return got else readAll input (got ++ chunk)

def readFiles (args : List String) : IO (List (Path × List UInt8)) :=
  args.filterMapM fun arg => do
    let path := Path.ofText arg.toList
    try
      let bytes ← IO.FS.readBinFile (String.ofList path.text)
      return some (path, bytes.toList)
    catch _ => return none

def finish (p : Command.Printed) : IO UInt32 := do
  IO.print p.out
  IO.eprint p.err
  return p.status.toUInt32

def abort (message : String) : IO UInt32 := do
  IO.eprintln message
  return 1

/-- Say how a command line is written: as an answer if help was asked for, else as a complaint. -/
def explain (e : Command.Exit) : IO UInt32 := do
  match e with
  | .help => IO.print Command.usage
  | .usage => IO.eprint Command.usage
  | .file f => IO.eprintln f.message
  return e.code.toUInt32

def serveInput (endpoint : Net.Endpoint) : IO UInt32 := do
  let received ← readAll (← IO.getStdin) .empty
  let client : Service.Server.Client := { pieces := [received.toList], address := ("stdin", 0) }
  match ({ endpoint } : Service.Server).serveForever processors [client] with
  | .error _ => abort Service.genericError
  | .ok session => do
    for r in session.log do IO.eprintln r.text
    for c in session.clients do IO.print (String.ofList c.sent)
    return 0

/-- Write the results file of an input file. What keeps it from being written is reported when it is tried. -/
def runInput (path : Path) (endpoint : Net.Endpoint) (contents : List UInt8) : IO UInt32 := do
  let session := Command.runFile processors room (fun _ => .nothing) path endpoint contents
  if let some (output, text) := session.written then
    IO.FS.writeFile (String.ofList output.text) text
  match session.outcome with
  | .ok p => finish p
  | .error (.path f) => abort f.message
  | .error (.output f) => abort f.message
  | .error (.file _) => abort ("Cannot write the results of " ++ String.ofList path.text)

end Reckoner

def main (args : List String) : IO UInt32 := do
  let files ← Reckoner.readFiles args
  let look (p : Reckoner.Path) : Reckoner.Files.Target := (Reckoner.Keyed.get? p files).elim .nothing .file
  match Reckoner.Command.parse look args with
  | .error e => Reckoner.explain e
  | .ok (.eval expression) =>
    match Reckoner.Command.evalExpression expression with
    | .ok p => Reckoner.finish p
    | .error f => Reckoner.abort f.message
  | .ok (.serve endpoint) => Reckoner.serveInput endpoint
  | .ok (.run path endpoint) => Reckoner.runInput path endpoint ((Reckoner.Keyed.get? path files).getD [])
