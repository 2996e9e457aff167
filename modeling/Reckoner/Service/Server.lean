import Reckoner.Text.Line
import Reckoner.Datum.Arithmetic
import Reckoner.Field.Assignment
import Reckoner.Net.Endpoint
import Reckoner.Service.Schedule

/-!
# The server

A client sends request lines and shuts its side down; the server answers them line by line in the same order and closes
the connection. Clients are served one after another, some number of them or until the server is interrupted.
-/
namespace Reckoner.Service

open Log (Logged)

theorem one_le_of_mem_none : ∀ n ∈ (none : Option Nat), 1 ≤ n := by
  intro n h
  cases h

structure Server where
  endpoint : Net.Endpoint := .default
  /-- How many workers may be at work at once; as many as there are processors, if nothing is said. -/
  maxWorkers : Option Nat := none
  one_le_maxWorkers : ∀ n ∈ maxWorkers, 1 ≤ n := by exact Reckoner.Service.one_le_of_mem_none

namespace Server

def form : Field.Form := ⟨"CalculatorServer", ["host", "port", "max_workers"], false⟩

def maxWorkersOfDatum (v : Datum) : Field.Checked { o : Option Nat // ∀ n ∈ o, 1 ≤ n } :=
  Field.orNull Field.asInt v >>= fun
    | none => .ok ⟨none, one_le_of_mem_none⟩
    | some n => if h : 1 ≤ n then .ok ⟨some n.toNat, by simp; omega⟩ else .fail .greaterThanEqual

def ofFields (entries : List (String × Datum)) : Field.Checked Server :=
  let endpoint := Net.Endpoint.ofFields entries
  let workers := Field.optional entries "max_workers" ⟨none, one_le_of_mem_none⟩ maxWorkersOfDatum
  (endpoint.both workers).map fun (e, w) => ⟨e, w, w.2⟩

/-- How many workers may be at work at once for so many requests. -/
def slots (s : Server) (processors requests : Nat) : Nat :=
  min (s.maxWorkers.getD processors) requests

def requestLines (received : List UInt8) : List String :=
  (Text.filledLines (Text.ofUtf8Lossy received)).map String.ofList

/-- The request lines that a client sent. The pieces in which its bytes arrive are joined first, so that a piece may end
inside a line or a character. -/
def receive (pieces : List (List UInt8)) : List String :=
  requestLines pieces.flatten

def workers (requests : List String) : Field.Checked (List Worker) :=
  (requests.zipIdx 1).mapM fun (r, i) => Worker.ofFields r (.ofInt i)

def answers (s : Server) (processors : Nat) (requests : List String) : Field.Checked (List Answer) :=
  (workers requests).map (Schedule.answers (s.slots processors requests.length))

/-- The bytes that answer a client: one line for each answer. -/
def replyText (as : List Answer) : List Char :=
  as.flatMap fun a => a.text ++ ['\n']

/-- The client's side of a connection. -/
structure Connection where
  /-- The pieces in which the bytes that the client sends arrive. -/
  pieces : List (List UInt8)
  /-- Why sending to the client fails, if it does. -/
  gone : Option String := none

/-- Send a client the answers to so many requests. The value is what it is sent, if sending succeeds. -/
def deliver (c : Connection) (requests : Nat) (as : List Answer) : Logged (Option (List Char)) := do
  Logged.say .info ("📨 Received " ++ toString requests ++ " request(s)")
  match c.gone with
  | none =>
    Logged.say .info "✉️ Responses sent to client"
    return some (replyText as)
  | some reason =>
    Logged.say .error ("🔌❌ Client disconnected before receiving responses: " ++ reason)
    return none

/-- Answer the request lines of a client. -/
def handleClient (s : Server) (processors : Nat) (c : Connection) : Field.Checked (Logged (Option (List Char))) :=
  let requests := receive c.pieces
  (s.answers processors requests).map (deliver c requests.length)

/-- A client that connects. -/
structure Client extends Connection where
  /-- The host and the port that it connects from. -/
  address : String × Nat

/-- What became of a client: what it was sent, and whether its connection was closed. -/
structure Served where
  sent : List Char := []
  closed : Bool := false
  deriving DecidableEq

def Served.close (r : Served) : Served :=
  { r with closed := true }

structure Session where
  events : List Net.Event
  log : List Log.Record
  clients : List Served
  /-- Whether it waited for a client when it was interrupted. -/
  interrupted : Bool

/-- Serve arriving clients, at most `limit` of them if that is given, and close each connection when its client was
handled. When none is left the server is interrupted. -/
def serveClients (s : Server) (processors : Nat) : Option Nat → List Client → Field.Checked Session
  | some 0, cs => .ok ⟨[], [], cs.map fun _ => {}, false⟩
  | _, [] => .ok ⟨[.accept], [], [], true⟩
  | limit, c :: cs => do
    let handled ← s.handleClient processors c.toConnection
    let served : Served := { sent := handled.value.getD [] }
    let rest ← serveClients s processors (limit.map (· - 1)) cs
    return ⟨.accept :: .close :: rest.events,
      ⟨.info, "🔌 Client connected from " ++ c.address.1 ++ ":" ++ toString c.address.2⟩ :: handled.log ++ rest.log,
      served.close :: rest.clients, rest.interrupted⟩

/-- Listen, and serve so many clients, or all that come. -/
def start (s : Server) (processors : Nat) (limit : Option Int) (cs : List Client) : Field.Checked Session := do
  let session ← s.serveClients processors (limit.map Int.toNat) cs
  let endpoint := toString s.endpoint.host ++ ":" ++ toString s.endpoint.port
  return { session with
    events := .bind s.endpoint :: .listen :: session.events
    log := ⟨.info, "🖥️ Starting server on " ++ endpoint⟩ :: ⟨.info, "🖥️ Server listening"⟩ :: session.log }

/-- How many clients are served while their count is below a value; all that come, if it is null. -/
def limitOfDatum : Datum → Except OperandFault (Option Nat)
  | .null => .ok none
  | v =>
    match v.number? with
    | some n => .ok n.countBelow?
    | none => .error (.unordered "int" v.typeName)

def serveForever (s : Server) (processors : Nat) (cs : List Client) : Field.Checked Session := do
  let session ← s.start processors none cs
  return { session with
    log := session.log ++ [⟨.info, "🖥️ Server stopped"⟩]
    interrupted := false }

end Server
end Reckoner.Service
