import Reckoner.Keyed
import Reckoner.Log.Record
import Reckoner.Service.Worker

/-!
# Pools of workers

The workers at work, each with a pipe to the server, and what was collected from those that are done. A collection
visits the workers from last to first; a worker whose pipe has a message or was closed is ready, and leaves.
-/
namespace Reckoner.Service

/-- Workers by name, and responses by line. -/
structure Pool (ι ρ : Type) where
  /-- The workers at work, in the order in which they started. -/
  active : List (ι × Pipe ρ) := []
  /-- The workers that are done, in the order in which they left. -/
  joined : List ι := []
  /-- Those among them that never sent a message. -/
  silent : List ι := []
  responses : List (Int × ρ) := []

namespace Pool

variable {ι ρ : Type} [DecidableEq ι]

def spawn (name : ι) (p : Pool ι ρ) : Pool ι ρ :=
  { p with active := p.active ++ [(name, {})] }

def withPipe (name : ι) (f : Pipe ρ → Pipe ρ) (p : Pool ι ρ) : Pool ι ρ :=
  { p with active := p.active.map fun (n, pipe) => if n = name then (n, f pipe) else (n, pipe) }

def send (name : ι) (m : Message ρ) : Pool ι ρ → Pool ι ρ :=
  withPipe name (·.send m)

def close (name : ι) : Pool ι ρ → Pool ι ρ :=
  withPipe name (·.close)

/-- Visit a worker: if it is ready, read one message and let it go, else keep it at work. -/
def visit (worker : ι × Pipe ρ) (p : Pool ι ρ) : Pool ι ρ :=
  let (name, pipe) := worker
  if pipe.isReady then
    match pipe.messages with
    | m :: _ => { p with joined := p.joined ++ [name], responses := Keyed.assign m.line m.response p.responses }
    | [] => { p with joined := p.joined ++ [name], silent := p.silent ++ [name] }
  else { p with active := worker :: p.active }

def collect (p : Pool ι ρ) : Pool ι ρ :=
  p.active.foldr visit { p with active := [] }

def silentRecord (name : String) : Log.Record :=
  ⟨.error, "👷❌ Worker " ++ name ++ " exited without a response"⟩

end Pool
end Reckoner.Service
