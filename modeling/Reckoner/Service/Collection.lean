import Reckoner.Service.Pool

/-!
# Collections

A collection as a loop over places, from the last one to the first, with all that it does to the workers. A worker that
is ready is taken out of the list that the places are counted in.
-/
namespace Reckoner.Service

/-- What is done to a worker or reported of it. -/
inductive Deed (ι ρ : Type) where
  | poll (worker : ι) (ready : Bool)
  /-- Reading gives a message or finds that none will come. -/
  | read (worker : ι) (message : Option (Message ρ))
  | report (record : Log.Record)
  | close (worker : ι)
  | join (worker : ι)
  deriving DecidableEq

namespace Deed

variable {ι ρ : Type}

def record? : Deed ι ρ → Option Log.Record
  | .report record => some record
  | _ => none

/-- All that is done to a worker. One that is not ready is left alone. -/
def allTo [ToString ι] : ι × Pipe ρ → List (Deed ι ρ)
  | (name, pipe) =>
    if pipe.isReady then
      match pipe.messages with
      | m :: _ => [.poll name true, .read name (some m), .close name, .join name]
      | [] =>
        [.poll name true, .read name none,
          .report ⟨.error, "👷❌ Worker " ++ toString name ++ " exited without a response"⟩, .close name, .join name]
    else [.poll name false]

end Deed

structure Collection (ι ρ : Type) where
  pool : Pool ι ρ
  deeds : List (Deed ι ρ)

namespace Collection

variable {ι ρ : Type}

def note (d : Deed ι ρ) (c : Collection ι ρ) : Collection ι ρ :=
  { c with deeds := c.deeds ++ [d] }

def read [ToString ι] (name : ι) (messages : List (Message ρ)) (c : Collection ι ρ) : Collection ι ρ :=
  match messages with
  | m :: _ =>
    let c := c.note (.read name (some m))
    { c with pool := { c.pool with responses := Keyed.assign m.line m.response c.pool.responses } }
  | [] =>
    let c := (c.note (.read name none)).note (.report (Pool.silentRecord (toString name)))
    { c with pool := { c.pool with silent := c.pool.silent ++ [name] } }

def visitAt [ToString ι] (c : Collection ι ρ) (place : Nat) : Option (Collection ι ρ) := do
  let (name, pipe) ← c.pool.active[place]?
  let c := c.note (.poll name pipe.isReady)
  if pipe.isReady then
    let c := ((c.read name pipe.messages).note (.close name)).note (.join name)
    let p := { c.pool with joined := c.pool.joined ++ [name], active := c.pool.active.eraseIdx place }
    return { c with pool := p }
  else return c

/-- Visit all places that the list has at the start. A place may be missing in the list when its turn comes. -/
def sweep [ToString ι] (p : Pool ι ρ) : Option (Collection ι ρ) :=
  (List.range p.active.length).reverse.foldlM visitAt ⟨p, []⟩

end Collection
end Reckoner.Service
