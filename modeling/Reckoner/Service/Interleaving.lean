import Reckoner.Service.Schedule

/-!
# Interleavings

All ways in which a schedule of workers may run. Between two visits of the server any worker at work may send its
message or close its pipe, and a collection visits the workers one by one, so that it may find any of them ready. A
state also keeps how the workers have ended so far, which no step looks at. The run that `Schedule.answers` computes is
one of these.
-/
namespace Reckoner.Service.Interleaving

variable {ρ : Type}

def lineNumbers (count : Nat) : List Int :=
  (List.range' 1 count).map fun (line : Nat) => (line : Int)

/-- A schedule under way: the lines that wait for a worker, the pool, and the workers that the collection at hand has
still to visit, the next one last. -/
structure State (ρ : Type) where
  waiting : List Int
  pool : Pool Int ρ
  toVisit : List Int := []
  /-- How workers ended their work, in that order: each with the response that it sent, or with none. -/
  ends : List (Int × Option ρ) := []

def State.start (lines : List Int) : State ρ :=
  { waiting := lines, pool := {} }

/-- How the worker of a line ended its work, as often as it did. -/
def State.endsOf (st : State ρ) (line : Int) : List (Option ρ) :=
  (st.ends.filter fun e => e.1 = line).map (·.2)

/-- A worker at work has neither sent a message nor closed its pipe. -/
def IsBusy (line : Int) (p : Pool Int ρ) : Prop :=
  (line, ({} : Pipe ρ)) ∈ p.active

/-- One step of a schedule with so many places. -/
inductive Step (limit : Nat) : State ρ → State ρ → Prop where
  /-- A worker starts in a free place, between two collections. -/
  | spawn {line : Int} {rest : List Int} {p : Pool Int ρ} {ends : List (Int × Option ρ)}
      (free : p.active.length < limit) : Step limit ⟨line :: rest, p, [], ends⟩ ⟨rest, p.spawn line, [], ends⟩
  | send {st : State ρ} {line : Int} (response : ρ) (busy : IsBusy line st.pool) :
      Step limit st { st with
        pool := st.pool.send line ⟨line, response⟩
        ends := st.ends ++ [(line, some response)] }
  /-- A worker closes its pipe without a message. -/
  | close {st : State ρ} {line : Int} (busy : IsBusy line st.pool) :
      Step limit st { st with pool := st.pool.close line, ends := st.ends ++ [(line, none)] }
  /-- A worker closes its pipe after its message. -/
  | hangUp {st : State ρ} {line : Int} {m : Message ρ} (sent : (line, ⟨[m], false⟩) ∈ st.pool.active) :
      Step limit st { st with pool := st.pool.close line }
  /-- A collection begins, while no place is free or no line waits. -/
  | collect {waiting : List Int} {p : Pool Int ρ} {ends : List (Int × Option ρ)}
      (full : waiting = [] ∨ limit ≤ p.active.length) :
      Step limit ⟨waiting, p, [], ends⟩ ⟨waiting, p, p.active.map (·.1), ends⟩
  /-- The collection finds a worker ready. -/
  | take {waiting before : List Int} {line : Int} {p : Pool Int ρ} {ends : List (Int × Option ρ)} {pipe : Pipe ρ}
      (active : (line, pipe) ∈ p.active) (ready : pipe.isReady = true) :
      Step limit ⟨waiting, p, before ++ [line], ends⟩
        ⟨waiting, Pool.visit (line, pipe) { p with active := p.active.filter fun w => w.1 ≠ line }, before, ends⟩
  /-- The collection does not find a worker ready. -/
  | skip {waiting before : List Int} {line : Int} {p : Pool Int ρ} {ends : List (Int × Option ρ)} :
      Step limit ⟨waiting, p, before ++ [line], ends⟩ ⟨waiting, p, before, ends⟩

inductive Reachable (limit : Nat) (lines : List Int) : State ρ → Prop where
  | start : Reachable limit lines (.start lines)
  | step {st st' : State ρ} : Reachable limit lines st → Step limit st st' → Reachable limit lines st'

def State.IsFinished (st : State ρ) : Prop :=
  st.waiting = [] ∧ st.pool.active = [] ∧ st.toVisit = []

end Reckoner.Service.Interleaving
