import Reckoner.Service.Pool

/-!
# Schedules

Every request has a worker of its own, and at most so many work at once. The responses come in any order and are put
back into the order of the requests; a request whose worker sent none has the generic answer.
-/
namespace Reckoner.Service.Schedule

/-- Start the next worker, after a collection if no place is free. This worker answers before the next collection, so
that one collection frees all places. -/
def engage (limit : Nat) (answer : Worker → Answer) (p : Pool Int Answer) (w : Worker) : Pool Int Answer :=
  let p := if limit ≤ p.active.length then p.collect else p
  (p.spawn w.lineNumber).send w.lineNumber ⟨w.lineNumber, answer w⟩

/-- The pool after all workers have answered and left. -/
def finish (limit : Nat) (answer : Worker → Answer) (ws : List Worker) : Pool Int Answer :=
  (ws.foldl (engage limit answer) {}).collect

/-- The responses of a pool for the first `count` lines, in order. -/
def responsesInOrder (count : Nat) (p : Pool Int Answer) : List Answer :=
  (List.range' 1 count).map fun (line : Nat) => (Keyed.get? (line : Int) p.responses).getD .generic

/-- The answers to requests, in order, with at most `limit` workers at once. -/
def answers (limit : Nat) (ws : List Worker) : List Answer :=
  responsesInOrder ws.length (finish limit (fun w => w.answer.value) ws)

end Reckoner.Service.Schedule
