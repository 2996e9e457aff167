import Reckoner.Expr.Group

/-!
# Matching parentheses

Which parentheses belong together, found from left to right: a closing one belongs to the nearest opening one that is
still open. Nothing is evaluated, and resolution does not look for partners in this way.
-/
namespace Reckoner.Group

variable {α : Type}

/-- The parentheses up to some token, by their places. -/
structure Matching where
  /-- The opening ones without a partner, the nearest first. -/
  opened : List Nat
  groups : List (Nat × Nat)
  /-- The closing ones without a partner. -/
  stray : List Nat
  deriving DecidableEq

def Matching.take (m : Matching) (place : Nat) : Token α → Matching
  | .opening => { m with opened := place :: m.opened }
  | .closing =>
    match m.opened with
    | [] => { m with stray := place :: m.stray }
    | nearest :: opened => { m with opened := opened, groups := (nearest, place) :: m.groups }
  | _ => m

def matching (ts : List (Token α)) : Matching :=
  ts.zipIdx.foldl (fun m p => m.take p.2 p.1) ⟨[], [], []⟩

def between (ts : List (Token α)) (p q : Nat) : List (Token α) :=
  (ts.take q).drop (p + 1)

/-- Every group that opens behind a place has a value. -/
def EvaluatesBehind [Operand α] (ts : List (Token α)) (place : Nat) : Prop :=
  ∀ p q, (p, q) ∈ (matching ts).groups → place < p → ∃ v, resolve (between ts p q) = .ok v

end Reckoner.Group
