import Reckoner.Expr.Trace

/-!
# Passes

An evaluation step by step, with every state that it comes through. A flat pass takes its tokens from left to right and
applies one sign at a time (`Flat.Step`). Around it the group that opens last is replaced by its value, again and again,
until a pass over what is left ends the evaluation (`Group.Traced`). What this loop is left with at any time is a stage.
-/
namespace Reckoner

variable {α : Type}

namespace Flat

/-- A point of a flat pass: what waits on the stacks, how many signs were applied to get there, and the tokens to come. -/
structure Moment (α : Type) where
  waiting : Stacks α
  applied : Nat
  rest : List (Token α)

def Moment.start (ts : List (Token α)) : Moment α :=
  ⟨.empty, 0, ts⟩

/-- Whether a pending sign is applied before the tokens to come: at their end, and before a sign that does not bind more
tightly. -/
def IsDue (s : Sign) : List (Token α) → Prop
  | [] => True
  | .sign next :: _ => next.precedence ≤ s.precedence
  | _ => False

inductive Step [Operand α] : Moment α → Moment α → Prop where
  | operand {os : List α} {ss : List Sign} {n : Nat} {v : α} {rest : List (Token α)} :
      Step ⟨⟨os, ss⟩, n, .operand v :: rest⟩ ⟨⟨v :: os, ss⟩, n, rest⟩
  /-- The latest pending sign is applied. -/
  | apply {os os' : List α} {s : Sign} {ss : List Sign} {n : Nat} {rest : List (Token α)} (due : IsDue s rest)
      (result : applyTop s os = .ok os') : Step ⟨⟨os, s :: ss⟩, n, rest⟩ ⟨⟨os', ss⟩, n + 1, rest⟩
  /-- A sign is put behind those that bind more loosely. -/
  | sign {os : List α} {ss : List Sign} {n : Nat} {s : Sign} {rest : List (Token α)}
      (looser : ∀ top ∈ ss.head?, top.precedence < s.precedence) :
      Step ⟨⟨os, ss⟩, n, .sign s :: rest⟩ ⟨⟨os, s :: ss⟩, n, rest⟩

/-- The points that a flat pass over some tokens comes to. -/
inductive Reaches [Operand α] (ts : List (Token α)) : Moment α → Prop where
  | start : Reaches ts (.start ts)
  | step {m m' : Moment α} : Reaches ts m → Step m m' → Reaches ts m'

end Flat

namespace Group

/-- What may be left of some tokens when groups are replaced by their values, the one that opens last first. -/
def Stage [Operand α] (ts us : List (Token α)) : Prop :=
  ∃ splices, Traced ts splices us

/-- The tokens of each flat pass: those in the last group, and those that are left without any. -/
inductive Pass [Operand α] (ts : List (Token α)) : List (Token α) → Prop where
  | group {us before inside after : List (Token α)} (stage : Stage ts us) (group : IsLast us before inside after) :
      Pass ts inside
  | whole {us : List (Token α)} (stage : Stage ts us) (flat : .opening ∉ us) : Pass ts us

/-- How an evaluation stops at a stage: the last group does not end or has no value, or no group is left and the tokens
have no value. -/
def Stops [Operand α] (ts : List (Token α)) (e : Failure) : Prop :=
  ∃ splices place, Concludes ts splices place (.error e)

end Group
end Reckoner
