import Reckoner.Expr.Group

/-!
# Groups in any order

Resolution replaces the group that opens last. Any group that holds no other one could be next. A pass picks such a group
by whatever rule and puts its value in its place, until no group is left to pick.
-/
namespace Reckoner.Group

variable {α : Type}

/-- A group without parentheses inside, with the tokens before it, in it and after it. -/
structure IsInnermost (ts before inside after : List (Token α)) : Prop where
  eq_append : ts = before ++ .opening :: (inside ++ .closing :: after)
  opening_notMem : .opening ∉ inside
  closing_notMem : .closing ∉ inside

/-- What some number of passes leave of tokens. -/
inductive Spliced [Operand α] (ts : List (Token α)) : Nat → List (Token α) → Prop where
  | start : Spliced ts 0 ts
  | pass {n : Nat} {us before inside after : List (Token α)} {v : α} (spliced : Spliced ts n us)
      (group : IsInnermost us before inside after) (value : Flat.value inside = .ok v) :
      Spliced ts (n + 1) (before ++ .operand v :: after)

/-- How evaluation ends with a number of passes: the tokens without groups are evaluated, the group of the last pass has
no value, or an opening parenthesis is left and no group is. -/
inductive Yields [Operand α] (ts : List (Token α)) : Nat → Except Failure α → Prop where
  | flat {n : Nat} {us : List (Token α)} (spliced : Spliced ts n us) (flat : .opening ∉ us) :
      Yields ts n (Flat.value us)
  | group {n : Nat} {us before inside after : List (Token α)} {e : Failure} (spliced : Spliced ts n us)
      (group : IsInnermost us before inside after) (failure : Flat.value inside = .error e) :
      Yields ts (n + 1) (.error e)
  | stuck {n : Nat} {us : List (Token α)} (spliced : Spliced ts n us) (remains : .opening ∈ us)
      (noGroup : ∀ before inside after, ¬IsInnermost us before inside after) :
      Yields ts n (.error (.evaluation .unmatchedParenthesis))

end Reckoner.Group
