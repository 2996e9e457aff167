import Reckoner.Expr.Evaluate

/-!
# Traces

Resolution as a loop over the tokens at hand. Each pass replaces the group that opens last among them and reports the
place of its opening parenthesis, so that places are counted in a list that gets shorter with every pass.
-/
namespace Reckoner.Group

variable {α : Type}

/-- A group that no other one opens behind, with the tokens before it, inside and after it. -/
structure IsLast (ts before inside after : List (Token α)) : Prop where
  eq_append : ts = before ++ .opening :: (inside ++ .closing :: after)
  opening_notMem : .opening ∉ inside ++ after
  closing_notMem : .closing ∉ inside

/-- The tokens at hand after some passes, and what these reported. -/
inductive Traced [Operand α] (ts : List (Token α)) : List (Splice α) → List (Token α) → Prop where
  | start : Traced ts [] ts
  | pass {splices : List (Splice α)} {us before inside after : List (Token α)} {v : α} (traced : Traced ts splices us)
      (group : IsLast us before inside after) (value : groupValue inside = .ok v) :
      Traced ts (splices ++ [⟨before.length, v⟩]) (before ++ .operand v :: after)

/-- How the loop ends: what was reported, the place where the last group at hand opens if that group ends the loop, and
the outcome. -/
inductive Concludes [Operand α] (ts : List (Token α)) : List (Splice α) → Option Nat → Except Failure α → Prop where
  | flat {splices : List (Splice α)} {us : List (Token α)} (traced : Traced ts splices us) (flat : .opening ∉ us) :
      Concludes ts splices none (Flat.value us)
  | group {splices : List (Splice α)} {us before inside after : List (Token α)} {e : Failure}
      (traced : Traced ts splices us) (group : IsLast us before inside after) (failure : groupValue inside = .error e) :
      Concludes ts splices (some before.length) (.error e)
  | unmatched {splices : List (Splice α)} {before after : List (Token α)}
      (traced : Traced ts splices (before ++ .opening :: after)) (last : .opening ∉ after) (unclosed : .closing ∉ after) :
      Concludes ts splices (some before.length) (.error (.evaluation .unmatchedParenthesis))

end Reckoner.Group
