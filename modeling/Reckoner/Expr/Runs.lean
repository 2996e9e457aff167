import Reckoner.Expr.Chain

/-!
# Longest runs

The digits and points of a text stand in runs, and a run that cannot go on in either direction is one literal. What the
tokens of a text are is said here by the places of these runs alone. A scan finds them one character at a time: it sets
digits and points aside, and only the next other character or the end of the text tells that their run is complete.
-/
namespace Reckoner

namespace Literal

/-- A run with what stands before and after it in a text, where it goes on in neither direction. -/
structure IsLongestRun (cs before l after : List Char) : Prop where
  eq_append : cs = before ++ l ++ after
  isRun : IsRun l
  starts : ∀ c ∈ before.getLast?, isLiteralChar c = false
  ends : ∀ c ∈ after.head?, isLiteralChar c = false

/-- The leftmost of the longest runs that have no value, and why it has none. -/
structure IsFirstRefused (cs before l after : List Char) (e : Failure) : Prop where
  longest : IsLongestRun cs before l after
  refused : value l = .error e
  first : ∀ before' l' after', IsLongestRun cs before' l' after' → before'.length < before.length →
    ∃ n, value l' = .ok n

def IsOther (p : List Char) : Prop :=
  ∃ c, p = [c] ∧ isLiteralChar c = false

end Literal

/-- A text in parts, each of which is a longest run where it stands or a single other character. -/
structure IsDivision (cs : List Char) (parts : List (List Char)) : Prop where
  eq_flatten : cs = parts.flatten
  part : ∀ ps p qs, parts = ps ++ p :: qs → Literal.IsLongestRun cs ps.flatten p qs.flatten ∨ Literal.IsOther p

/-- A part of a text and its token: a run and its value, or a character by itself. -/
inductive Token.Reads : List Char → Token Number → Prop where
  | run {l : List Char} {n : Number} (isRun : Literal.IsRun l) (value : Literal.value l = .ok n) : Reads l (.operand n)
  | single {c : Char} (other : Literal.isLiteralChar c = false) : Reads [c] (.ofChar c)

/-- A scan under way: the values and texts found so far, and the digits and points of a run that may still go on. -/
structure Scan where
  found : List (Number ⊕ String)
  pending : List Char
  isLiteralChar_of_mem : ∀ c ∈ pending, Literal.isLiteralChar c = true

namespace Scan

def start : Scan :=
  ⟨[], [], by simp⟩

/-- What is found when the pending run, if there is one, is complete. -/
def complete (s : Scan) : Except Failure (List (Number ⊕ String)) :=
  if s.pending.isEmpty then .ok s.found
  else do
    let n ← Literal.value s.pending
    return s.found ++ [.inl n]

def take (s : Scan) (c : Char) : Except Failure Scan :=
  if h : Literal.isLiteralChar c = true then
    .ok ⟨s.found, s.pending ++ [c], by simpa [or_imp, forall_and, h] using s.isLiteralChar_of_mem⟩
  else do
    let found ← s.complete
    return ⟨found ++ [.inr (String.singleton c)], [], by simp⟩

/-- The values and texts of a text, from left to right. -/
def read (cs : List Char) : Except Failure (List (Number ⊕ String)) := do
  let s ← cs.foldlM take start
  s.complete

end Scan
end Reckoner
