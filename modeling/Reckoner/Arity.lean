import Reckoner.Text.Quoted

/-!
# Arities

How many details may be given to build something, and the complaint about any other count. Counts include the thing
that is built itself.
-/
namespace Reckoner

/-- The details that must be given, by their names, and how many more may follow. -/
structure Arity where
  required : List String
  optional : Nat
  deriving DecidableEq, Repr

namespace Arity

def namesText : List String → String
  | [] => ""
  | [n] => Text.quoted n
  | [m, n] => Text.quoted m ++ " and " ++ Text.quoted n
  | [l, m, n] => Text.quoted l ++ ", " ++ Text.quoted m ++ ", and " ++ Text.quoted n
  | n :: ns => Text.quoted n ++ ", " ++ namesText ns

def plural (count : Nat) : String :=
  if count = 1 then "" else "s"

def rangeText (a : Arity) : String :=
  let least := a.required.length + 1
  if a.optional = 0 then toString least else "from " ++ toString least ++ " to " ++ toString (least + a.optional)

def complaint? (a : Arity) (given : Nat) : Option String :=
  let missing := a.required.drop given
  if missing ≠ [] then
    some ("missing " ++ toString missing.length ++ " required positional argument" ++ plural missing.length ++ ": "
      ++ namesText missing)
  else
    let most := a.required.length + a.optional
    if most < given then
      some ("takes " ++ a.rangeText ++ " positional argument" ++ plural (most + 1) ++ " but " ++ toString (given + 1)
        ++ " were given")
    else none

theorem complaint?_eq_none_iff (a : Arity) (given : Nat) :
    a.complaint? given = none ↔ a.required.length ≤ given ∧ given ≤ a.required.length + a.optional := by
  simp only [complaint?, ne_eq, List.drop_eq_nil_iff]
  by_cases h : a.required.length ≤ given
  · by_cases h' : a.required.length + a.optional < given
    · simp [h, h']
    · simp [h, h', Nat.le_of_not_lt h']
  · simp [h]

end Arity
end Reckoner
