import Reckoner.Expr.Token

/-!
# Formulas

Expressions as trees of literals, parentheses and signs, the form in which their meaning is said without any stack.
`Formula.value` goes from the leaves to the root. `Formula.resolved` takes the groups first, the one that opens furthest
to the right before the others, and so says which of several failures is seen.
-/
namespace Reckoner

inductive Formula where
  | literal (cs : List Char)
  | group (inner : Formula)
  | join (s : Sign) (left right : Formula)
  deriving DecidableEq, Repr

/-- A flat expression: numbers and signs between them. -/
inductive FlatTree where
  | number (n : Number)
  | join (s : Sign) (left right : FlatTree)
  deriving DecidableEq

/-- The value of a flat expression: the left part, the right part, then the sign. -/
def FlatTree.value : FlatTree → Except Failure Number
  | .number n => .ok n
  | .join s l r => do
    let a ← l.value
    let b ← r.value
    s.apply a b

namespace Formula

/-- How tightly the parts of a formula hold together; literals and groups more than any sign. -/
def level : Formula → Nat
  | .literal _ | .group _ => 3
  | .join s _ _ => s.precedence

/-- Whether literals are runs of their characters, and parentheses stand wherever precedence and association to the left
need them. -/
def WellFormed : Formula → Prop
  | .literal cs => cs ≠ [] ∧ ∀ c ∈ cs, Literal.isLiteralChar c = true
  | .group f => f.WellFormed
  | .join s l r => l.WellFormed ∧ r.WellFormed ∧ s.precedence ≤ l.level ∧ s.precedence < r.level

def text : Formula → List Char
  | .literal cs => cs
  | .group f => '(' :: f.text ++ [')']
  | .join s l r => l.text ++ s.symbol :: r.text

/-- The value of a formula from the leaves to the root, left before right. -/
def value : Formula → Except Failure Number
  | .literal cs => Literal.value cs
  | .group f => f.value
  | .join s l r => do
    let a ← l.value
    let b ← r.value
    s.apply a b

/-- The flat expression that is left when all groups have been replaced by their values, those to the right first. -/
def flatten : Formula → Except Failure FlatTree
  | .literal cs => do
    let n ← Literal.value cs
    return .number n
  | .group f => do
    let t ← f.flatten
    let n ← t.value
    return .number n
  | .join s l r => do
    let r ← r.flatten
    let l ← l.flatten
    return .join s l r

def resolved (f : Formula) : Except Failure Number :=
  f.flatten >>= FlatTree.value

end Formula
end Reckoner
