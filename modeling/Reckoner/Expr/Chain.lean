import Reckoner.Expr.Formula

/-!
# Chains

Flat expressions as they are written: operands with a sign between every two of them. A chain is read on two levels, as
a sum of products, and both levels go from left to right. Its tree says in which order the signs are applied.
-/
namespace Reckoner

def Literal.IsRun (l : List Char) : Prop :=
  l ≠ [] ∧ ∀ c ∈ l, isLiteralChar c = true

structure Chain (α : Type) where
  first : α
  rest : List (Sign × α)
  deriving DecidableEq

namespace Chain

variable {α β : Type}

def operands (c : Chain α) : List α :=
  c.first :: c.rest.map Prod.snd

def map (f : α → β) (c : Chain α) : Chain β :=
  ⟨f c.first, c.rest.map fun p => (p.1, f p.2)⟩

def text (c : Chain (List Char)) : List Char :=
  c.first ++ c.rest.flatMap fun p => p.1.symbol :: p.2

def tokens (c : Chain α) : List (Token α) :=
  .operand c.first :: c.rest.flatMap fun p => [.sign p.1, .operand p.2]

def numbers (c : Chain (List Char)) : Except Failure (Chain Number) := do
  let first ← Literal.value c.first
  let rest ← c.rest.mapM fun p => return (p.1, ← Literal.value p.2)
  return ⟨first, rest⟩

/-- What belongs to the product in front, and the products that are added or subtracted behind it. -/
def splitTerms : List (Sign × α) → List (Sign × α) × List (Sign × Chain α)
  | [] => ([], [])
  | (s, v) :: rest =>
    if s = .plus ∨ s = .minus then ([], (s, ⟨v, (splitTerms rest).1⟩) :: (splitTerms rest).2)
    else ((s, v) :: (splitTerms rest).1, (splitTerms rest).2)

/-- The chain of products that a chain is. -/
def products (c : Chain α) : Chain (Chain α) :=
  ⟨⟨c.first, (splitTerms c.rest).1⟩, (splitTerms c.rest).2⟩

def product (c : Chain Number) : Except Failure Number :=
  c.rest.foldlM (fun v p => p.1.apply v p.2) c.first

def sum (c : Chain (Chain Number)) : Except Failure Number := do
  let v ← c.first.product
  c.rest.foldlM (fun v p => do p.1.apply v (← p.2.product)) v

/-- The value of a chain, read as a sum of products. -/
def value (c : Chain Number) : Except Failure Number :=
  c.products.sum

def joined (c : Chain FlatTree) : FlatTree :=
  c.rest.foldl (fun t p => .join p.1 t p.2) c.first

def tree (c : Chain Number) : FlatTree :=
  (c.products.map fun p => (p.map .number).joined).joined

end Chain

namespace FlatTree

/-- The parts of a flat expression that are joined by a sign, in the order in which their signs are applied: left before
right, and parts before the whole. -/
def joins : FlatTree → List FlatTree
  | .number _ => []
  | .join s l r => l.joins ++ r.joins ++ [.join s l r]

/-- The sign of an expression refuses the values of its two parts. -/
def Refuses : FlatTree → Failure → Prop
  | .number _, _ => False
  | .join s l r, e => ∃ a b, l.value = .ok a ∧ r.value = .ok b ∧ s.apply a b = .error e

/-- The failure of the first sign that is applied without success. -/
def FirstFailure (t : FlatTree) (e : Failure) : Prop :=
  ∃ before u after, t.joins = before ++ u :: after ∧ (∀ w ∈ before, ∃ v, w.value = .ok v) ∧ u.Refuses e

end FlatTree

/-- Texts that are no chains at first sight. -/
inductive Broken : List Char → Prop where
  | empty : Broken []
  | blank {cs : List Char} {c : Char} (mem : c ∈ cs) (blank : Text.isBlank c = true) : Broken cs
  | parenthesis {cs : List Char} {c : Char} (mem : c ∈ cs) (parenthesis : c = '(' ∨ c = ')') : Broken cs
  /-- What stands between two literals is no sign. -/
  | unsigned (xs : List Char) {c : Char} (ys : List Char) (apart : Literal.isLiteralChar c = false)
      (unsigned : Sign.ofChar? c = none) : Broken (xs ++ c :: ys)
  | leading (s : Sign) (cs : List Char) : Broken (s.symbol :: cs)
  | trailing (cs : List Char) (s : Sign) : Broken (cs ++ [s.symbol])
  | doubled (xs : List Char) (s t : Sign) (ys : List Char) : Broken (xs ++ s.symbol :: t.symbol :: ys)

end Reckoner
