import Reckoner.Number.Basic
import Reckoner.Expr.Error

/-!
# Operators

An operator joins two numbers. The record `Operator` holds what evaluation needs to know of any operator;
`Sign` names the four of arithmetic, and `Sign.operator` is their table. `Operator.apply` refuses results
that are too large to be written or are infinite.
-/
namespace Reckoner

inductive Operation where
  | add
  | subtract
  | multiply
  /-- Division that looks at its divisor first. -/
  | divide
  /-- Division that does not. -/
  | divideUnchecked
  deriving DecidableEq, Repr

/-- An operator between two operands. One of higher precedence binds more tightly. -/
structure Operator where
  symbol : Char
  precedence : Nat
  operation : Operation
  /-- Whether applying it may fail for some operands of any size. -/
  fallible : Bool := false
  precedence_pos : 0 < precedence := by decide
  deriving DecidableEq, Repr

namespace Operator

/-- A whole literal or result has at most this many digits, … -/
def maxDigits : Nat := 4000

/-- … and a result at most this many bits, the bits of `10^maxDigits` rounded down. -/
def maxBits : Nat := 13287

/-- The failure of an operator whose operation has none of the numbers as result. -/
def failureOf (symbol : Char) : Number.Fault → Failure
  | .outOfRange => .evaluation (.resultOutOfRange symbol)
  | .zeroDivisor exact => .zeroDivisor exact

/-- The result of an operator before its size is looked at. -/
def compute (o : Operator) (a b : Number) : Except Failure Number :=
  match o.operation with
  | .add => (a.add b).mapError (failureOf o.symbol)
  | .subtract => (a.sub b).mapError (failureOf o.symbol)
  | .multiply => (a.mul b).mapError (failureOf o.symbol)
  | .divide =>
    if b.isZero then .error (.evaluation .divisionByZero) else (a.div b).mapError (failureOf o.symbol)
  | .divideUnchecked => (a.div b).mapError (failureOf o.symbol)

/-- Refuse a whole number of too many bits and an infinite result. -/
def checkSize (o : Operator) : Number → Except Failure Number
  | .int n =>
    if maxBits < Number.bitLength n then .error (.evaluation (.resultTooLong o.symbol maxDigits)) else .ok (.int n)
  | .double x =>
    if x.isInfinite then .error (.evaluation (.resultOutOfRange o.symbol)) else .ok (.double x)

def apply (o : Operator) (a b : Number) : Except Failure Number :=
  o.compute a b >>= o.checkSize

end Operator

inductive Sign where
  | plus
  | minus
  | times
  | dividedBy
  deriving DecidableEq, Repr

structure UnknownSign where
  text : String
  deriving DecidableEq, Repr

def UnknownSign.message (e : UnknownSign) : String :=
  Text.quoted e.text

namespace Sign

def operator : Sign → Operator
  | .plus => ⟨'+', 1, .add, false, by decide⟩
  | .minus => ⟨'-', 1, .subtract, false, by decide⟩
  | .times => ⟨'*', 2, .multiply, false, by decide⟩
  | .dividedBy => ⟨'/', 2, .divide, true, by decide⟩

def all : List Sign :=
  [.plus, .minus, .times, .dividedBy]

def ofChar? : Char → Option Sign
  | '+' => some .plus
  | '-' => some .minus
  | '*' => some .times
  | '/' => some .dividedBy
  | _ => none

def ofText (s : String) : Except UnknownSign Sign :=
  match s.toList with
  | [c] => (ofChar? c).elim (.error ⟨s⟩) .ok
  | _ => .error ⟨s⟩

def symbol (s : Sign) : Char :=
  s.operator.symbol

def precedence (s : Sign) : Nat :=
  s.operator.precedence

def apply (s : Sign) (a b : Number) : Except Failure Number :=
  s.operator.apply a b

theorem ofChar?_symbol (s : Sign) : ofChar? s.symbol = some s := by
  cases s <;> rfl

theorem eq_symbol_of_ofChar? {c : Char} {s : Sign} (h : ofChar? c = some s) : c = s.symbol := by
  unfold ofChar? at h
  split at h <;> cases h <;> rfl

theorem mem_all (s : Sign) : s ∈ all := by
  cases s <;> decide

theorem precedence_eq (s : Sign) : s.precedence = if s = .plus ∨ s = .minus then 1 else 2 := by
  cases s <;> rfl

end Sign
end Reckoner
