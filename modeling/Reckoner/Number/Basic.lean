import Reckoner.Number.Decimal

/-!
# Numbers

The values of expressions: whole numbers of any size and binary64 numbers. Two whole numbers are combined exactly,
any other pair in binary64, and a quotient is always binary64.
-/
namespace Reckoner

inductive Number where
  | int (n : Int)
  | double (x : Binary64)
  deriving DecidableEq, Inhabited

namespace Number

inductive Fault where
  /-- A whole number, or a quotient of two, is beyond the largest binary64. -/
  | outOfRange
  /-- The divisor is zero, and `exact` tells that both numbers are whole. -/
  | zeroDivisor (exact : Bool)
  deriving DecidableEq, Repr

def toBinary64 : Number → Except Fault Binary64
  | .int n => let x := Binary64.ofInt n; if x.isInfinite then .error .outOfRange else .ok x
  | .double x => .ok x

/-- Whether the number is zero of any type and sign. -/
def isZero : Number → Bool
  | .int n => n == 0
  | .double x => x.isZero

/-- Combine two whole numbers exactly, any others in binary64. -/
def combine (exact : Int → Int → Int) (rounded : Binary64 → Binary64 → Binary64) :
    Number → Number → Except Fault Number
  | .int a, .int b => .ok (.int (exact a b))
  | a, b => do
    let x ← a.toBinary64
    let y ← b.toBinary64
    return .double (rounded x y)

def add : Number → Number → Except Fault Number :=
  combine (· + ·) Binary64.add

def sub : Number → Number → Except Fault Number :=
  combine (· - ·) Binary64.sub

def mul : Number → Number → Except Fault Number :=
  combine (· * ·) Binary64.mul

/-- The quotient in binary64; of two whole numbers the rounded exact one. -/
def div : Number → Number → Except Fault Number
  | .int a, .int b =>
    if b = 0 then .error (.zeroDivisor true)
    else
      let q := Binary64.ofQuotient a b
      if q.isInfinite then .error .outOfRange else .ok (.double q)
  | a, b => do
    let x ← a.toBinary64
    let y ← b.toBinary64
    if y.isZero then throw (.zeroDivisor false)
    return .double (Binary64.div x y)

/-- How many whole numbers from zero on are below the number, unless all are. -/
def countBelow? : Number → Option Nat
  | .int n => some n.toNat
  | .double x => x.countBelow?

/-- How many bits the magnitude of a whole number has; zero has none. -/
def bitLength (n : Int) : Nat :=
  if n = 0 then 0 else n.natAbs.log2 + 1

def text : Number → List Char
  | .int n => Text.decimalInt n
  | .double x => x.text

instance : ToString Number := ⟨fun n => String.ofList n.text⟩

end Number
end Reckoner
