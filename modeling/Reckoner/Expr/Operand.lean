import Reckoner.Expr.Operator

/-!
# Operands

What evaluation asks of the values between the signs. It moves them about and never looks into them, so that the rules
of precedence and of parentheses are said once, whatever the values are. Expressions in text have numbers.
-/
namespace Reckoner

/-- Values that signs can join. -/
class Operand (α : Type) where
  apply : Sign → α → α → Except Failure α
  /-- Whether all whole numbers in a value have few enough digits to be written. -/
  isWritable : α → Bool

def Number.isWritable : Number → Bool
  | .int n => DigitLimit.isWritable n
  | .double _ => true

instance : Operand Number := ⟨Sign.apply, Number.isWritable⟩

end Reckoner
