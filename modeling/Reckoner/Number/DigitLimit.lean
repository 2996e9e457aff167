import Reckoner.Text.Digit

/-!
# The limit on decimal conversion

Whole numbers are read from and written in decimal only up to a fixed number of digits, since the work grows with
the square of their count.
-/
namespace Reckoner

/-- Why a conversion between a whole number and its decimal digits was refused. -/
inductive DigitLimit where
  /-- Reading a run of that many digits, leading zeros included. -/
  | reading (digits : Nat)
  /-- Writing a number of too many digits. -/
  | writing
  deriving DecidableEq, Repr

namespace DigitLimit

def maxDigits : Nat := 4300

def message : DigitLimit → String
  | .reading n =>
    "Exceeds the limit (" ++ toString maxDigits ++ " digits) for integer string conversion: value has "
      ++ toString n ++ " digits; use sys.set_int_max_str_digits() to increase the limit"
  | .writing =>
    "Exceeds the limit (" ++ toString maxDigits
      ++ " digits) for integer string conversion; use sys.set_int_max_str_digits() to increase the limit"

def readDigits (ds : List Char) : Except DigitLimit Nat :=
  if maxDigits < ds.length then .error (.reading ds.length) else .ok (Text.ofAsciiDigits ds)

def isWritable (n : Int) : Bool :=
  n.natAbs < Nat.pow 10 maxDigits

end DigitLimit
end Reckoner
