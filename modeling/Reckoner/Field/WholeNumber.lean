import Reckoner.Text.Blank
import Reckoner.Text.Digit

/-!
# Whole numbers in text

The notation in which a text field writes a whole number: white space around it, one sign, zeros in front, single
underscores between digits, and a fraction of zeros. A text without a minus sign may also have one behind the zeros in
front.
-/
namespace Reckoner.Field

/-- The digits without the zeros in front of them. Underscores among those zeros go with them; the last character stays
if nothing else would, and the one before a point. What follows the zeros may begin with a minus sign. Nothing unless
the first character is a digit. -/
def dropLeadingZeros : List Char → Option (List Char)
  | [] => none
  | '0' :: cs => go '0' cs
  | c :: cs => if Text.isAsciiDigit c then some (c :: cs) else none
where
  /-- The rest of a run of zeros and underscores whose last character is given. -/
  go (last : Char) : List Char → Option (List Char)
    | [] => some [last]
    | c :: cs =>
      if c = '0' ∨ c = '_' then go c cs
      else if c = '.' then some (last :: c :: cs)
      else if Text.isAsciiDigit c || c = '-' then some (c :: cs)
      else none

/-- The text before a point that zeros follow, at least one of them and nothing else. -/
def dropZeroFraction (cs : List Char) : List Char :=
  match (cs.dropWhile (· != '.')).drop 1 with
  | [] => cs
  | fraction => if fraction.all (· == '0') then cs.takeWhile (· != '.') else cs

def hasDoubleUnderscore : List Char → Bool
  | '_' :: '_' :: _ => true
  | _ :: cs => hasDoubleUnderscore cs
  | [] => false

/-- The text without its underscores, if each of them stands alone between two other characters. -/
def dropUnderscores (cs : List Char) : List Char :=
  if cs.head? = some '_' ∨ cs.getLast? = some '_' ∨ hasDoubleUnderscore cs then cs else cs.filter (· != '_')

def isPlainDigits : List Char → Bool
  | [] => false
  | ['0'] => true
  | c :: cs => c != '0' && (c :: cs).all Text.isAsciiDigit

def wholeDigits? (cs : List Char) : Option (Bool × List Char) := do
  let (negative, rest) := Text.splitSign (Text.trimWhere Text.isWhiteSpace cs)
  match dropUnderscores (dropZeroFraction (← dropLeadingZeros rest)) with
  | '-' :: digits => if isPlainDigits digits && !negative then some (true, digits) else none
  | digits => if isPlainDigits digits then some (negative, digits) else none

/-- The digits at the very front of a text, behind at most a minus sign, unless they begin with a zero. -/
def leadingDigits (cs : List Char) : List Char :=
  let ds := (if cs.head? = some '-' then cs.drop 1 else cs).takeWhile Text.isAsciiDigit
  if ds.head? = some '0' then [] else ds

end Reckoner.Field
