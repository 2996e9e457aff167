import Reckoner.Text.Blank
import Reckoner.Expr.Operand

/-!
# Tokens

The parts of an expression's text: each longest run of digits and points is a number, and every other character
stands by itself, known or not. An unknown one is refused only when it is evaluated.
-/
namespace Reckoner

inductive Token (α : Type) where
  | operand (value : α)
  | sign (s : Sign)
  | opening
  | closing
  /-- Anything else, by its text. -/
  | other (text : String)
  deriving DecidableEq

namespace Token

variable {α : Type}

def ofChar : Char → Token α
  | '(' => .opening
  | ')' => .closing
  | c =>
    match Sign.ofChar? c with
    | some s => .sign s
    | none => .other (String.singleton c)

/-- The token of a text that is no literal; only a single character can have a meaning. -/
def ofText (s : String) : Token α :=
  match s.toList with
  | [c] => ofChar c
  | _ => .other s

def symbol? : Token α → Option String
  | .operand _ => none
  | .sign s => some (String.singleton s.symbol)
  | .opening => some "("
  | .closing => some ")"
  | .other text => some text

def isSign : Token α → Bool
  | .sign _ => true
  | _ => false

end Token

namespace Literal

/-- The characters of literals: digits and the point. -/
def isLiteralChar (c : Char) : Bool :=
  Text.isAsciiDigit c || c == '.'

/-- How many characters of a refused literal its message shows. -/
def shownLength : Nat := 20

/-- The value of a run of digits and points: a whole number without a point, a binary64 with one. The length of the
whole part, not counting leading zeros, is looked at first. -/
def value (literal : List Char) : Except Failure Number :=
  if Operator.maxDigits < ((literal.dropWhile (· == '0')).takeWhile (· != '.')).length then
    .error (.evaluation (.literalTooLong Operator.maxDigits))
  else if !literal.contains '.' then
    match DigitLimit.readDigits literal with
    | .ok n => .ok (.int n)
    | .error limit => .error (.digits limit)
  else
    match Decimal.ofFixed? literal with
    | none => .error (.evaluation (.invalidLiteral (String.ofList literal)))
    | some d =>
      let x := d.toBinary64 false
      if x.isInfinite then .error (.evaluation (.literalOutOfRange (String.ofList (literal.take shownLength))))
      else .ok (.double x)

end Literal

private theorem length_dropWhile_lt (p : Char → Bool) (c : Char) (cs : List Char) :
    (cs.dropWhile p).length < (c :: cs).length :=
  Nat.lt_succ_of_le (List.dropWhile_sublist p).length_le

/-- The tokens of a text, or the failure of its first run that has no value. -/
def tokenize : List Char → Except Failure (List (Token Number))
  | [] => .ok []
  | c :: cs =>
    if Literal.isLiteralChar c then do
      let n ← Literal.value (c :: cs.takeWhile Literal.isLiteralChar)
      let ts ← tokenize (cs.dropWhile Literal.isLiteralChar)
      return .operand n :: ts
    else do
      let ts ← tokenize cs
      return Token.ofChar c :: ts
termination_by cs => cs.length
decreasing_by
  · exact length_dropWhile_lt ..
  · simp

end Reckoner
