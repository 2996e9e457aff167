import Reckoner.Arity
import Reckoner.Number.DigitLimit

/-!
# Errors of evaluation

What can be wrong with an expression, as causes. Each cause belongs to a kind, the category that diagnostics
name, and has a text. `Failure` adds the ways in which an evaluation step can stop that say nothing about the
expression's form: a decimal conversion beyond the limit, a bare division by zero, and operands that are no numbers.
-/
namespace Reckoner

/-- The categories of evaluation errors. `evaluation` is the general one, above all others. -/
inductive ErrorKind where
  | evaluation
  | unmatchedParenthesis
  | invalidCharacter
  | malformedExpression
  | divisionByZero
  | numericOverflow
  deriving DecidableEq, Repr

namespace ErrorKind

def label : ErrorKind → String
  | .evaluation => "evaluation_error"
  | .unmatchedParenthesis => "unmatched_parenthesis"
  | .invalidCharacter => "invalid_character"
  | .malformedExpression => "malformed_expression"
  | .divisionByZero => "division_by_zero"
  | .numericOverflow => "numeric_overflow"

def parent? : ErrorKind → Option ErrorKind
  | .evaluation => none
  | _ => some .evaluation

/-- Several details as one text: nothing, the only one, or all of them quoted in parentheses. -/
def joinDetails : List String → String
  | [] => ""
  | [d] => d
  | ds => "(" ++ ", ".intercalate (ds.map Text.quoted) ++ ")"

/-- How many details an error of a category takes, if that is limited. -/
def arity? : ErrorKind → Option Arity
  | .invalidCharacter => some ⟨["character"], 0⟩
  | .divisionByZero => some ⟨[], 1⟩
  | _ => none

/-- The text of an error of a category with the given details. An invalid character is one detail, and it is
quoted; a division by zero has at most one, and a text of its own without it. -/
def describe? : ErrorKind → List String → Option String
  | .invalidCharacter, [c] => some ("Invalid character in expression: " ++ Text.quoted c)
  | .invalidCharacter, _ => none
  | .divisionByZero, [] => some "Division by zero"
  | .divisionByZero, [d] => some d
  | .divisionByZero, _ => none
  | _, ds => some (joinDetails ds)

end ErrorKind

inductive EvalError where
  | unmatchedParenthesis
  /-- A token is neither a number nor an operator where only these may stand. -/
  | invalidCharacter (text : String)
  /-- An operator has fewer than two operands. -/
  | missingOperand (symbol : Char)
  /-- A flat expression leaves that many operands, not one. -/
  | operandCount (count : Nat)
  /-- A run of digits and points is no number. -/
  | invalidLiteral (literal : String)
  | divisionByZero
  | literalTooLong (limit : Nat)
  /-- A literal with a point is beyond the largest binary64; its first characters. -/
  | literalOutOfRange (start : String)
  | resultTooLong (symbol : Char) (limit : Nat)
  | resultOutOfRange (symbol : Char)
  deriving DecidableEq, Repr

namespace EvalError

def kind : EvalError → ErrorKind
  | .unmatchedParenthesis => .unmatchedParenthesis
  | .invalidCharacter _ => .invalidCharacter
  | .missingOperand _ | .operandCount _ | .invalidLiteral _ => .malformedExpression
  | .divisionByZero => .divisionByZero
  | .literalTooLong _ | .literalOutOfRange _ | .resultTooLong .. | .resultOutOfRange _ => .numericOverflow

private def quotedSymbol (c : Char) : String :=
  Text.quoted (String.singleton c)

def details : EvalError → List String
  | .unmatchedParenthesis => ["Unmatched parentheses"]
  | .invalidCharacter text => [text]
  | .missingOperand c => ["Invalid expression (not enough operands for " ++ quotedSymbol c ++ ")"]
  | .operandCount n => ["Invalid expression (expected one result, got " ++ toString n ++ " operands)"]
  | .invalidLiteral l => ["Invalid number literal: " ++ Text.quoted l]
  | .divisionByZero => []
  | .literalTooLong limit => ["Number literal exceeds " ++ toString limit ++ " digits"]
  | .literalOutOfRange start => ["Number literal out of range: " ++ start ++ "..."]
  | .resultTooLong c limit => ["Result of " ++ quotedSymbol c ++ " exceeds " ++ toString limit ++ " digits"]
  | .resultOutOfRange c => ["Result of " ++ quotedSymbol c ++ " is out of range"]

theorem describe?_isSome (e : EvalError) : (e.kind.describe? e.details).isSome := by
  cases e <;> rfl

def message (e : EvalError) : String :=
  (e.kind.describe? e.details).get e.describe?_isSome

end EvalError

/-- Why two values that are not both numbers cannot be joined. -/
inductive OperandFault where
  | unsupported (sign left right : String)
  /-- Only another value of the left one's type can be put behind it. -/
  | notOfKind (left right : String)
  /-- A value of this type does not say how often to repeat something. -/
  | notCount (typeName : String)
  | unordered (left right : String)
  | noMemory
  deriving DecidableEq, Repr

def OperandFault.message : OperandFault → String
  | .unsupported sign left right =>
    "unsupported operand type(s) for " ++ sign ++ ": " ++ Text.quoted left ++ " and " ++ Text.quoted right
  | .notOfKind "bytes" right => "can't concat " ++ right ++ " to bytes"
  | .notOfKind left right => "can only concatenate " ++ left ++ " (not \"" ++ right ++ "\") to " ++ left
  | .notCount typeName => "can't multiply sequence by non-int of type " ++ Text.quoted typeName
  | .unordered left right =>
    "'<' not supported between instances of " ++ Text.quoted left ++ " and " ++ Text.quoted right
  | .noMemory => ""

inductive Failure where
  /-- The expression is wrong, or its value cannot be represented. -/
  | evaluation (e : EvalError)
  | digits (limit : DigitLimit)
  /-- An operator that does not look at its divisor divided by zero. -/
  | zeroDivisor (exact : Bool)
  | operands (fault : OperandFault)
  deriving DecidableEq, Repr

def Failure.message : Failure → String
  | .evaluation e => e.message
  | .digits limit => limit.message
  | .zeroDivisor true => "division by zero"
  | .zeroDivisor false => "float division by zero"
  | .operands fault => fault.message

end Reckoner
