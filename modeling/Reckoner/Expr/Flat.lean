import Reckoner.Expr.Token

/-!
# Flat expressions

Evaluation without parentheses, from left to right with two stacks. A sign first applies the pending signs that bind
at least as tightly, so that equal ones associate to the left. Nothing here asks that operands and signs alternate:
the counts at the end decide.
-/
namespace Reckoner.Flat

variable {α : Type}

/-- The operands and the signs that wait for each other, the latest first. -/
structure Stacks (α : Type) where
  operands : List α
  signs : List Sign
  deriving DecidableEq

def Stacks.empty : Stacks α := ⟨[], []⟩

/-- Apply a sign to the two latest operands; the latest is the right one. -/
def applyTop [Operand α] (s : Sign) : List α → Except Failure (List α)
  | right :: left :: rest => do
    let v ← Operand.apply s left right
    return v :: rest
  | _ => .error (.evaluation (.missingOperand s.symbol))

/-- Apply the pending signs from the latest on, as long as they bind at least as tightly as `bar`. -/
def release [Operand α] (bar : Nat) : List α → List Sign → Except Failure (Stacks α)
  | operands, [] => .ok ⟨operands, []⟩
  | operands, s :: signs =>
    if bar ≤ s.precedence then do
      let operands ← applyTop s operands
      release bar operands signs
    else .ok ⟨operands, s :: signs⟩

def step [Operand α] (st : Stacks α) : Token α → Except Failure (Stacks α)
  | .operand v => .ok { st with operands := v :: st.operands }
  | .sign s => do
    let st ← release s.precedence st.operands st.signs
    return { st with signs := s :: st.signs }
  | .opening => .error (.evaluation (.invalidCharacter "("))
  | .closing => .error (.evaluation (.invalidCharacter ")"))
  | .other text => .error (.evaluation (.invalidCharacter text))

def scan [Operand α] (st : Stacks α) (ts : List (Token α)) : Except Failure (Stacks α) :=
  ts.foldlM step st

def single : List α → Except Failure α
  | [v] => .ok v
  | vs => .error (.evaluation (.operandCount vs.length))

/-- The value of tokens without parentheses. -/
def value [Operand α] (ts : List (Token α)) : Except Failure α := do
  let st ← scan .empty ts
  let st ← release 0 st.operands st.signs
  single st.operands

end Reckoner.Flat
