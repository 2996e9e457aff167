import Reckoner.Expr.Passes

/-!
# Symbols on the stack

A flat pass over its tokens as they are given, values and texts. What waits on the stack are the texts of signs. Each is
looked up in the table of signs again when its precedence is compared and when it is applied, so that a pass could stop at
a text that the table does not have, or look for a sign where none waits. `Stop` keeps both apart from the failures of
expressions.
-/
namespace Reckoner

variable {α : Type}

/-- The token that is given as a value or as a text. -/
def Token.ofGiven : α ⊕ String → Token α
  | .inl v => .operand v
  | .inr text => .ofText text

namespace Flat

/-- A point of a pass: the values and the symbols that wait, the latest first, how many signs were applied to get there,
and what is to come. -/
structure Point (α : Type) where
  operands : List α
  pending : List String
  applied : Nat
  rest : List (α ⊕ String)

inductive Stop (α : Type) where
  | value (v : α)
  | failure (e : Failure)
  /-- A sign is taken from the stack, and none waits there. -/
  | nothingPending
  /-- A text is looked up that the table of signs does not have. -/
  | unknownSign (e : UnknownSign)

namespace Stop

def ofOutcome : Except Failure α → Stop α
  | .ok v => .value v
  | .error e => .failure e

variable {result : Except Failure α}

theorem ofOutcome_ne_nothingPending : ofOutcome result ≠ .nothingPending := by
  cases result <;> nofun

theorem ofOutcome_ne_unknownSign {e : UnknownSign} : ofOutcome result ≠ .unknownSign e := by
  cases result <;> nofun

theorem ofOutcome_eq_value {v : α} (h : ofOutcome result = .value v) : result = .ok v := by
  cases result <;> cases h
  rfl

end Stop

namespace Point

def start (ts : List (α ⊕ String)) : Point α :=
  ⟨[], [], 0, ts⟩

def lookUp (text : String) : Except (Stop α) Sign :=
  (Sign.ofText text).mapError .unknownSign

/-- Apply the latest symbol. There must be two values before it is looked up. -/
def applyLatest [Operand α] (p : Point α) : Except (Stop α) (Point α) :=
  match p.pending, p.operands with
  | [], _ => .error .nothingPending
  | text :: pending, right :: left :: operands => do
    let s ← lookUp text
    let v ← (Operand.apply s left right).mapError .failure
    return ⟨v :: operands, pending, p.applied + 1, p.rest⟩
  | text :: _, _ => .error (.failure (.evaluation (.missingOperand text.front)))

/-- One round of a pass: the latest symbol is applied, or one more token is taken. -/
def next [Operand α] (p : Point α) : Except (Stop α) (Point α) :=
  match p.rest with
  | .inl v :: rest => .ok { p with operands := v :: p.operands, rest }
  | .inr text :: rest =>
    match Sign.ofText text with
    | .error _ => .error (.failure (.evaluation (.invalidCharacter text)))
    | .ok s =>
      match p.pending with
      | [] => .ok { p with pending := [text], rest }
      | top :: _ => do
        let t ← lookUp top
        if s.precedence ≤ t.precedence then p.applyLatest
        else return { p with pending := text :: p.pending, rest }
  | [] => if p.pending.isEmpty then .error (.ofOutcome (single p.operands)) else p.applyLatest

end Point

/-- The points that a pass over some tokens comes to, with the number of rounds. -/
inductive Visits [Operand α] (ts : List (α ⊕ String)) : Nat → Point α → Prop where
  | start : Visits ts 0 (.start ts)
  | round {n : Nat} {p p' : Point α} (visits : Visits ts n p) (next : p.next = .ok p') : Visits ts (n + 1) p'

end Flat
end Reckoner
