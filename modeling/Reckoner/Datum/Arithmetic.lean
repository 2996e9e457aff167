import Reckoner.Datum.Basic
import Reckoner.Expr.Operand

/-!
# Arithmetic on data

What operators make of values of any type. A truth value counts as one or zero, and numbers are joined as numbers
(`apply_number`). A sum puts two texts, bytes or lists end to end, a product with a whole number repeats them, and no
other values have a result.
-/
namespace Reckoner.Datum

def number? : Datum → Option Number
  | .number n => some n
  | .bool b => some (.int (if b then 1 else 0))
  | _ => none

def count? (v : Datum) : Option Int :=
  match v.number? with
  | some (.int n) => some n
  | _ => none

def length? : Datum → Option Nat
  | .text s => some s.length
  | .bytes bs => some bs.length
  | .list items => some items.length
  | _ => none

def isList : Datum → Bool
  | .list _ => true
  | _ => false

def unsupported (sign : String) (a b : Datum) : OperandFault :=
  .unsupported sign a.typeName b.typeName

def append : Datum → Datum → Except OperandFault Datum
  | .text a, .text b => .ok (.text (a ++ b))
  | .bytes a, .bytes b => .ok (.bytes (a ++ b))
  | .list a, .list b => .ok (.list (a ++ b))
  | a, b => .error (if a.length?.isSome then .notOfKind a.typeName b.typeName else unsupported "+" a b)

def copies (times : Nat) : Datum → Datum
  | .text s => .text (String.join (List.replicate times s))
  | .bytes bs => .bytes (List.replicate times bs).flatten
  | .list items => .list (List.replicate times items).flatten
  | v => v

/-- Counts and lengths are below this in magnitude, … -/
def maxWord : Nat := 0x7FFFFFFFFFFFFFFF

/-- … and memory holds at most this many parts. -/
def maxLength : Nat := 0x3FFFFFFF

/-- A value of some length, repeated as often as another value says; not at all if that is negative. Counts and lengths
beyond a word are out of range, but for the length of a list. -/
def repeated (symbol : Char) (v : Datum) (length : Nat) (times : Datum) : Except Failure Datum :=
  match times.count? with
  | none => .error (.operands (.notCount times.typeName))
  | some n =>
    let size := length * n.toNat
    if (maxWord : Int) < n ∨ n < -(maxWord : Int) - 1 ∨ (maxWord < size ∧ v.isList = false) then
      .error (.evaluation (.resultOutOfRange symbol))
    else if maxLength < size then .error (.operands .noMemory)
    else .ok (v.copies (if length = 0 then 0 else n.toNat))

def repeatBy (symbol : Char) (a b : Datum) : Except Failure Datum :=
  match a.length?, b.length? with
  | some n, _ => a.repeated symbol n b
  | none, some n => b.repeated symbol n a
  | none, none => .error (.operands (unsupported "*" a b))

def apply (o : Operator) (a b : Datum) : Except Failure Datum :=
  match a.number?, b.number? with
  | some x, some y => (o.apply x y).map .number
  | _, divisor =>
    match o.operation with
    | .add => (a.append b).mapError .operands
    | .subtract => .error (.operands (unsupported "-" a b))
    | .multiply => a.repeatBy o.symbol b
    | .divide =>
      if divisor.any (·.isZero) then .error (.evaluation .divisionByZero)
      else .error (.operands (unsupported "/" a b))
    | .divideUnchecked => .error (.operands (unsupported "/" a b))

@[simp] theorem apply_number (o : Operator) (x y : Number) :
    apply o (.number x) (.number y) = (o.apply x y).map .number := rfl

mutual

/-- Whether all whole numbers in a value have few enough digits to be written. -/
def isWritable : Datum → Bool
  | .number n => n.isWritable
  | .list items => areWritable items
  | .dict entries => areEntriesWritable entries
  | _ => true

def areWritable : List Datum → Bool
  | [] => true
  | v :: rest => isWritable v && areWritable rest

def areEntriesWritable : List (String × Datum) → Bool
  | [] => true
  | (_, v) :: rest => isWritable v && areEntriesWritable rest

end

instance : Operand Datum := ⟨fun s => apply s.operator, isWritable⟩

end Reckoner.Datum
