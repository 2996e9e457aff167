import Reckoner.Log.Logged
import Reckoner.Expr.Flat

/-!
# Groups

Evaluation with parentheses. The group that opens last holds no other group; it is evaluated as a flat expression and
replaced by its value, and so on to the first. Since everything to the right of an opening parenthesis is then free of
opening ones, one pass from right to left does it: the part to the right is kept with its groups replaced.
-/
namespace Reckoner.Group

variable {α : Type}

/-- A group that was replaced: the place of its opening parenthesis among the tokens, and its value. -/
structure Splice (α : Type) where
  position : Nat
  value : α
  deriving DecidableEq

def Splice.record [ToString α] (s : Splice α) : Log.Record :=
  ⟨.debug, "🧮 Resolved group at token " ++ toString s.position ++ ": " ++ toString s.value⟩

/-- The groups replaced so far, in order, and the remaining tokens, or why it went no further. -/
structure Reduction (α : Type) where
  splices : List (Splice α)
  tokens : Except Failure (List (Token α))

def splitAtClosing : List (Token α) → Option (List (Token α) × List (Token α))
  | [] => none
  | .closing :: rest => some ([], rest)
  | t :: rest => (splitAtClosing rest).map fun (inside, after) => (t :: inside, after)

/-- The value of a group, which must have few enough digits to be recorded. -/
def groupValue [Operand α] (inside : List (Token α)) : Except Failure α := do
  let v ← Flat.value inside
  if Operand.isWritable v then return v else throw (.digits .writing)

/-- Replace the group that opens in front of tokens without opening parentheses. -/
def close [Operand α] (rest : List (Token α)) : Except Failure (α × List (Token α)) :=
  match splitAtClosing rest with
  | none => .error (.evaluation .unmatchedParenthesis)
  | some (inside, after) => do
    let v ← groupValue inside
    return (v, after)

/-- Take one more token, to the left of all others. -/
def extend [Operand α] (token : Token α) (position : Nat) (r : Reduction α) : Reduction α :=
  match r.tokens with
  | .error _ => r
  | .ok rest =>
    match token with
    | .opening =>
      match close rest with
      | .error e => { r with tokens := .error e }
      | .ok (v, after) => ⟨r.splices ++ [⟨position, v⟩], .ok (.operand v :: after)⟩
    | t => { r with tokens := .ok (t :: rest) }

def reduce [Operand α] (ts : List (Token α)) : Reduction α :=
  ts.zipIdx.foldr (fun (t, i) r => extend t i r) ⟨[], .ok []⟩

/-- The value of tokens with parentheses, and the groups replaced on the way. -/
def resolveTraced [Operand α] (ts : List (Token α)) : List (Splice α) × Except Failure α :=
  let r := reduce ts
  (r.splices, r.tokens >>= Flat.value)

/-- An outcome with a record of each group that was replaced on the way to it. -/
def logged [ToString α] (traced : List (Splice α) × Except Failure α) : Log.Logged (Except Failure α) :=
  ⟨traced.2, traced.1.map Splice.record⟩

def resolveLogged [Operand α] [ToString α] (ts : List (Token α)) : Log.Logged (Except Failure α) :=
  logged (resolveTraced ts)

def resolve [Operand α] (ts : List (Token α)) : Except Failure α :=
  (resolveTraced ts).2

end Reckoner.Group
