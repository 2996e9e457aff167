import Reckoner.Expr.Group

/-!
# Evaluation of text

An expression's text without its blanks is split into tokens, whose groups are then resolved.
-/
namespace Reckoner

def normalize (expression : String) : String :=
  String.ofList (Text.dropBlanks expression.toList)

def evaluateTraced (expression : String) : List (Group.Splice Number) × Except Failure Number :=
  match tokenize (Text.dropBlanks expression.toList) with
  | .error e => ([], .error e)
  | .ok ts => Group.resolveTraced ts

def evaluateLogged (expression : String) : Log.Logged (Except Failure Number) :=
  Group.logged (evaluateTraced expression)

/-- The value of a text. -/
def evaluate (expression : String) : Except Failure Number :=
  (evaluateTraced expression).2

/-- The value of a text without parentheses and blanks. -/
def evaluateFlat (expression : String) : Except Failure Number := do
  let ts ← tokenize expression.toList
  Flat.value ts

end Reckoner
