import Reckoner.Keyed
import Reckoner.Text.Quoted
import Reckoner.Text.UpperCase

/-!
# Loggers

Loggers by name, each configured when it is first asked for: a handler is attached, then its level is set from the
environment. A level that is not known is an error, and the handler stays, so that the logger is not configured again.
-/
namespace Reckoner.Log

/-- A logger: records below its level are dropped, and the others go to its handlers. -/
structure Logger where
  level : Nat
  handlers : Nat
  deriving DecidableEq, Repr

def levelNames : List (String × Nat) :=
  [("CRITICAL", 50), ("FATAL", 50), ("ERROR", 40), ("WARN", 30), ("WARNING", 30), ("INFO", 20), ("DEBUG", 10),
    ("NOTSET", 0)]

def defaultLevelName : String := "INFO"

/-- The name in upper case is no level. -/
structure UnknownLevel where
  name : String
  deriving DecidableEq, Repr

def UnknownLevel.message (e : UnknownLevel) : String :=
  "Unknown level: " ++ Text.quoted e.name

abbrev Registry := List (String × Logger)

namespace Registry

def fresh : Logger := ⟨0, 0⟩

/-- The level that a text names, in any case. -/
def levelOf (text : String) : Except UnknownLevel Nat :=
  let name := String.ofList (Text.upperCase text.toList)
  match Keyed.get? name levelNames with
  | some level => .ok level
  | none => .error ⟨name⟩

/-- The logger of a name, configured if it has no handler yet, and the registry afterwards. -/
def getLogger (r : Registry) (name : String) (environment : Option String) : Registry × Except UnknownLevel Logger :=
  let logger := (Keyed.get? name r).getD fresh
  if logger.handlers ≠ 0 then (r, .ok logger)
  else
    let attached := { logger with handlers := 1 }
    match levelOf (environment.getD defaultLevelName) with
    | .error e => (Keyed.assign name attached r, .error e)
    | .ok level =>
      let configured := { attached with level }
      (Keyed.assign name configured r, .ok configured)

end Registry
end Reckoner.Log
