/-!
# Log records

What a run reports beside its results: messages, each with a level.
-/
namespace Reckoner.Log

inductive Level where
  | debug
  | info
  | warning
  | error
  deriving DecidableEq, Repr

def Level.label : Level → String
  | .debug => "DEBUG"
  | .info => "INFO"
  | .warning => "WARNING"
  | .error => "ERROR"

structure Record where
  level : Level
  message : String
  deriving DecidableEq, Repr

def Record.text (r : Record) : String :=
  r.level.label ++ " " ++ r.message

end Reckoner.Log
