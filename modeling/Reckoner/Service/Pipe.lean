/-!
# Pipes

The way from a worker to the server: numbered messages, and an end that the worker closes.
-/
namespace Reckoner.Service

/-- A response and the number of the line that it answers. -/
structure Message (ρ : Type) where
  line : Int
  response : ρ
  deriving DecidableEq

/-- The server's end of a pipe: the messages not yet read, and whether the worker closed the other end. -/
structure Pipe (ρ : Type) where
  messages : List (Message ρ) := []
  closed : Bool := false
  deriving DecidableEq

namespace Pipe

variable {ρ : Type}

def send (m : Message ρ) (p : Pipe ρ) : Pipe ρ :=
  { p with messages := p.messages ++ [m] }

def close (p : Pipe ρ) : Pipe ρ :=
  { p with closed := true }

/-- Whether reading would not wait. -/
def isReady (p : Pipe ρ) : Bool :=
  !p.messages.isEmpty || p.closed

end Pipe
end Reckoner.Service
