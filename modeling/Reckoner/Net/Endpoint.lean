import Reckoner.Field.Check
import Reckoner.Net.Address

/-!
# Endpoints

Where a server listens and a client connects: an address and a port.
-/
namespace Reckoner.Net

structure Endpoint where
  /-- This machine, if nothing else is said. -/
  host : Address := .v4 0x7F000001
  port : Nat := 9000
  one_le_port : 1 ≤ port := by decide
  port_le : port ≤ 65535 := by decide
  deriving DecidableEq, Repr

namespace Endpoint

def default : Endpoint := {}

def ofParts (host : Address) (port : { p : Nat // 1 ≤ p ∧ p ≤ 65535 }) : Endpoint :=
  ⟨host, port, port.2.1, port.2.2⟩

def portOfInt (n : Int) : Field.Checked { p : Nat // 1 ≤ p ∧ p ≤ 65535 } :=
  if h₁ : 1 ≤ n then
    if h₂ : n ≤ 65535 then .ok ⟨n.toNat, by omega, by omega⟩ else .fail .lessThanEqual
  else .fail .greaterThanEqual

def portOfDatum (v : Datum) : Field.Checked { p : Nat // 1 ≤ p ∧ p ≤ 65535 } :=
  Field.asInt v >>= portOfInt

/-- An endpoint from loosely typed fields; those that are missing have their defaults. -/
def ofFields (entries : List (String × Datum)) : Field.Checked Endpoint :=
  let host := Field.optional entries "host" default.host Address.ofDatum
  let port := Field.optional entries "port" ⟨default.port, by decide, by decide⟩ portOfDatum
  (host.both port).map fun (a, p) => ofParts a p

end Endpoint

inductive Event where
  | bind (endpoint : Endpoint)
  | listen
  | accept
  /-- A server is done with the client that it accepted last. -/
  | close
  | connect (endpoint : Endpoint)
  | shutdownWrite
  | terminate
  | join
  deriving DecidableEq, Repr

def Event.text : Event → String
  | .bind e => "bind " ++ toString e.host ++ " " ++ toString e.port
  | .listen => "listen"
  | .accept => "accept"
  | .close => "close"
  | .connect e => "connect " ++ toString e.host ++ " " ++ toString e.port
  | .shutdownWrite => "shutdown_write"
  | .terminate => "terminate"
  | .join => "join"

end Reckoner.Net
