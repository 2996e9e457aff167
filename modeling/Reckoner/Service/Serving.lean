import Reckoner.Service.Handling

/-!
# Clients one after another

The loop of a server. As long as fewer clients were served than the limit says, the next one is accepted, handled with its
workers in any order, and its connection closed. A server that waits for a client when none is left is interrupted. The
session that `Server.start` computes is where this loop leads.
-/
namespace Reckoner.Service.Serving

open Server (Session Served)

structure State where
  /-- The clients that were not accepted yet, the next one first. -/
  arriving : List Server.Client
  /-- What became of the others, in the order in which they came. -/
  served : List Served
  events : List Net.Event
  log : List Log.Record

/-- What is reported until the first client comes. -/
def opening (s : Server) : List Log.Record :=
  [⟨.info, "🖥️ Starting server on " ++ (toString s.endpoint.host ++ ":" ++ toString s.endpoint.port)⟩,
    ⟨.info, "🖥️ Server listening"⟩]

def connected (c : Server.Client) : Log.Record :=
  ⟨.info, "🔌 Client connected from " ++ c.address.1 ++ ":" ++ toString c.address.2⟩

def State.start (s : Server) (cs : List Server.Client) : State :=
  ⟨cs, [], [.bind s.endpoint, .listen], opening s⟩

/-- Another client is awaited while fewer were served than the limit says. -/
def IsOpen (limit : Option Int) (served : Nat) : Prop :=
  ∀ k ∈ limit, (served : Int) < k

instance (limit : Option Int) (served : Nat) : Decidable (IsOpen limit served) :=
  match limit with
  | none => .isTrue fun _ h => by cases h
  | some k => decidable_of_iff ((served : Int) < k) (by simp [IsOpen])

/-- The next client is accepted and handled, and its connection closed. Nothing but sending may fail in this. -/
inductive Step (s : Server) (processors : Nat) (limit : Option Int) : State → State → Prop where
  | serve {c : Server.Client} {cs : List Server.Client} {served : List Served} {events : List Net.Event}
      {log : List Log.Record} {outcome : Log.Logged (Option (List Char))} (awaited : IsOpen limit served.length)
      (handled : s.Handles processors c.toConnection (.ok outcome)) :
      Step s processors limit ⟨c :: cs, served, events, log⟩
        ⟨cs, served ++ [({ sent := outcome.value.getD [] } : Served).close], events ++ [.accept, .close],
          log ++ connected c :: outcome.log⟩

inductive Reachable (s : Server) (processors : Nat) (limit : Option Int) (cs : List Server.Client) : State → Prop where
  | start : Reachable s processors limit cs (.start s cs)
  | step {st st' : State} : Reachable s processors limit cs st → Step s processors limit st st' →
      Reachable s processors limit cs st'

inductive Ends (limit : Option Int) : State → Session → Prop where
  /-- Enough clients were served. -/
  | returned {st : State} (enough : ¬IsOpen limit st.served.length) :
      Ends limit st ⟨st.events, st.log, st.served ++ st.arriving.map (fun _ => ({} : Served)), false⟩
  /-- Another client is awaited, and none comes. -/
  | interrupted {served : List Served} {events : List Net.Event} {log : List Log.Record}
      (awaited : IsOpen limit served.length) :
      Ends limit ⟨[], served, events, log⟩ ⟨events ++ [.accept], log, served, true⟩

/-- How many of the arriving clients are served. -/
def count (limit : Option Int) (arriving : Nat) : Nat :=
  limit.elim arriving fun k => min k.toNat arriving

end Reckoner.Service.Serving
