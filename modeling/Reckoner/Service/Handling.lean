import Reckoner.Service.Interleaving
import Reckoner.Service.Server

/-!
# Clients handled in any order

What may become of a client when the workers of its lines all answer, in whatever order they do. The outcome that
`Server.handleClient` computes is one of these.
-/
namespace Reckoner.Service

open Log (Logged)

/-- Each worker that has ended its work so far has sent its answer. -/
def Interleaving.State.Answering (ws : List Worker) (st : Interleaving.State Answer) : Prop :=
  ∀ e ∈ st.ends, ∃ w ∈ ws, e = (w.lineNumber, some w.answer.value)

namespace Server

/-- How handling a client may turn out. It fails if there is no worker for one of the lines. -/
inductive Handles (s : Server) (processors : Nat) (c : Connection) : Field.Checked (Logged (Option (List Char))) → Prop where
  | refused {problems : List Field.Problem} (unbuilt : workers (receive c.pieces) = .error problems) :
      Handles s processors c (.error problems)
  | answered {ws : List Worker} {st : Interleaving.State Answer} (built : workers (receive c.pieces) = .ok ws)
      (reachable : Interleaving.Reachable (s.slots processors (receive c.pieces).length) (ws.map (·.lineNumber)) st)
      (finished : st.IsFinished) (answering : st.Answering ws) :
      Handles s processors c
        (.ok (deliver c (receive c.pieces).length (Schedule.responsesInOrder (receive c.pieces).length st.pool)))

/-- A client that stays may be sent these bytes for those that it sent. -/
def Sends (s : Server) (processors : Nat) (pieces : List (List UInt8)) (reply : List UInt8) : Prop :=
  ∃ served text, s.Handles processors ⟨pieces, none⟩ (.ok served) ∧ served.value = some text ∧ reply = Text.toUtf8 text

end Server
end Reckoner.Service
