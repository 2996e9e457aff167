import Mathlib
import Reckoner.Proofs.Service.Interleaving
import Reckoner.Service.Handling

/-!
# Every client is answered

Whatever bytes a client sends, each of the lines in them has a worker, and a schedule in which the workers send their
answers ends with these in the order of the lines. So handling a client never fails and has one outcome, in whatever order
the workers end: a reply with a line for each line of the client, or a record that it is gone.
-/
namespace Reckoner.Service

open Outcome Text

/-! ### Schedules of answering workers -/

namespace Interleaving

variable {limit : Nat} {st : State Answer} {requests : List String} {ws : List Worker}

theorem get?_responses_of_answering (h : Accounted limit (ws.map (·.lineNumber)) st)
    (hn : (ws.map (·.lineNumber)).Nodup) (hfinished : st.IsFinished) (hanswering : st.Answering ws) {w : Worker}
    (hw : w ∈ ws) : Keyed.get? w.lineNumber st.pool.responses = some w.answer.value := by
  obtain ⟨e, hends, hget⟩ := h.exists_end hfinished (List.mem_map_of_mem hw)
  have hmem : (w.lineNumber, e) ∈ st.ends := by
    rw [← mem_endsOf, hends]
    exact List.mem_singleton_self _
  -- The worker that ended for the line is the one of the line, since no two have its number.
  obtain ⟨w', hw', heq⟩ := hanswering _ hmem
  obtain ⟨hline, rfl⟩ := Prod.mk.inj heq
  obtain rfl : w = w' := List.inj_on_of_nodup_map hn hw hw' hline
  exact hget

theorem nodup_of_workers (hbuilt : Server.workers requests = .ok ws) : (ws.map (·.lineNumber)).Nodup :=
  Server.map_lineNumber_of_workers hbuilt ▸ nodup_lineNumbers requests.length

theorem responsesInOrder_of_answering (hbuilt : Server.workers requests = .ok ws)
    (h : Reachable limit (ws.map (·.lineNumber)) st) (hfinished : st.IsFinished) (hanswering : st.Answering ws) :
    Schedule.responsesInOrder requests.length st.pool = requests.map answerTo := by
  have hn := nodup_of_workers hbuilt
  have hlookup : Schedule.responsesInOrder requests.length st.pool =
      (ws.map (·.lineNumber)).map fun line => (Keyed.get? line st.pool.responses).getD .generic := by
    rw [Server.map_lineNumber_of_workers hbuilt, List.map_map]
    rfl
  rw [hlookup, List.map_map, ← Server.map_answer_of_workers hbuilt]
  apply List.map_congr_left
  intro w hw
  simp only [Function.comp_apply, get?_responses_of_answering (h.accounted hn) hn hfinished hanswering hw,
    Option.getD_some]

theorem exists_steps_answering (s : Server) {processors : Nat} (hprocessors : 1 ≤ processors)
    (hbuilt : Server.workers requests = .ok ws)
    (h : Reachable (s.slots processors requests.length) (ws.map (·.lineNumber)) st) (hanswering : st.Answering ws) :
    ∃ st', Steps (s.slots processors requests.length) st st' ∧ st'.IsFinished ∧ st'.Answering ws := by
  have hlimit : ws.map (·.lineNumber) ≠ [] → 1 ≤ s.slots processors requests.length := by
    intro hne
    refine one_le_slots s hprocessors ?_
    rw [← Server.map_request_of_workers hbuilt, List.length_map, ← List.length_map (·.lineNumber)]
    exact List.length_pos_of_ne_nil hne
  -- The way for a line to end that is allowed here is the answer of its worker.
  refine exists_steps_ends ?_ h (nodup_of_workers hbuilt) hlimit hanswering
  intro line hline
  obtain ⟨w, hw, rfl⟩ := List.mem_map.1 hline
  exact ⟨_, w, hw, rfl⟩

end Interleaving

/-! ### One outcome -/

namespace Server

variable {s : Server} {processors : Nat} {c : Connection}

theorem exists_workers_receive (pieces : List (List UInt8)) : ∃ ws, workers (receive pieces) = .ok ws :=
  exists_workers fun _ hr => receive_filled hr

/-- In whatever order the workers end, a client is delivered the answers to its lines. -/
theorem Handles.eq {outcome : Field.Checked (Log.Logged (Option (List Char)))} (h : s.Handles processors c outcome) :
    outcome = .ok (deliver c (receive c.pieces).length ((receive c.pieces).map answerTo)) := by
  cases h with
  | refused unbuilt =>
    obtain ⟨ws, hws⟩ := exists_workers_receive c.pieces
    cases hws.symm.trans unbuilt
  | answered built reachable finished answering =>
    rw [Interleaving.responsesInOrder_of_answering built reachable finished answering]

theorem handles_deliver (hprocessors : 1 ≤ processors) :
    s.Handles processors c (.ok (deliver c (receive c.pieces).length ((receive c.pieces).map answerTo))) := by
  obtain ⟨ws, hws⟩ := exists_workers_receive c.pieces
  have hstart : (Interleaving.State.start (ws.map (·.lineNumber))).Answering ws := by
    intro e he
    cases he
  obtain ⟨st, hsteps, hfinished, hanswering⟩ := Interleaving.exists_steps_answering s hprocessors hws .start hstart
  have hreachable := Interleaving.Reachable.start.steps hsteps
  rw [← Interleaving.responsesInOrder_of_answering hws hreachable hfinished hanswering]
  exact .answered hws hreachable hfinished hanswering

theorem handles_iff (hprocessors : 1 ≤ processors) {outcome : Field.Checked (Log.Logged (Option (List Char)))} :
    s.Handles processors c outcome ↔ outcome = s.handleClient processors c := by
  rw [handleClient_eq]
  exact ⟨Handles.eq, fun h => h ▸ handles_deliver hprocessors⟩

end Server

/-! ### The lines of a reply -/

/-- The documents that answer a line: one with the value that it asks for, a number that can be written and is not infinite,
or one with the one error if it asks for none. -/
inductive IsReplyTo (line : String) : Document → Prop where
  | value {v : Number} (asked : AsksFor line v) (bounded : v.Bounded) :
      IsReplyTo line (.dict [(pieces "result", .number v)])
  | refusal (unasked : ¬∃ v, AsksFor line v) :
      IsReplyTo line (.dict [(pieces "error", .text (pieces genericError))])

theorem isReplyTo_answerTo (line : String) : IsReplyTo line (answerTo line).toDocument := by
  rcases answerTo_cases line with ⟨v, hv, heq⟩ | ⟨hnone, heq⟩
  · rw [heq]
    exact .value hv hv.bounded
  · rw [heq]
    exact .refusal hnone

/-- A line of a reply: a document that answers the request, in characters of ASCII and without a break among them. -/
structure IsReplyLine (request : String) (l : List Char) : Prop where
  ascii : ∀ c ∈ l, c.toNat < 0x80
  unbroken : ∀ c ∈ l, isLineBreak c = false
  document : ∃ d, (∀ room, Json.read (replyDialect room) l = .ok d) ∧ IsReplyTo request d

theorem isReplyLine_text (request : String) : IsReplyLine request (answerTo request).text where
  ascii := fun _ => Answer.toNat_lt_of_mem_text (isProper_answerTo request)
  unbroken := fun _ => Answer.isLineBreak_of_mem_text (isProper_answerTo request)
  document := ⟨_, fun room => Answer.read_text (isProper_answerTo request) room, isReplyTo_answerTo request⟩

theorem receive_eq_map (pieces : List (List UInt8)) : Server.receive pieces =
    ((splitLines (ofUtf8Lossy pieces.flatten)).filter fun l => !isBlankText l).map
      fun l => String.ofList (trimBlanks l) := by
  rw [Server.receive, Server.requestLines, filledLines_eq, List.map_map]
  rfl

/-- Handling a client never fails, and it has one outcome, in whatever order its workers send their answers. None of these
orders gets stuck. There is a worker for each line of the client that holds more than blanks, and a line of the reply for
each worker in their order. A client that stays is sent these lines, each ended by a line feed. If sending to it fails,
this is recorded in place of the success. -/
theorem handling_total (s : Server) {processors : Nat} (hprocessors : 1 ≤ processors) (c : Server.Connection) :
    ∃ ws served lines, Server.workers (Server.receive c.pieces) = .ok ws ∧
      ws.map (·.lineNumber) = Interleaving.lineNumbers ws.length ∧
      ws.map (·.request) = ((splitLines (ofUtf8Lossy c.pieces.flatten)).filter fun l => !isBlankText l).map
        (fun l => String.ofList (trimBlanks l)) ∧
      s.handleClient processors c = .ok served ∧
      (∀ outcome, s.Handles processors c outcome ↔ outcome = .ok served) ∧
      (∀ st : Interleaving.State Answer,
        Interleaving.Reachable (s.slots processors ws.length) (Interleaving.lineNumbers ws.length) st → st.Answering ws →
        ∃ st', Interleaving.Steps (s.slots processors ws.length) st st' ∧ st'.IsFinished ∧ st'.Answering ws) ∧
      List.Forall₂ IsReplyLine (ws.map (·.request)) lines ∧
      (c.gone = none → served = ⟨some (lines.flatMap fun l => l ++ ['\n']),
        [⟨.info, "📨 Received " ++ toString ws.length ++ " request(s)"⟩, ⟨.info, "✉️ Responses sent to client"⟩]⟩) ∧
      ∀ reason, c.gone = some reason → served = ⟨none,
        [⟨.info, "📨 Received " ++ toString ws.length ++ " request(s)"⟩,
          ⟨.error, "🔌❌ Client disconnected before receiving responses: " ++ reason⟩]⟩ := by
  obtain ⟨ws, hws⟩ := Server.exists_workers_receive c.pieces
  have hrequests := Server.map_request_of_workers hws
  have hlines : ws.map (·.lineNumber) = Interleaving.lineNumbers (Server.receive c.pieces).length :=
    Server.map_lineNumber_of_workers hws
  have hlength : ws.length = (Server.receive c.pieces).length := by rw [← hrequests, List.length_map]
  refine ⟨ws, _, (Server.receive c.pieces).map fun r => (answerTo r).text, hws, hlength ▸ hlines,
    hrequests.trans (receive_eq_map c.pieces), s.handleClient_eq processors c, ?_, ?_, ?_, ?_, ?_⟩
  · intro outcome
    rw [Server.handles_iff hprocessors, Server.handleClient_eq]
  · intro st hreach hanswering
    rw [hlength] at hreach ⊢
    exact Interleaving.exists_steps_answering s hprocessors hws (hlines ▸ hreach) hanswering
  · rw [hrequests, List.forall₂_map_right_iff, List.forall₂_same]
    intro r _
    exact isReplyLine_text r
  · intro hgone
    rw [hlength, Server.deliver, hgone, List.flatMap_map]
    simp only [Server.replyText, List.flatMap_map]
    rfl
  · intro reason hgone
    rw [hlength, Server.deliver, hgone]
    rfl

/-- A line that ends inside a character has the one error, and the sum behind it its value. -/
theorem handling_total_truncated :
    1 ≤ 4 ∧ ∃ served l₁ l₂,
      Server.handleClient {} 4 ⟨[[0xE2, 0x82], 0x0A :: toUtf8 (Request.mk "1+2").text], none⟩ = .ok served ∧
      served.value = some (l₁ ++ ['\n'] ++ (l₂ ++ ['\n'])) ∧
      (∀ room, Json.read (replyDialect room) l₁ = .ok (.dict [(pieces "error", .text (pieces genericError))])) ∧
      ∀ room, Json.read (replyDialect room) l₂ = .ok (.dict [(pieces "result", .number (.int 3))]) := by
  have hreceive : Server.receive [[0xE2, 0x82], 0x0A :: toUtf8 (Request.mk "1+2").text] =
      ["\uFFFD", String.ofList (Request.mk "1+2").text] := by
    decide +kernel
  have hfault : ¬∃ v, AsksFor "\uFFFD" v := by
    rintro ⟨v, r, hr, -⟩
    have hproblem : Request.ofPayload (.text "\uFFFD") = .error [⟨[], .jsonInvalid⟩] := by decide +kernel
    cases hproblem.symm.trans hr
  have hsum : AsksFor (String.ofList (Request.mk "1+2").text) (.int 3) := asksFor_text_iff.2 (by decide +kernel)
  obtain ⟨ws, served, lines, hws, -, -, hserved, -, -, hlines, hstays, -⟩ :=
    handling_total {} (by decide : 1 ≤ 4) ⟨[[0xE2, 0x82], 0x0A :: toUtf8 (Request.mk "1+2").text], none⟩
  rw [Server.map_request_of_workers hws, hreceive] at hlines
  obtain ⟨l₁, rest, ⟨-, -, d₁, hread₁, hd₁⟩, hrest, rfl⟩ := List.forall₂_cons_left_iff.1 hlines
  obtain ⟨l₂, rest', ⟨-, -, d₂, hread₂, hd₂⟩, hrest', rfl⟩ := List.forall₂_cons_left_iff.1 hrest
  obtain rfl := List.forall₂_nil_left_iff.1 hrest'
  refine ⟨by decide, served, l₁, l₂, hserved, ?_, ?_, ?_⟩
  · rw [hstays rfl]
    simp
  · cases hd₁ with
    | value asked => exact absurd ⟨_, asked⟩ hfault
    | refusal => exact hread₁
  · cases hd₂ with
    | value asked => exact asked.unique hsum ▸ hread₂
    | refusal unasked => exact absurd ⟨_, hsum⟩ unasked

end Reckoner.Service
