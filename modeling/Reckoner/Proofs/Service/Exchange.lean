import Mathlib
import Reckoner.Proofs.Service.Schedule
import Reckoner.Proofs.Service.Worker
import Reckoner.Proofs.Text.Utf8
import Reckoner.Service.Client
import Reckoner.Service.Server

/-!
# Exchanges of a client with a server

A server answers every line that it receives by itself, in order, and the client reads each answer back. The lines are
the client's requests unless an expression holds one of the breaks that requests do not escape; then there are more
lines than requests.
-/
namespace Reckoner.Service

open Outcome Text

/-! ### Answers -/

/-- The answer for an expression, without any request. -/
def localAnswer (expression : String) : Answer :=
  match evaluate expression with
  | .ok v => .result v
  | .error _ => .generic

theorem asksFor_text_iff {e : String} {v : Number} :
    AsksFor (String.ofList (Request.mk e).text) v ↔ evaluate e = .ok v := by
  have hr : Request.ofPayload (.text (String.ofList (Request.mk e).text)) = .ok ⟨e⟩ := Request.ofPayload_text ⟨e⟩
  constructor
  · rintro ⟨r, hr', hv⟩
    cases hr.symm.trans hr'
    exact hv
  · exact fun hv => ⟨⟨e⟩, hr, hv⟩

theorem answerTo_text (e : String) : answerTo (String.ofList (Request.mk e).text) = localAnswer e := by
  rw [localAnswer]
  cases he : evaluate e with
  | ok v => exact answerTo_eq_result_iff.2 (asksFor_text_iff.2 he)
  | error f =>
    refine answerTo_eq_generic_iff.2 ?_
    rintro ⟨v, hv⟩
    rw [asksFor_text_iff, he] at hv
    cases hv

/-! ### The workers of a server -/

namespace Server

theorem exists_workers {requests : List String} (h : ∀ r ∈ requests, ¬isBlankText r.toList = true) :
    ∃ ws, workers requests = .ok ws := by
  apply exists_mapM_eq_ok
  rintro ⟨r, i⟩ hr
  obtain ⟨hi, -, heq⟩ := List.mem_zipIdx hr
  have hmem : r ∈ requests := heq ▸ List.getElem_mem _
  obtain ⟨w, hw, -⟩ := Worker.ofFields_eq_ok (h r hmem) (Int.ofNat_le.2 hi)
  exact ⟨w, hw⟩

private theorem map_eq_map_of_forall₂ {α β γ : Type} {f : α → γ} {g : β → γ} {xs : List α} {ys : List β}
    (h : List.Forall₂ (fun x y => g y = f x) xs ys) : ys.map g = xs.map f := by
  rw [eq_comm, ← List.forall₂_eq_eq_eq, List.forall₂_map_left_iff, List.forall₂_map_right_iff]
  exact h.imp fun _ _ heq => heq.symm

section

variable {requests : List String} {ws : List Worker} (h : workers requests = .ok ws)

include h

private theorem forall₂_of_workers : List.Forall₂
    (fun (p : String × Nat) (w : Worker) => w.request = p.1 ∧ w.lineNumber = p.2) (requests.zipIdx 1) ws :=
  (mapM_eq_ok_iff.1 h).imp fun _ _ hw => Worker.eq_of_ofFields hw

theorem map_request_of_workers : ws.map (·.request) = requests := by
  rw [map_eq_map_of_forall₂ ((forall₂_of_workers h).imp fun _ _ hw => hw.1), List.zipIdx_map_fst]

theorem map_lineNumber_of_workers :
    ws.map (·.lineNumber) = (List.range' 1 requests.length).map fun (n : Nat) => (n : Int) := by
  rw [map_eq_map_of_forall₂ ((forall₂_of_workers h).imp fun _ _ hw => hw.2), ← List.zipIdx_map_snd 1 requests,
    List.map_map]
  rfl

theorem map_answer_of_workers : ws.map (fun w => w.answer.value) = requests.map answerTo := by
  rw [← map_request_of_workers h, List.map_map]
  exact List.map_congr_left fun w _ => value_answer w

end

theorem answers_eq_ok (s : Server) (processors : Nat) {requests : List String}
    (h : ∀ r ∈ requests, ¬isBlankText r.toList = true) : s.answers processors requests = .ok (requests.map answerTo) := by
  obtain ⟨ws, hws⟩ := exists_workers h
  have hlines := map_lineNumber_of_workers hws
  have hlen : requests.length = ws.length := by rw [← map_request_of_workers hws, List.length_map]
  rw [hlen] at hlines
  rw [answers, hws]
  exact congrArg Except.ok ((Schedule.answers_eq_map _ hlines).trans (map_answer_of_workers hws))

theorem receive_filled {pieces : List (List UInt8)} {r : String} (h : r ∈ receive pieces) :
    ¬isBlankText r.toList = true := by
  obtain ⟨l, hl, rfl⟩ := List.mem_map.1 h
  rw [String.toList_ofList]
  exact not_isBlankText_of_mem_filledLines hl

theorem handleClient_eq (s : Server) (processors : Nat) (c : Connection) :
    s.handleClient processors c = .ok (deliver c (receive c.pieces).length ((receive c.pieces).map answerTo)) := by
  rw [handleClient, s.answers_eq_ok processors fun r hr => receive_filled hr]
  rfl

end Server

namespace Client

theorem readReply_replyText (room : StackRoom) {as : List Answer} (h : ∀ a ∈ as, a.IsProper) :
    readReply room (toUtf8 (Server.replyText as)) = .ok (as.map Answer.toDocument) := by
  have hlines : splitLines (Server.replyText as) = as.map Answer.text := by
    have hflat : Server.replyText as = (as.map Answer.text).flatMap fun l => l ++ ['\n'] := by
      rw [Server.replyText, List.flatMap_map]
    rw [hflat]
    apply splitLines_flatMap
    intro l hl c hc
    obtain ⟨a, ha, rfl⟩ := List.mem_map.1 hl
    exact Answer.isLineBreak_of_mem_text (h a ha) hc
  have hfilled : (as.map Answer.text).filter (fun l => !isBlankText l) = as.map Answer.text := by
    apply List.filter_eq_self.2
    intro l hl
    obtain ⟨a, -, rfl⟩ := List.mem_map.1 hl
    rw [a.not_isBlankText_text]
    rfl
  rw [readReply, ofUtf8?_toUtf8]
  dsimp only
  rw [hlines, hfilled, mapM_eq_ok_iff, List.forall₂_map_left_iff, List.forall₂_map_right_iff, List.forall₂_same]
  intro a ha
  rw [Answer.read_text (h a ha) room]
  rfl

end Client

/-! ### Request lines -/

private theorem receive_eq {pieces : List (List UInt8)} {es : List String}
    (h : pieces.flatten = Client.payload es) : Server.receive pieces =
      (filledLines ((es.map fun e => (Request.mk e).text).flatMap fun l => l ++ ['\n'])).map String.ofList := by
  rw [Server.receive, h, Client.payload, Server.requestLines, ofUtf8Lossy_toUtf8, List.flatMap_map]

private theorem isFramed_of_mem_requests {es : List String} {l : List Char}
    (hl : l ∈ es.map fun e => (Request.mk e).text) : IsFramed l := by
  obtain ⟨e, -, rfl⟩ := List.mem_map.1 hl
  exact (Request.mk e).isFramed_text

theorem receive_payload {pieces : List (List UInt8)} {es : List String} (h : pieces.flatten = Client.payload es)
    (hes : ∀ e ∈ es, ∀ c ∈ e.toList, isRawBreak c = false) :
    Server.receive pieces = es.map fun e => String.ofList (Request.mk e).text := by
  have hbreaks : ∀ l ∈ es.map fun e => (Request.mk e).text, ∀ c ∈ l, isLineBreak c = false := by
    intro l hl c hc
    obtain ⟨e, he, rfl⟩ := List.mem_map.1 hl
    rw [Bool.eq_false_iff]
    intro hb
    obtain ⟨hmem, hraw⟩ := ((Request.mk e).mem_text_and_isLineBreak_iff c).1 ⟨hc, hb⟩
    rw [hes e he c hmem] at hraw
    cases hraw
  rw [receive_eq h, filledLines_flatMap (fun l => isFramed_of_mem_requests) hbreaks, List.map_map]
  rfl

theorem length_lt_length_receive {pieces : List (List UInt8)} {es : List String}
    (h : pieces.flatten = Client.payload es) {e : String} (he : e ∈ es) {c : Char} (hc : c ∈ e.toList)
    (hraw : isRawBreak c = true) : es.length < (Server.receive pieces).length := by
  obtain ⟨hmem, hb⟩ := ((Request.mk e).mem_text_and_isLineBreak_iff c).2 ⟨hc, hraw⟩
  have hline : (Request.mk e).text ∈ es.map fun e => (Request.mk e).text := List.mem_map.2 ⟨e, he, rfl⟩
  have hreturn := (isLineBreak_of_isRawBreak hraw).2
  have hlt := (length_filledLines_flatMap fun l => isFramed_of_mem_requests).2 _ hline c hmem hb hreturn
  rwa [List.length_map, ← List.length_map String.ofList, ← receive_eq h] at hlt

/-! ### Exchanges -/

/-- What a server sends a client that stays is read back as one document for each line that the server got. -/
theorem exists_reply (room : StackRoom) (s : Server) (processors : Nat) (pieces : List (List UInt8)) :
    ∃ served reply, s.handleClient processors ⟨pieces, none⟩ = .ok served ∧ served.value = some reply ∧
      Client.readReply room (toUtf8 reply) = .ok ((Server.receive pieces).map fun line => (answerTo line).toDocument) := by
  refine ⟨_, _, s.handleClient_eq processors ⟨pieces, none⟩, rfl, ?_⟩
  rw [Client.readReply_replyText, List.map_map]
  · rfl
  · intro a ha
    obtain ⟨line, -, rfl⟩ := List.mem_map.1 ha
    exact isProper_answerTo line

theorem responses_of_not_isRawBreak {pieces : List (List UInt8)} {es : List String}
    (h : pieces.flatten = Client.payload es) (hes : ∀ e ∈ es, ∀ c ∈ e.toList, isRawBreak c = false) :
    ((Server.receive pieces).map fun line => (answerTo line).toDocument) = es.map fun e => (localAnswer e).toDocument := by
  rw [receive_payload h hes, List.map_map]
  apply List.map_congr_left
  intro e _
  rw [Function.comp_apply, answerTo_text]

/-- A client reads back what evaluating its expressions by itself gives, one answer for each in order, exactly if none of
them holds a break that requests do not escape. With such a break it reads more answers than it has expressions. -/
theorem responses_eq_map_iff (room : StackRoom) (s : Server) (processors : Nat) {es : List String} {pieces : List (List UInt8)}
    (h : pieces.flatten = Client.payload es) :
    ∃ served reply responses, s.handleClient processors ⟨pieces, none⟩ = .ok served ∧ served.value = some reply ∧
      Client.readReply room (toUtf8 reply) = .ok responses ∧
      (responses = (es.map fun e => (localAnswer e).toDocument) ↔ ∀ e ∈ es, ∀ c ∈ e.toList, isRawBreak c = false) ∧
      ((∃ e ∈ es, ∃ c ∈ e.toList, isRawBreak c = true) → es.length < responses.length) := by
  obtain ⟨served, reply, hserved, hvalue, hreply⟩ := exists_reply room s processors pieces
  have hlonger : (∃ e ∈ es, ∃ c ∈ e.toList, isRawBreak c = true) →
      es.length < ((Server.receive pieces).map fun line => (answerTo line).toDocument).length := by
    rintro ⟨e, he, c, hc, hraw⟩
    rw [List.length_map]
    exact length_lt_length_receive h he hc hraw
  refine ⟨served, reply, _, hserved, hvalue, hreply, ⟨?_, ?_⟩, hlonger⟩
  · intro heq e he c hc
    rw [Bool.eq_false_iff]
    intro hraw
    have hlt := hlonger ⟨e, he, c, hc, hraw⟩
    rw [heq, List.length_map] at hlt
    exact absurd hlt (Nat.lt_irrefl _)
  · exact responses_of_not_isRawBreak h

theorem responses_eq_map_two :
    ∃ served reply responses,
      Server.handleClient {} 4 ⟨[Client.payload ["1 + 2", "1/0"]], none⟩ = .ok served ∧ served.value = some reply ∧
      Client.readReply ⟨988, by decide⟩ (toUtf8 reply) = .ok responses ∧
      responses = [.dict [(pieces "result", .number (.int 3))], .dict [(pieces "error", .text (pieces genericError))]] := by
  obtain ⟨served, reply, responses, hserved, hvalue, hreply, hiff, -⟩ :=
    responses_eq_map_iff ⟨988, by decide⟩ {} 4 (List.flatten_singleton : [Client.payload ["1 + 2", "1/0"]].flatten = _)
  have hsum : evaluate "1 + 2" = .ok (.int 3) := by decide +kernel
  have hquotient : evaluate "1/0" = .error (.evaluation .divisionByZero) := by decide +kernel
  have hplain : ∀ e ∈ ["1 + 2", "1/0"], ∀ c ∈ e.toList, isRawBreak c = false := by
    simp [isRawBreak]
  refine ⟨served, reply, responses, hserved, hvalue, hreply, ?_⟩
  rw [hiff.2 hplain]
  simp [localAnswer, hsum, hquotient, Answer.toDocument, Answer.generic]

/-- A line separator inside a literal is a blank to the evaluator and the end of a request to the server. -/
theorem responses_ne_of_separator :
    evaluate "1\u2028+2" = .ok (.int 3) ∧
      ∃ served reply, Server.handleClient {} 4 ⟨[Client.payload ["1\u2028+2"]], none⟩ = .ok served ∧
        served.value = some reply ∧
        Client.readReply ⟨988, by decide⟩ (toUtf8 reply) ≠ .ok [.dict [(pieces "result", .number (.int 3))]] := by
  refine ⟨by decide +kernel, ?_⟩
  obtain ⟨served, reply, hserved, hvalue, hreply⟩ := exists_reply ⟨988, by decide⟩ {} 4 [Client.payload ["1\u2028+2"]]
  refine ⟨served, reply, hserved, hvalue, ?_⟩
  intro heq
  rw [hreply] at heq
  have hlt := length_lt_length_receive (List.flatten_singleton : [Client.payload ["1\u2028+2"]].flatten = _)
    (List.mem_singleton_self "1\u2028+2") (by decide : '\u2028' ∈ "1\u2028+2".toList) (by decide)
  have hlen := congrArg List.length (Except.ok.inj heq)
  rw [List.length_map] at hlen
  rw [hlen] at hlt
  exact absurd hlt (by decide)

end Reckoner.Service
