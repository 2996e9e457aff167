import Mathlib
import Reckoner.Command.Run
import Reckoner.Proofs.Service.Exchange

/-!
# Results files

Sending a file to a server writes what evaluating its lines without any server gives. The lines of a file hold none of the
breaks that requests do not escape, so that each expression comes to the server on one line and has one response.
-/
namespace Reckoner.Service

open Outcome Text

/-! ### Replies -/

/-- What a server may reply to some bytes, in whatever pieces they arrive. -/
def Server.Replies (s : Server) (processors : Nat) (payload reply : List UInt8) : Prop :=
  ∃ pieces served, pieces.flatten = payload ∧ s.handleClient processors ⟨pieces, none⟩ = .ok served ∧
    reply = toUtf8 (served.value.getD [])

theorem Server.replies_replyOf (s : Server) (processors : Nat) (payload : List UInt8) :
    s.Replies processors payload (Command.replyOf s processors payload) := by
  have hserved := s.handleClient_eq processors ⟨[payload], none⟩
  refine ⟨[payload], _, List.flatten_singleton, hserved, ?_⟩
  rw [Command.replyOf, hserved]

theorem Server.Replies.readReply_eq (room : StackRoom) {s : Server} {processors : Nat} {es : List String} {reply : List UInt8}
    (h : s.Replies processors (Client.payload es) reply) (hes : ∀ e ∈ es, ∀ c ∈ e.toList, isRawBreak c = false) :
    Client.readReply room reply = .ok (es.map fun e => (localAnswer e).toDocument) := by
  obtain ⟨pieces, served, hpieces, hserved, rfl⟩ := h
  obtain ⟨served', text, hserved', hvalue, hread⟩ := exists_reply room s processors pieces
  obtain rfl : served = served' := Except.ok.inj (hserved.symm.trans hserved')
  rw [hvalue, Option.getD_some, hread, responses_of_not_isRawBreak hpieces hes]

namespace ResultsFile

/-! ### Records -/

/-- The line for an expression, from evaluating it without a server. -/
def record (e : String) : String :=
  match evaluate e with
  | .ok v => e ++ " = " ++ toString v ++ "\n"
  | .error _ => e ++ " -> ERROR: Invalid mathematical expression\n"

theorem encode_pieces (s : String) : encode (pieces s) = .ok s := by
  rw [encode, ofPieces?_pieces]

theorem line_localAnswer (e : String) : line e (localAnswer e).toDocument = .ok (record e) := by
  rw [localAnswer, record]
  cases evaluate e with
  | ok v =>
    have hdisplay : (Value.number v : Document).display = pieces (toString v) := (pieces_ofList v.text).symm
    change encode (pieces (e ++ " = ") ++ (Value.number v : Document).display ++ pieces "\n") = _
    rw [hdisplay, ← pieces_append, ← pieces_append, encode_pieces]
  | error f =>
    change encode (pieces (e ++ " -> ERROR: ") ++ pieces genericError ++ pieces "\n") = _
    rw [← pieces_append, ← pieces_append, encode_pieces, String.append_assoc, String.append_assoc]
    rfl

theorem lines_localAnswer (es : List String) :
    lines (es.zip (es.map fun e => (localAnswer e).toDocument)) = (String.join (es.map record), none) := by
  induction es with
  | nil => rfl
  | cons e es ih =>
    rw [List.map_cons, List.zip_cons_cons, lines, line_localAnswer]
    simp only [ih, List.map_cons, String.join_cons]

/-! ### Files -/

/-- The expressions of a file are its lines that hold more than blanks, and no translation of breaks shows in them. -/
theorem expressions_eq {file : List UInt8} {cs : List Char} (h : ofUtf8? file = some cs) :
    expressions file =
      some (((splitLines cs).filter fun l => !isBlankText l).map fun l => String.ofList (trimBlanks l)) := by
  rw [expressions, h, Option.map_some, filledLines_eq, splitLines_unifyNewlines, List.map_map]
  rfl

theorem isRawBreak_of_mem_expressions {file : List UInt8} {es : List String} (h : expressions file = some es) :
    ∀ e ∈ es, ∀ c ∈ e.toList, isRawBreak c = false := by
  obtain ⟨cs, -, rfl⟩ := Option.map_eq_some_iff.1 h
  intro e he c hc
  obtain ⟨l, hl, rfl⟩ := List.mem_map.1 he
  rw [String.toList_ofList] at hc
  rw [Bool.eq_false_iff]
  intro hraw
  have hbreak := isLineBreak_of_mem_filledLines hl hc
  rw [(isLineBreak_of_isRawBreak hraw).1] at hbreak
  cases hbreak

/-- A file of text that a server replies for leads to one record for each of its lines that hold more than blanks, in
order, and to nothing else. The record is that of the line without the blanks at its ends. -/
theorem send_eq (room : StackRoom) (s : Server) (processors : Nat) (reply : List UInt8 → List UInt8)
    (hreply : ∀ payload, s.Replies processors payload (reply payload)) {file : List UInt8} {cs : List Char}
    (h : ofUtf8? file = some cs) :
    let es := ((splitLines cs).filter fun l => !isBlankText l).map fun l => String.ofList (trimBlanks l)
    send room reply file = ⟨some (Client.payload es), some (String.join (es.map record)), none⟩ := by
  intro es
  have hes : expressions file = some es := expressions_eq h
  have hread := (hreply (Client.payload es)).readReply_eq room (isRawBreak_of_mem_expressions hes)
  simp only [send, hes, hread, lines_localAnswer, Option.map_none]

/-- A blank line and the blanks at the ends of lines leave no trace. -/
theorem send_eq_two :
    let file := toUtf8 "1 + 2\r\n\n 1/0 \n".toList
    (∀ payload, Server.Replies {} 4 payload (Command.replyOf {} 4 payload)) ∧
      ofUtf8? file = some "1 + 2\r\n\n 1/0 \n".toList ∧
      (send ⟨988, by decide⟩ (Command.replyOf {} 4) file).written =
        some "1 + 2 = 3\n1/0 -> ERROR: Invalid mathematical expression\n" := by
  intro file
  have hreply := Server.replies_replyOf {} 4
  have hfile : ofUtf8? file = some "1 + 2\r\n\n 1/0 \n".toList := ofUtf8?_toUtf8 _
  have hlines : (((splitLines "1 + 2\r\n\n 1/0 \n".toList).filter fun l => !isBlankText l).map fun l =>
      String.ofList (trimBlanks l)) = ["1 + 2", "1/0"] := by decide +kernel
  have hsum : evaluate "1 + 2" = .ok (.int 3) := by decide +kernel
  have hquotient : evaluate "1/0" = .error (.evaluation .divisionByZero) := by decide +kernel
  refine ⟨hreply, hfile, ?_⟩
  rw [send_eq ⟨988, by decide⟩ {} 4 (Command.replyOf {} 4) hreply hfile, hlines]
  simp only [List.map_cons, List.map_nil, record, hsum, hquotient]
  decide +kernel

end ResultsFile
end Reckoner.Service
