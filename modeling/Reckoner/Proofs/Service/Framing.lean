import Mathlib
import Reckoner.Proofs.Service.Handling

/-!
# Lines are answered apart from each other

A line feed separates what stands before it from what stands behind it, whatever bytes there are on either side and in
whatever pieces they arrive: neither a broken character nor a broken line reaches across it. So a server sends for both
sides what it sends for the one and then what it sends for the other.
-/
namespace Reckoner.Service.Server

open Text

variable {s : Server} {processors : Nat} {pieces as bs : List (List UInt8)}

theorem receive_append (h : pieces.flatten = as.flatten ++ 0x0A :: bs.flatten) :
    receive pieces = receive as ++ receive bs := by
  simp only [receive, requestLines, h, ofUtf8Lossy_append_newline, filledLines_append_newline, List.map_append]

def replyBytes (pieces : List (List UInt8)) : List UInt8 :=
  toUtf8 (replyText ((receive pieces).map answerTo))

theorem replyBytes_append (h : pieces.flatten = as.flatten ++ 0x0A :: bs.flatten) :
    replyBytes pieces = replyBytes as ++ replyBytes bs := by
  simp only [replyBytes, receive_append h, List.map_append, replyText, List.flatMap_append, toUtf8_append]

theorem sends_iff (hprocessors : 1 ≤ processors) {reply : List UInt8} :
    s.Sends processors pieces reply ↔ reply = replyBytes pieces := by
  have hvalue : (deliver ⟨pieces, none⟩ (receive pieces).length ((receive pieces).map answerTo)).value =
      some (replyText ((receive pieces).map answerTo)) := rfl
  constructor
  · rintro ⟨served, text, hserved, htext, rfl⟩
    obtain rfl := Except.ok.inj hserved.eq
    rw [replyBytes, Option.some.inj (htext.symm.trans hvalue)]
  · rintro rfl
    exact ⟨_, _, handles_deliver hprocessors, hvalue, rfl⟩

/-- A line feed separates the lines of a client and the answers to them, whatever the bytes before and behind it, in
whatever pieces they come and in whatever order the workers end. A line between two others is answered between the answers
to these, which do not depend on it. A server always sends something, and what it computes is what it may send. -/
theorem sends_append (s : Server) {processors : Nat} (hprocessors : 1 ≤ processors) {pieces as bs : List (List UInt8)}
    (h : pieces.flatten = as.flatten ++ 0x0A :: bs.flatten) :
    receive pieces = receive as ++ receive bs ∧
      (∀ ps, ∃ served text, s.handleClient processors ⟨ps, none⟩ = .ok served ∧ served.value = some text ∧
        s.Sends processors ps (toUtf8 text)) ∧
      (∀ x y, s.Sends processors as x → s.Sends processors bs y →
        ∀ sent, s.Sends processors pieces sent ↔ sent = x ++ y) ∧
      ∀ ls cs, bs.flatten = ls.flatten ++ 0x0A :: cs.flatten → ∀ x y z, s.Sends processors as x →
        s.Sends processors ls y → s.Sends processors cs z → ∀ sent, s.Sends processors pieces sent ↔ sent = x ++ (y ++ z) := by
  simp only [sends_iff hprocessors]
  refine ⟨receive_append h, ?_, ?_, ?_⟩
  · intro ps
    exact ⟨_, _, s.handleClient_eq processors ⟨ps, none⟩, rfl, rfl⟩
  · rintro x y rfl rfl sent
    rw [replyBytes_append h]
  · rintro ls cs hbs x y z rfl rfl rfl sent
    rw [replyBytes_append h, replyBytes_append hbs]

/-- Bytes that break off inside a character do not reach across the line feed that comes with the next piece. -/
theorem sends_append_truncated :
    1 ≤ 4 ∧ [[0xE2], [0x82, 0x0A], toUtf8 (Request.mk "1+2").text].flatten =
        [[0xE2, 0x82]].flatten ++ 0x0A :: [toUtf8 (Request.mk "1+2").text].flatten ∧
      ∀ sent, Sends {} 4 [[0xE2], [0x82, 0x0A], toUtf8 (Request.mk "1+2").text] sent ↔
        sent = toUtf8 "\x7b\"error\": \"Invalid mathematical expression\"\x7d\n".toList ++
          toUtf8 "\x7b\"result\": 3\x7d\n".toList := by
  have hflatten : [[0xE2], [0x82, 0x0A], toUtf8 (Request.mk "1+2").text].flatten =
      [[0xE2, 0x82]].flatten ++ 0x0A :: [toUtf8 (Request.mk "1+2").text].flatten := by simp
  have hfault : Sends {} 4 [[0xE2, 0x82]]
      (toUtf8 "\x7b\"error\": \"Invalid mathematical expression\"\x7d\n".toList) := by
    rw [sends_iff (by decide)]
    decide +kernel
  have hsum : Sends {} 4 [toUtf8 (Request.mk "1+2").text] (toUtf8 "\x7b\"result\": 3\x7d\n".toList) := by
    rw [sends_iff (by decide)]
    decide +kernel
  obtain ⟨-, -, hsends, -⟩ := sends_append {} (by decide : 1 ≤ 4) hflatten
  exact ⟨by decide, hflatten, hsends _ _ hfault hsum⟩

end Reckoner.Service.Server
