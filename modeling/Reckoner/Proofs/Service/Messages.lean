import Mathlib
import Reckoner.Proofs.Json.Documents
import Reckoner.Proofs.Text.Lines
import Reckoner.Service.Client

/-!
# Messages as lines

A request and an answer are documents on one line each, and are read back from it. The writer of requests escapes no
character from U+0020 on, so that three breaks of lines may stand in a request as themselves. An answer has none.
-/
namespace Reckoner

namespace Text

/-- The breaks of lines that a request does not escape. -/
def isRawBreak (c : Char) : Bool :=
  c == '\x85' || c == '\u2028' || c == '\u2029'

theorem isLineBreak_of_isRawBreak {c : Char} (h : isRawBreak c = true) : isLineBreak c = true ∧ c ≠ '\r' := by
  simp only [isRawBreak, Bool.or_eq_true, beq_iff_eq] at h
  rcases h with (rfl | rfl) | rfl <;> decide

theorem isRawBreak_of_isLineBreak {c : Char} (h : isLineBreak c = true) (hc : 0x20 ≤ c.toNat) : isRawBreak c = true := by
  simp only [isLineBreak, Bool.or_eq_true, Bool.and_eq_true, decide_eq_true_eq, beq_iff_eq] at h
  have hn : c.toNat = 0x85 ∨ c.toNat = 0x2028 ∨ c.toNat = 0x2029 := by omega
  have hof : Char.ofNat c.toNat = c := Char.ofNat_toNat c
  rcases hn with hn | hn | hn <;> rw [← hof, hn] <;> decide

theorem isLineBreak_of_all {cs : List Char} (h : (cs.all fun c => !isLineBreak c) = true) :
    ∀ c ∈ cs, isLineBreak c = false := by
  simpa using h

end Text

namespace Service

open Text

/-! ### Requests -/

private theorem isLineBreak_of_mem_unitEscape {n : Nat} (hn : n < 0x10000) {d : Char} (hd : d ∈ Json.unitEscape n) :
    isLineBreak d = false := by
  have hdigit : ∀ k < 16, isLineBreak (Nat.digitChar k) = false := by decide
  rw [Json.unitEscape, Json.hexDigits_four hn] at hd
  simp only [List.mem_cons, List.not_mem_nil, or_false] at hd
  rcases hd with rfl | rfl | rfl | rfl | rfl | rfl
  · decide
  · decide
  · exact hdigit _ (by omega)
  · exact hdigit _ (by omega)
  · exact hdigit _ (by omega)
  · exact hdigit _ (by omega)

private theorem isLineBreak_of_escaped? {e c : Char} (h : Json.escaped? e = some c) : isLineBreak e = false := by
  unfold Json.escaped? at h
  split at h <;> first | decide | cases h

private theorem eq_of_mem_writeChar {c d : Char} (h : d ∈ Json.writeChar .compact c) (hd : isLineBreak d = true) :
    d = c ∧ isRawBreak c = true := by
  rcases Json.writeChar_cases .compact c with ⟨e, he, hw⟩ | ⟨-, -, hc, hw⟩ | ⟨hlow, hw⟩
  · rw [hw, List.mem_cons, List.mem_singleton] at h
    rcases h with rfl | rfl
    · exact absurd hd (by decide)
    · rw [isLineBreak_of_escaped? he] at hd
      cases hd
  · rw [hw] at h
    obtain rfl := List.mem_singleton.1 h
    exact ⟨rfl, isRawBreak_of_isLineBreak hd hc⟩
  · have hc : c.toNat < 0x20 := by
      by_contra hle
      exact hlow ⟨Nat.le_of_not_lt hle, rfl⟩
    have hunit : Json.charEscape c = Json.unitEscape c.toNat := by
      rw [Json.charEscape]
      exact if_pos (by omega)
    rw [hw, hunit] at h
    rw [isLineBreak_of_mem_unitEscape (by omega) h] at hd
    cases hd

private theorem mem_writeChar_of_isRawBreak {c : Char} (h : isRawBreak c = true) : c ∈ Json.writeChar .compact c := by
  simp only [isRawBreak, Bool.or_eq_true, beq_iff_eq] at h
  rcases h with (rfl | rfl) | rfl <;> decide

namespace Request

private def head : List Char :=
  ['\x7b', '\x22', 'e', 'x', 'p', 'r', 'e', 's', 's', 'i', 'o', 'n', '\x22', ':', '\x22']

private theorem text_eq (r : Request) :
    r.text = head ++ r.expression.toList.flatMap (Json.writeChar .compact) ++ ['\x22'] ++ ['\x7d'] := by
  rfl

theorem isFramed_text (r : Request) : IsFramed r.text := by
  rw [text_eq]
  exact ⟨_, _, _, rfl, by decide, by decide⟩

/-- The breaks in a request are the unescaped ones in its expression. -/
theorem mem_text_and_isLineBreak_iff (r : Request) (c : Char) :
    (c ∈ r.text ∧ isLineBreak c = true) ↔ (c ∈ r.expression.toList ∧ isRawBreak c = true) := by
  have hhead : ∀ c ∈ head, isLineBreak c = false := isLineBreak_of_all (by decide)
  rw [text_eq]
  simp only [List.mem_append, List.mem_flatMap, List.mem_singleton]
  constructor
  · rintro ⟨((hc | ⟨d, hd, hc⟩) | rfl) | rfl, hb⟩
    · rw [hhead c hc] at hb
      cases hb
    · obtain ⟨rfl, hraw⟩ := eq_of_mem_writeChar hc hb
      exact ⟨hd, hraw⟩
    · exact absurd hb (by decide)
    · exact absurd hb (by decide)
  · rintro ⟨hc, hraw⟩
    exact ⟨.inl (.inl (.inr ⟨c, hc, mem_writeChar_of_isRawBreak hraw⟩)), (isLineBreak_of_isRawBreak hraw).1⟩

theorem ofPayload_text (r : Request) : ofPayload (.text (String.ofList r.text)) = .ok r := by
  have hadmits : requestDialect.AdmitsFields := ⟨rfl, fun _ _ => rfl⟩
  have hread : Json.read requestDialect r.text = .ok r.toDatum :=
    Json.read_write_document hadmits (rfl : _ = ':' :: []) (by simp) (ofPieces?_pieces _)
      (Json.isAtom_text .compact (ofPieces?_pieces _))
  rw [ofPayload, parsePayload, parseDocument, String.toList_ofList, hread]
  rfl

end Request

/-! ### Answers -/

namespace Answer

/-- Whether an answer is one that a worker gives: a bounded number or the generic error. -/
def IsProper : Answer → Prop
  | .result n => n.Bounded
  | .error t => t = genericError

def toDocument : Answer → Document
  | .result v => .dict [(pieces "result", .number v)]
  | .error t => .dict [(pieces "error", .text (pieces t))]

theorem read_text {a : Answer} (ha : a.IsProper) (room : StackRoom) :
    Json.read (replyDialect room) a.text = .ok a.toDocument := by
  have hadmits : (replyDialect room).AdmitsFields := by
    have hroom : 0 < room.levels := room.one_le_levels
    refine ⟨?_, fun l hl => ?_⟩
    · simp [replyDialect, hroom]
    · simp [replyDialect, hl]
  have hseparator : Json.Style.ascii.keySeparator = ':' :: [' '] := rfl
  have hspaces : ∀ c ∈ [' '], Json.isSpace c = true := by
    intro c hc
    rw [List.mem_singleton.1 hc]
    decide
  cases a with
  | result n => exact Json.read_write_document hadmits hseparator hspaces rfl (Json.isAtom_number rfl .ascii ha)
  | error t => exact Json.read_write_document hadmits hseparator hspaces rfl (Json.isAtom_text .ascii rfl)

theorem not_isBlankText_text (a : Answer) : isBlankText a.text = false := by
  cases a <;> rfl

private def isPlainAscii (c : Char) : Bool :=
  0x20 ≤ c.toNat && c.toNat < 0x7F

private theorem isPlainAscii_of_isNumberChar {c : Char} (h : Json.isNumberChar c = true) : isPlainAscii c = true := by
  simp only [Json.isNumberChar, isAsciiDigit, Bool.or_eq_true, Bool.and_eq_true, decide_eq_true_eq, beq_iff_eq] at h
  rcases h with (((⟨hlo, hhi⟩ | rfl) | rfl) | rfl) | rfl
  · have hlo : '0'.toNat ≤ c.toNat := hlo
    have hhi : c.toNat ≤ '9'.toNat := hhi
    have h0 : '0'.toNat = 48 := rfl
    have h9 : '9'.toNat = 57 := rfl
    simp only [isPlainAscii, Bool.and_eq_true, decide_eq_true_eq]
    omega
  · decide
  · decide
  · decide
  · decide

private def resultHead : List Char :=
  ['\x7b', '\x22', 'r', 'e', 's', 'u', 'l', 't', '\x22', ':', ' ']

private theorem text_result (n : Number) : (Answer.result n).text = resultHead ++ Json.writeNumber n ++ ['\x7d'] := by
  rfl

private theorem isNumberChar_or_mem_of_mem_text {a : Answer} (ha : a.IsProper) {c : Char} (hc : c ∈ a.text) :
    Json.isNumberChar c = true ∨ c ∈ resultHead ++ ['\x7d'] ++ Answer.generic.text := by
  cases a with
  | result n =>
    rw [text_result, List.mem_append, List.mem_append] at hc
    rcases hc with (hc | hc) | hc
    · exact .inr (by simp [hc])
    · exact .inl (Json.isNumberChar_of_mem_writeNumber ha hc)
    · exact .inr (by simp [List.mem_singleton.1 hc])
  | error t =>
    cases ha
    exact .inr (List.mem_append_right _ hc)

private theorem isPlainAscii_of_mem_text {a : Answer} (ha : a.IsProper) {c : Char} (hc : c ∈ a.text) :
    isPlainAscii c = true := by
  rcases isNumberChar_or_mem_of_mem_text ha hc with hc | hc
  · exact isPlainAscii_of_isNumberChar hc
  · have hall : (resultHead ++ ['\x7d'] ++ Answer.generic.text).all isPlainAscii = true := by decide
    exact List.all_eq_true.1 hall c hc

theorem toNat_lt_of_mem_text {a : Answer} (ha : a.IsProper) {c : Char} (hc : c ∈ a.text) : c.toNat < 0x80 := by
  have hplain := isPlainAscii_of_mem_text ha hc
  simp only [isPlainAscii, Bool.and_eq_true, decide_eq_true_eq] at hplain
  omega

theorem isLineBreak_of_mem_text {a : Answer} (ha : a.IsProper) {c : Char} (hc : c ∈ a.text) : isLineBreak c = false := by
  have hplain := isPlainAscii_of_mem_text ha hc
  simp only [isPlainAscii, Bool.and_eq_true, decide_eq_true_eq] at hplain
  rw [Bool.eq_false_iff]
  intro hb
  simp only [isLineBreak, Bool.or_eq_true, Bool.and_eq_true, decide_eq_true_eq, beq_iff_eq] at hb
  omega

theorem notMem_text {a : Answer} (ha : a.IsProper) : 'N' ∉ a.text ∧ 'y' ∉ a.text := by
  constructor <;> intro hc
  · rcases isNumberChar_or_mem_of_mem_text ha hc with hc | hc <;> revert hc <;> decide
  · rcases isNumberChar_or_mem_of_mem_text ha hc with hc | hc <;> revert hc <;> decide

end Answer
end Service
end Reckoner
