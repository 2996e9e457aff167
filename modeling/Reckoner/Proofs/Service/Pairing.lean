import Mathlib
import Reckoner.Proofs.Service.ResultsFile

/-!
# Replies of another length

A results file pairs the expressions of a file with the documents of a reply as far as both go. So a run that ends normally
has a record for each expression exactly if the reply has as many documents. A reply that breaks off between two lines leaves
the expressions behind them without a record, and nothing tells.
-/
namespace Reckoner.Service.ResultsFile

open Outcome Text

/-! ### Records -/

/-- A document that can be written to a file: none but a text with half a surrogate pair cannot. In any other value such a
text stands between quotes, where the half is escaped. -/
def IsEncodable (v : Document) : Prop :=
  ∀ ps, v = .text ps → ∀ unit, .half unit ∉ ps

/-- The documents that a record can be made from: those that hold a result that can be written, or no result and an error
that can be. -/
inductive IsResponse : Document → Prop where
  | result {entries : List (List Piece × Document)} {v : Document} (held : Keyed.get? (pieces "result") entries = some v)
      (encodable : IsEncodable v) : IsResponse (.dict entries)
  | error {entries : List (List Piece × Document)} {v : Document} (missing : Keyed.get? (pieces "result") entries = none)
      (held : Keyed.get? (pieces "error") entries = some v) (encodable : IsEncodable v) : IsResponse (.dict entries)

/-- The line for an expression and a document that a record can be made from. -/
inductive IsRecord (e : String) : Document → String → Prop where
  | result {entries : List (List Piece × Document)} {v : Document} {t : String}
      (held : Keyed.get? (pieces "result") entries = some v) (text : v.display = pieces t) :
      IsRecord e (.dict entries) (e ++ " = " ++ t ++ "\n")
  | error {entries : List (List Piece × Document)} {v : Document} {t : String}
      (missing : Keyed.get? (pieces "result") entries = none) (held : Keyed.get? (pieces "error") entries = some v)
      (text : v.display = pieces t) : IsRecord e (.dict entries) (e ++ " -> ERROR: " ++ t ++ "\n")

theorem isEncodable_iff {v : Document} : IsEncodable v ↔ ∃ t, v.display = pieces t := by
  cases v with
  | text ps =>
    have hhalf : (∃ t, ps = pieces t) ↔ ¬∃ unit, .half unit ∈ ps := by
      simp only [← ofPieces?_eq_some_iff, ← ofPieces?_eq_none_iff, ← Option.ne_none_iff_exists', ne_eq]
    simpa [IsEncodable, Value.display] using hhalf.symm
  | _ => exact ⟨fun _ => ⟨_, (pieces_ofList _).symm⟩, nofun⟩

theorem encode_eq_ok_iff {lead l : String} {ps : List Piece} :
    encode (pieces lead ++ ps ++ pieces "\n") = .ok l ↔ ∃ t, ps = pieces t ∧ l = lead ++ t ++ "\n" := by
  constructor
  · intro h
    cases hps : ofPieces? ps with
    | none =>
      obtain ⟨unit, hunit⟩ := ofPieces?_eq_none_iff.1 hps
      have hnone : ofPieces? (pieces lead ++ ps ++ pieces "\n") = none := ofPieces?_eq_none_iff.2 ⟨unit, by simp [hunit]⟩
      rw [encode, hnone] at h
      cases h
    | some t =>
      obtain rfl := ofPieces?_eq_some_iff.1 hps
      rw [← pieces_append, ← pieces_append, encode_pieces] at h
      exact ⟨t, rfl, (Except.ok.inj h).symm⟩
  · rintro ⟨t, rfl, rfl⟩
    rw [← pieces_append, ← pieces_append, encode_pieces]

theorem line_eq_ok_iff {e l : String} {v : Document} : line e v = .ok l ↔ IsRecord e v l := by
  constructor
  · intro h
    cases v with
    | dict entries =>
      rw [line] at h
      split at h
      · next v hresult =>
        obtain ⟨t, ht, rfl⟩ := encode_eq_ok_iff.1 h
        exact .result hresult ht
      · next hresult =>
        split at h
        · next v herror =>
          obtain ⟨t, ht, rfl⟩ := encode_eq_ok_iff.1 h
          exact .error hresult herror ht
        · cases h
    | _ => cases h
  · intro h
    cases h with
    | result held text =>
      rw [line, held]
      exact encode_eq_ok_iff.2 ⟨_, text, rfl⟩
    | error missing held text =>
      rw [line, missing, held]
      exact encode_eq_ok_iff.2 ⟨_, text, rfl⟩

theorem isResponse_iff {v : Document} (e : String) : IsResponse v ↔ ∃ l, IsRecord e v l := by
  constructor
  · intro h
    cases h with
    | result held encodable =>
      obtain ⟨t, ht⟩ := isEncodable_iff.1 encodable
      exact ⟨_, .result held ht⟩
    | error missing held encodable =>
      obtain ⟨t, ht⟩ := isEncodable_iff.1 encodable
      exact ⟨_, .error missing held ht⟩
  · rintro ⟨l, h⟩
    cases h with
    | result held text => exact .result held (isEncodable_iff.2 ⟨_, text⟩)
    | error missing held text => exact .error missing held (isEncodable_iff.2 ⟨_, text⟩)

def AreRecords (pairs : List (String × Document)) (records : List String) : Prop :=
  List.Forall₂ (fun p l => IsRecord p.1 p.2 l) pairs records

theorem lines_of_areRecords {pairs : List (String × Document)} {records : List String} (h : AreRecords pairs records) :
    lines pairs = (String.join records, none) := by
  induction h with
  | nil => rfl
  | cons hline _ ih => rw [lines, line_eq_ok_iff.2 hline, ih, String.join_cons]

theorem exists_areRecords {pairs : List (String × Document)} (h : ∀ p ∈ pairs, IsResponse p.2) :
    ∃ records, AreRecords pairs records := by
  obtain ⟨records, hrecords⟩ := exists_mapM_eq_ok (f := fun p : String × Document => line p.1 p.2) fun p hp => by
    obtain ⟨l, hl⟩ := (isResponse_iff p.1).1 (h p hp)
    exact ⟨l, line_eq_ok_iff.2 hl⟩
  exact ⟨records, (mapM_eq_ok_iff.1 hrecords).imp fun _ _ => line_eq_ok_iff.1⟩

theorem isResponse_of_lines {pairs : List (String × Document)} (h : (lines pairs).2 = none) : ∀ p ∈ pairs, IsResponse p.2 := by
  induction pairs with
  | nil => exact List.forall_mem_nil _
  | cons p pairs ih =>
    rw [lines] at h
    cases hline : line p.1 p.2 with
    | error f =>
      rw [hline] at h
      cases h
    | ok l =>
      rw [hline] at h
      exact List.forall_mem_cons.2 ⟨(isResponse_iff p.1).2 ⟨l, line_eq_ok_iff.1 hline⟩, ih h⟩

theorem forall_mem_zip_iff (es : List String) (responses : List Document) :
    (∀ p ∈ es.zip responses, IsResponse p.2) ↔ ∀ v ∈ responses.take es.length, IsResponse v := by
  have hsnd : (es.zip responses).map Prod.snd = responses.take es.length := by
    rw [List.zip_eq_zip_take_min, List.map_snd_zip (by simp), ← List.take_eq_take_min]
  rw [← hsnd, List.forall_mem_map]

/-! ### Runs -/

/-- A run that drops no expression: it fails, or the reply has a document for each expression and nothing else, and the file
has the record of each in order. -/
def DropsNone (es : List String) (responses : List Document) (run : Run) : Prop :=
  run.fault = none → responses.length = es.length ∧
    ∃ records, AreRecords (es.zip responses) records ∧ records.length = es.length ∧
      run.written = some (String.join records)

section

variable {room : StackRoom} {reply : List UInt8 → List UInt8} {file : List UInt8} {es : List String}

theorem send_of_readReply_error {f : ReplyFault} (hes : expressions file = some es)
    (h : Client.readReply room (reply (Client.payload es)) = .error f) :
    send room reply file = ⟨some (Client.payload es), none, some (.reply f)⟩ := by
  simp only [send, hes, h]

variable {responses : List Document} (hes : expressions file = some es)
  (h : Client.readReply room (reply (Client.payload es)) = .ok responses)

include hes h

theorem send_of_readReply : send room reply file = ⟨some (Client.payload es), some (lines (es.zip responses)).1,
    (lines (es.zip responses)).2.map .response⟩ := by
  simp only [send, hes, h]

theorem fault_send_eq_none_iff :
    (send room reply file).fault = none ↔ ∀ v ∈ responses.take es.length, IsResponse v := by
  rw [send_of_readReply hes h, Option.map_eq_none_iff, ← forall_mem_zip_iff]
  constructor
  · exact isResponse_of_lines
  · intro hall
    obtain ⟨records, hrecords⟩ := exists_areRecords hall
    rw [lines_of_areRecords hrecords]

theorem exists_records_of_send (hnone : (send room reply file).fault = none) :
    ∃ records, AreRecords (es.zip responses) records ∧ records.length = min es.length responses.length ∧
      (send room reply file).written = some (String.join records) := by
  have hall := (forall_mem_zip_iff es responses).2 ((fault_send_eq_none_iff hes h).1 hnone)
  obtain ⟨records, hrecords⟩ := exists_areRecords hall
  refine ⟨records, hrecords, ?_, ?_⟩
  · rw [← hrecords.length_eq, List.length_zip]
  · rw [send_of_readReply hes h, lines_of_areRecords hrecords]

theorem dropsNone_iff_length_eq_or : DropsNone es responses (send room reply file) ↔
    responses.length = es.length ∨ ∃ v ∈ responses.take es.length, ¬IsResponse v := by
  constructor
  · intro hdrops
    by_cases hall : ∀ v ∈ responses.take es.length, IsResponse v
    · exact .inl (hdrops ((fault_send_eq_none_iff hes h).2 hall)).1
    · right
      push Not at hall
      exact hall
  · rintro (hlength | ⟨v, hv, hnot⟩) hnone
    · obtain ⟨records, hrecords, hcount, hwritten⟩ := exists_records_of_send hes h hnone
      refine ⟨hlength, records, hrecords, ?_, hwritten⟩
      rw [hcount, hlength, Nat.min_self]
    · exact absurd ((fault_send_eq_none_iff hes h).1 hnone v hv) hnot

end

theorem isResponse_toDocument (a : Answer) : IsResponse a.toDocument := by
  cases a with
  | result n => exact .result (v := .number n) rfl nofun
  | error t =>
    refine .error (v := .text (pieces t)) rfl rfl ?_
    rintro ps ⟨⟩
    simp [pieces]

/-- What becomes of a file of text under any reply. A reply that cannot be read, such as one that nests too deep, is a failure,
and no results file is opened. A reply that can be read is a failure if one of the documents with an expression is no response,
such as one with a text that cannot be written. Otherwise the run ends normally with the records of the expressions that have a
document, in order, however many these are. So no expression is dropped exactly if the reply has a document for each expression
or one of those documents is no response. A reply of answers is never a failure, whatever its length. -/
theorem dropsNone_iff (room : StackRoom) (reply : List UInt8 → List UInt8) {file : List UInt8} {cs : List Char}
    (h : ofUtf8? file = some cs) :
    let es := ((splitLines cs).filter fun l => !isBlankText l).map fun l => String.ofList (trimBlanks l)
    let run := send room reply file
    (∀ f, Client.readReply room (reply (Client.payload es)) = .error f → run.written = none ∧ run.fault = some (.reply f)) ∧
      (∀ responses, Client.readReply room (reply (Client.payload es)) = .ok responses →
        (run.fault = none ↔ ∀ v ∈ responses.take es.length, IsResponse v) ∧
        (run.fault = none → ∃ records, AreRecords (es.zip responses) records ∧
          records.length = min es.length responses.length ∧ run.written = some (String.join records)) ∧
        (DropsNone es responses run ↔ responses.length = es.length ∨ ∃ v ∈ responses.take es.length, ¬IsResponse v)) ∧
      ∀ as : List Answer, (∀ a ∈ as, a.IsProper) → reply (Client.payload es) = toUtf8 (Server.replyText as) →
        run.fault = none ∧ (DropsNone es (as.map Answer.toDocument) run ↔ as.length = es.length) := by
  intro es run
  have hes : expressions file = some es := expressions_eq h
  refine ⟨fun f hf => ?_, fun responses hread => ?_, fun as has hreply => ?_⟩
  · simp only [run, send_of_readReply_error hes hf, and_self]
  · exact ⟨fault_send_eq_none_iff hes hread, exists_records_of_send hes hread, dropsNone_iff_length_eq_or hes hread⟩
  · have hread : Client.readReply room (reply (Client.payload es)) = .ok (as.map Answer.toDocument) := by
      rw [hreply, Client.readReply_replyText room has]
    have hall : ∀ v ∈ (as.map Answer.toDocument).take es.length, IsResponse v := by
      intro v hv
      obtain ⟨a, -, rfl⟩ := List.mem_map.1 (List.mem_of_mem_take hv)
      exact isResponse_toDocument a
    refine ⟨(fault_send_eq_none_iff hes hread).2 hall, ?_⟩
    rw [dropsNone_iff_length_eq_or hes hread, List.length_map, or_iff_left]
    rintro ⟨v, hv, hnot⟩
    exact hnot (hall v hv)

/-- A reply that breaks off behind the first of two answers. -/
theorem dropsNone_iff_two :
    let file := toUtf8 "1 + 2\n\n4\n".toList
    let reply (_ : List UInt8) := toUtf8 (Server.replyText [.result (.int 3)])
    ofUtf8? file = some "1 + 2\n\n4\n".toList ∧ (send ⟨988, by decide⟩ reply file).fault = none ∧
      ¬DropsNone ["1 + 2", "4"] [(Answer.result (.int 3)).toDocument] (send ⟨988, by decide⟩ reply file) := by
  intro file reply
  have hfile : ofUtf8? file = some "1 + 2\n\n4\n".toList := ofUtf8?_toUtf8 _
  have hes : (((splitLines "1 + 2\n\n4\n".toList).filter fun l => !isBlankText l).map fun l =>
      String.ofList (trimBlanks l)) = ["1 + 2", "4"] := by decide +kernel
  have hproper : ∀ a ∈ [Answer.result (.int 3)], a.IsProper := by
    intro a ha
    rw [List.mem_singleton.1 ha]
    exact Number.bounded_of_bitLength_le (by decide)
  obtain ⟨-, -, hanswers⟩ := dropsNone_iff ⟨988, by decide⟩ reply hfile
  obtain ⟨hnone, hiff⟩ := hanswers [.result (.int 3)] hproper rfl
  rw [hes] at hiff
  exact ⟨hfile, hnone, fun hdrops => absurd (hiff.1 hdrops) (by decide)⟩

/-- A server that closes the connection without an answer leaves an empty results file. -/
theorem send_empty_reply :
    let file := toUtf8 "1+2\n".toList
    expressions file = some ["1+2"] ∧
      send ⟨988, by decide⟩ (fun _ => []) file = ⟨some (Client.payload ["1+2"]), some "", none⟩ := by
  decide +kernel

/-- Half a pair in the second of two error texts ends the run when that record is written. -/
example : send ⟨988, by decide⟩ (fun _ => toUtf8 "\x7b\"result\": 1\x7d\n\x7b\"error\": \"\\ud800\"\x7d\n".toList)
    (toUtf8 "1\n2\n".toList) =
      ⟨some (Client.payload ["1", "2"]), some "1 = 1\n", some (.response (.unencodable 12 [0xD800]))⟩ := by
  decide +kernel

/-- A document that nests deeper than there is room for is no response. -/
example : send ⟨2, by decide⟩ (fun _ => toUtf8 "[[[]]]".toList) (toUtf8 "1\n".toList) =
    ⟨some (Client.payload ["1"]), none, some (.reply (.document .tooDeep))⟩ := by
  decide +kernel

end Reckoner.Service.ResultsFile
