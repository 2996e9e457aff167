import Mathlib
import Reckoner.Proofs.Service.Calculation
import Reckoner.Proofs.Service.Messages
import Reckoner.Service.Worker

/-!
# One answer, and nothing else

What a worker sends is decided by the value that its line asks for. All lines that ask for none have one and the same
answer, whatever is wrong with them, and a worker reports the end of its work by the same distinction.
-/
namespace Reckoner.Service

open Outcome Text

/-! ### The answer to a line -/

def answerTo (line : String) : Answer :=
  match (calculate (.text line)).value with
  | .ok v => .result v
  | .error _ => .generic

private theorem answer_of_rejected {payload : Datum} {r : Rejection}
    (h : (calculate payload).value = .error (.rejected r)) : r.answer = .generic := by
  cases hr : requestOf payload with
  | error ps =>
    rw [value_calculate_of_problems hr] at h
    cases h
    rfl
  | ok q =>
    rcases value_calculate_cases hr with ⟨v, -, hv⟩ | ⟨e, -, -, hv⟩ | ⟨l, -, -, -, hv⟩ <;> rw [hv] at h <;> cases h
    rfl

theorem value_answer (w : Worker) : w.answer.value = answerTo w.request := by
  rw [Worker.answer, Log.Logged.value_bind, answerTo]
  cases h : (calculate (.text w.request)).value with
  | ok v => rfl
  | error f =>
    cases f with
    | rejected r => exact answer_of_rejected h
    | unexpected f => rfl

/-- A line asks for a value: it is the document of a request, and the value is that of the expression in it. -/
def AsksFor (line : String) (v : Number) : Prop :=
  ∃ r, Request.ofPayload (.text line) = .ok r ∧ evaluate r.expression = .ok v

theorem answerTo_cases (line : String) :
    (∃ v, AsksFor line v ∧ answerTo line = .result v) ∨ ((¬∃ v, AsksFor line v) ∧ answerTo line = .generic) := by
  rw [answerTo]
  cases hr : requestOf (.text line) with
  | error ps =>
    refine .inr ⟨?_, by rw [value_calculate_of_problems hr]⟩
    rintro ⟨v, r, hr', -⟩
    cases hr.symm.trans hr'
  | ok r =>
    -- A line has one request, so what is known of that one is known of the line.
    have hnone {f : Failure} (hf : evaluate r.expression = .error f) : ¬∃ v, AsksFor line v := by
      rintro ⟨v, r', hr', hv⟩
      cases hr.symm.trans hr'
      rw [hf] at hv
      cases hv
    rcases value_calculate_cases hr with ⟨v, hv, hc⟩ | ⟨e, he, -, hc⟩ | ⟨l, -, -, he, hc⟩
    · exact .inl ⟨v, ⟨r, hr, hv⟩, by rw [hc]⟩
    · exact .inr ⟨hnone he, by rw [hc]⟩
    · exact .inr ⟨hnone he, by rw [hc]⟩

theorem AsksFor.unique {line : String} {v w : Number} (hv : AsksFor line v) (hw : AsksFor line w) : v = w := by
  obtain ⟨r, hr, hv⟩ := hv
  obtain ⟨r', hr', hw⟩ := hw
  cases hr.symm.trans hr'
  exact Except.ok.inj (hv.symm.trans hw)

theorem AsksFor.bounded {line : String} {v : Number} (h : AsksFor line v) : v.Bounded := by
  obtain ⟨r, -, hv⟩ := h
  exact bounded_of_evaluate hv

theorem answerTo_eq_result_iff {line : String} {v : Number} : answerTo line = .result v ↔ AsksFor line v := by
  rcases answerTo_cases line with ⟨w, hw, heq⟩ | ⟨hnone, heq⟩
  · rw [heq, Answer.result.injEq]
    exact ⟨fun h => h ▸ hw, fun h => hw.unique h⟩
  · rw [heq]
    exact ⟨fun h => (by cases h), fun h => absurd ⟨v, h⟩ hnone⟩

theorem answerTo_eq_generic_iff {line : String} : answerTo line = .generic ↔ ¬∃ v, AsksFor line v := by
  rcases answerTo_cases line with ⟨w, hw, heq⟩ | ⟨hnone, heq⟩
  · rw [heq]
    exact ⟨fun h => (by cases h), fun h => absurd ⟨w, hw⟩ h⟩
  · exact ⟨fun _ => hnone, fun _ => heq⟩

theorem isProper_answerTo (line : String) : (answerTo line).IsProper := by
  rcases answerTo_cases line with ⟨v, hv, heq⟩ | ⟨-, heq⟩
  · rw [heq]
    exact hv.bounded
  · rw [heq]
    exact rfl

theorem Answer.toDatum_eq_result_iff {a : Answer} {v : Number} :
    a.toDatum = .dict [("result", .number v)] ↔ a = .result v := by
  cases a <;> simp [toDatum, document]

theorem Answer.toDatum_eq_error_iff {a : Answer} {t : String} : a.toDatum = .dict [("error", .text t)] ↔ a = .error t := by
  cases a <;> simp [toDatum, document]

/-! ### Workers -/

theorem Worker.ofFields_eq_ok {r : String} (hr : ¬isBlankText r.toList = true) {n : Int} (hn : 1 ≤ n) :
    ∃ w, Worker.ofFields r (.ofInt n) = .ok w ∧ w.request = r ∧ w.lineNumber = n := by
  refine ⟨⟨r, n, hr, hn⟩, ?_, rfl, rfl⟩
  simp [Worker.ofFields, hr, Value.ofInt, Field.asInt, hn, Field.Checked.within, Field.Checked.both, Except.mapError,
    Except.map]

theorem Worker.eq_of_ofFields {r : String} {n : Int} {w : Worker} (h : Worker.ofFields r (.ofInt n) = .ok w) :
    w.request = r ∧ w.lineNumber = n := by
  have hline : Field.asInt (.ofInt n) = .ok n := rfl
  simp only [Worker.ofFields, hline, ok_bind] at h
  by_cases hr : isBlankText r.toList = true
  · by_cases hn : 1 ≤ n <;> simp [hr, hn, Field.Checked.within, Field.Checked.both, Field.Checked.fail, Except.map,
      Except.mapError] at h
  · by_cases hn : 1 ≤ n
    · simp only [hr, hn, Field.Checked.within, Field.Checked.both, Except.map, Except.mapError] at h
      cases h
      exact ⟨rfl, rfl⟩
    · simp [hr, hn, Field.Checked.within, Field.Checked.both, Field.Checked.fail, Except.map, Except.mapError] at h

/-! ### What a worker reports -/

/-- The records of a log that tell how things go, without those of what goes wrong. -/
def infoRecords (log : List Log.Record) : List Log.Record :=
  log.filter fun r => r.level = .info

theorem infoRecords_append (xs ys : List Log.Record) : infoRecords (xs ++ ys) = infoRecords xs ++ infoRecords ys :=
  List.filter_append ..

theorem infoRecords_eq_nil {log : List Log.Record} (h : ∀ r ∈ log, r.level ≠ .info) : infoRecords log = [] := by
  rw [infoRecords, List.filter_eq_nil_iff]
  intro r hr
  simpa using h r hr

theorem infoRecords_evaluateLogged (expression : String) : infoRecords (evaluateLogged expression).log = [] := by
  apply infoRecords_eq_nil
  intro r hr
  obtain ⟨s, -, rfl⟩ := List.mem_map.1 hr
  exact nofun

theorem infoRecords_evaluateRequest (r : Request) : infoRecords (evaluateRequest r).log = [] := by
  rw [evaluateRequest, Log.Logged.log_bind, infoRecords_append, infoRecords_evaluateLogged, List.nil_append]
  split <;> rfl

theorem infoRecords_calculate (payload : Datum) : infoRecords (calculate payload).log = [] := by
  rw [calculate]
  split
  · exact infoRecords_evaluateRequest _
  · rfl

theorem infoRecords_answer (w : Worker) : infoRecords w.answer.log = [] := by
  rw [Worker.answer, Log.Logged.log_bind, infoRecords_append, infoRecords_calculate, List.nil_append]
  split <;> rfl

namespace Worker

variable (w : Worker) (pipe : Pipe Answer)

def started : Log.Record :=
  ⟨.info, "👷🏁 Worker started on line " ++ toString w.lineNumber ++ ": " ++ w.request⟩

def finished (v : Number) : Log.Record :=
  ⟨.info, "👷✅ Worker finished on line " ++ toString w.lineNumber ++ ": " ++ toString v⟩

def rejected : Log.Record :=
  ⟨.info, "👷⚠️ Worker rejected line " ++ toString w.lineNumber⟩

def closing : Answer → Log.Record
  | .result v => w.finished v
  | .error _ => w.rejected

theorem value_message : w.message.value = ⟨w.lineNumber, answerTo w.request⟩ := by
  rw [message, Log.Logged.value_bind, value_answer, Log.Logged.value_pure]

theorem infoRecords_message : infoRecords w.message.log = [] := by
  rw [message, Log.Logged.log_bind, Log.Logged.log_pure, List.append_nil, infoRecords_answer]

theorem value_run : (w.run pipe).value = ⟨pipe.messages ++ [⟨w.lineNumber, answerTo w.request⟩], true⟩ := by
  simp only [run, Log.Logged.value_bind, value_message]
  cases answerTo w.request <;> rfl

theorem log_run : (w.run pipe).log = [w.started] ++ w.message.log ++ [w.closing (answerTo w.request)] := by
  simp only [run, Log.Logged.log_bind, value_message]
  cases answerTo w.request <;> simp [started, closing, finished, rejected]

theorem infoRecords_run : infoRecords (w.run pipe).log = [w.started, w.closing (answerTo w.request)] := by
  have hstarted : infoRecords [w.started] = [w.started] := rfl
  have hclosing : infoRecords [w.closing (answerTo w.request)] = [w.closing (answerTo w.request)] := by
    cases answerTo w.request <;> rfl
  rw [log_run, infoRecords_append, infoRecords_append, hstarted, infoRecords_message, hclosing, List.append_nil,
    List.singleton_append]

/-- There is a worker for each line with more than blanks and each number from one on. It sends one message, with that
number, and closes its pipe. The answer is the value that the line asks for, which can be written, and the worker then
reports that it has finished with it. To a line that asks for none the answer is the one error, and it is reported as
rejected; so two such lines are answered alike, whatever is wrong with either. -/
theorem run_answers {request : String} (hrequest : ¬isBlankText request.toList = true) {n : Int} (hn : 1 ≤ n) :
    ∃ w a, Worker.ofFields request (.ofInt n) = .ok w ∧
      (∀ pipe, (w.run pipe).value = ⟨pipe.messages ++ [⟨n, a⟩], true⟩) ∧
      (∀ v, a.toDatum = .dict [("result", .number v)] ↔ AsksFor request v) ∧
      (a.toDatum = .dict [("error", .text "Invalid mathematical expression")] ↔ ¬∃ v, AsksFor request v) ∧
      (∀ v, AsksFor request v → v.isWritable = true ∧
        ∀ pipe, infoRecords (w.run pipe).log = [w.started, w.finished v]) ∧
      ((¬∃ v, AsksFor request v) → (∀ pipe, infoRecords (w.run pipe).log = [w.started, w.rejected]) ∧
        ∀ w' : Worker, (¬∃ v, AsksFor w'.request v) → ∀ pipe,
          (w'.run pipe).value.messages.map (·.response) = (w.run pipe).value.messages.map (·.response)) := by
  obtain ⟨w, hw, rfl, rfl⟩ := Worker.ofFields_eq_ok hrequest hn
  refine ⟨w, answerTo w.request, hw, fun pipe => w.value_run pipe, ?_, ?_, ?_, ?_⟩
  · intro v
    rw [Answer.toDatum_eq_result_iff, answerTo_eq_result_iff]
  · rw [Answer.toDatum_eq_error_iff, ← answerTo_eq_generic_iff]
    rfl
  · intro v hv
    refine ⟨hv.bounded.isWritable, fun pipe => ?_⟩
    rw [infoRecords_run, answerTo_eq_result_iff.2 hv]
    rfl
  · intro hnone
    have hgeneric := answerTo_eq_generic_iff.2 hnone
    refine ⟨fun pipe => ?_, fun w' hnone' pipe => ?_⟩
    · rw [infoRecords_run, hgeneric]
      rfl
    · rw [value_run, value_run, hgeneric, answerTo_eq_generic_iff.2 hnone', List.map_append, List.map_append]
      rfl

/-- A sum on the first line has its value, and a word on the second the one error. -/
theorem run_answers_two :
    ¬isBlankText (String.ofList (Request.mk "1+2").text).toList = true ∧ ¬isBlankText "oops".toList = true ∧
      (∃ w, Worker.ofFields (String.ofList (Request.mk "1+2").text) (.ofInt 1) = .ok w ∧
        (w.run {}).value = ⟨[⟨1, .result (.int 3)⟩], true⟩ ∧
        infoRecords (w.run {}).log = [w.started, w.finished (.int 3)]) ∧
      ∃ w, Worker.ofFields "oops" (.ofInt 2) = .ok w ∧ (w.run {}).value = ⟨[⟨2, .generic⟩], true⟩ ∧
        infoRecords (w.run {}).log = [w.started, w.rejected] := by
  have hsum : AsksFor (String.ofList (Request.mk "1+2").text) (.int 3) :=
    ⟨⟨"1+2"⟩, Request.ofPayload_text ⟨"1+2"⟩, by decide +kernel⟩
  have hword : ¬∃ v, AsksFor "oops" v := by
    rintro ⟨v, r, hr, -⟩
    have hproblem : Request.ofPayload (.text "oops") = .error [⟨[], .jsonInvalid⟩] := by decide +kernel
    cases hproblem.symm.trans hr
  have hfilled : ¬isBlankText (String.ofList (Request.mk "1+2").text).toList = true := by decide
  refine ⟨hfilled, by decide, ?_, ?_⟩
  · obtain ⟨w, a, hw, hrun, hresult, -, hlog, -⟩ := run_answers hfilled (le_refl 1)
    refine ⟨w, hw, ?_, (hlog _ hsum).2 {}⟩
    rw [hrun, Answer.toDatum_eq_result_iff.1 ((hresult (.int 3)).2 hsum)]
    rfl
  · obtain ⟨w, a, hw, hrun, -, herror, -, hlog⟩ := run_answers (by decide : ¬isBlankText "oops".toList = true)
      (by decide : (1 : Int) ≤ 2)
    refine ⟨w, hw, ?_, (hlog hword).1 {}⟩
    rw [hrun, Answer.toDatum_eq_error_iff.1 (herror.2 hword)]
    rfl

end Worker
end Reckoner.Service
