import Mathlib
import Reckoner.Proofs.Expr.Failures
import Reckoner.Service.Calculation

/-!
# How calculations end

A calculation ends with a number or a rejection, which carries the category of the evaluation error. Only a text that
stops at a padded literal gets past that.
-/
namespace Reckoner.Service

open Outcome

theorem value_calculate_of_requestOf {payload : Datum} {r : Request} (h : requestOf payload = .ok r) :
    (calculate payload).value = (evaluateRequest r).value := by
  rw [calculate, h]

theorem value_calculate_of_problems {payload : Datum} {ps : List Field.Problem} (h : requestOf payload = .error ps) :
    (calculate payload).value = .error (.rejected ⟨.invalidRequest, genericError⟩) := by
  rw [calculate, h]
  rfl

theorem value_evaluateLogged (expression : String) : (evaluateLogged expression).value = evaluate expression := rfl

theorem value_evaluateRequest_ok {r : Request} {v : Number} (h : evaluate r.expression = .ok v) :
    (evaluateRequest r).value = .ok v := by
  rw [evaluateRequest, Log.Logged.value_bind, value_evaluateLogged, h]
  rfl

theorem value_evaluateRequest_evaluation {r : Request} {e : EvalError}
    (h : evaluate r.expression = .error (.evaluation e)) :
    (evaluateRequest r).value = .error (.rejected ⟨.evaluation e.kind, genericError⟩) := by
  rw [evaluateRequest, Log.Logged.value_bind, value_evaluateLogged, h]
  rfl

theorem value_evaluateRequest_digits {r : Request} {limit : DigitLimit}
    (h : evaluate r.expression = .error (.digits limit)) :
    (evaluateRequest r).value = .error (.unexpected (.digits limit)) := by
  rw [evaluateRequest, Log.Logged.value_bind, value_evaluateLogged, h]
  rfl

theorem value_calculate_cases {payload : Datum} {r : Request} (hr : requestOf payload = .ok r) :
    (∃ v, evaluate r.expression = .ok v ∧ (calculate payload).value = .ok v) ∨
      (∃ e, evaluate r.expression = .error (.evaluation e) ∧ e.kind ≠ .evaluation ∧
        (calculate payload).value = .error (.rejected ⟨.evaluation e.kind, genericError⟩)) ∨
      ∃ l, IsRefused (Text.dropBlanks r.expression.toList) l ∧ Literal.IsPadded l ∧
        evaluate r.expression = .error (.digits (.reading l.length)) ∧
        (calculate payload).value = .error (.unexpected (.digits (.reading l.length))) := by
  rw [value_calculate_of_requestOf hr]
  rcases evaluate_cases r.expression with ⟨-, ⟨v, hv⟩ | ⟨e, he⟩⟩ | ⟨l, hl, hp, he⟩
  · exact .inl ⟨v, hv, value_evaluateRequest_ok hv⟩
  · exact .inr (.inl ⟨e, he, e.kind_ne_evaluation, value_evaluateRequest_evaluation he⟩)
  · exact .inr (.inr ⟨l, hl, hp, he, value_evaluateRequest_digits he⟩)

private theorem evaluates_iff (s : String) :
    ((∃ v, evaluate s = .ok v) ∨ ∃ e, evaluate s = .error (.evaluation e) ∧ e.kind ≠ .evaluation) ↔
      ¬StopsAtPadding (Text.dropBlanks s.toList) := by
  constructor
  · rintro h ⟨l, hl, hp⟩
    have he := evaluate_of_isPadded hl hp
    rcases h with ⟨v, hv⟩ | ⟨e, hv, -⟩ <;> rw [he] at hv <;> cases hv
  · intro h
    rcases evaluate_cases s with ⟨-, hv | ⟨e, he⟩⟩ | ⟨l, hl, hp, -⟩
    · exact .inl hv
    · exact .inr ⟨e, he, e.kind_ne_evaluation⟩
    · exact absurd ⟨l, hl, hp⟩ h

private theorem unexpected_iff (payload : Datum) :
    (∃ f, (calculate payload).value = .error (.unexpected f)) ↔
      ∃ r, requestOf payload = .ok r ∧ StopsAtPadding (Text.dropBlanks r.expression.toList) := by
  constructor
  · rintro ⟨f, hf⟩
    cases hr : requestOf payload with
    | error ps =>
      rw [value_calculate_of_problems hr] at hf
      cases hf
    | ok r =>
      refine ⟨r, rfl, ?_⟩
      rcases value_calculate_cases hr with ⟨v, -, hv⟩ | ⟨e, -, -, hv⟩ | ⟨l, hl, hp, -, -⟩
      · rw [hv] at hf
        cases hf
      · rw [hv] at hf
        cases hf
      · exact ⟨l, hl, hp⟩
  · rintro ⟨r, hr, l, hl, hp⟩
    rw [value_calculate_of_requestOf hr]
    exact ⟨_, value_evaluateRequest_digits (evaluate_of_isPadded hl hp)⟩

/-- Evaluation gives a value or an error of the expression, and a calculation a number or a rejection of the matching
category, exactly where no padded literal is met. Where one is met, its length is what both fail with. -/
theorem calculate_eq_unexpected_iff (s : String) (payload : Datum) :
    (((∃ v, evaluate s = .ok v) ∨ ∃ e, evaluate s = .error (.evaluation e) ∧ e.kind ≠ .evaluation) ↔
        ¬StopsAtPadding (Text.dropBlanks s.toList)) ∧
      ((∃ ps, requestOf payload = .error ps ∧
          (calculate payload).value = .error (.rejected ⟨.invalidRequest, genericError⟩)) ∨
        ∃ r, requestOf payload = .ok r ∧
          ((∃ v, evaluate r.expression = .ok v ∧ (calculate payload).value = .ok v) ∨
            (∃ e, evaluate r.expression = .error (.evaluation e) ∧ e.kind ≠ .evaluation ∧
              (calculate payload).value = .error (.rejected ⟨.evaluation e.kind, genericError⟩)) ∨
            ∃ l, IsRefused (Text.dropBlanks r.expression.toList) l ∧ Literal.IsPadded l ∧
              evaluate r.expression = .error (.digits (.reading l.length)) ∧
              (calculate payload).value = .error (.unexpected (.digits (.reading l.length))))) ∧
      ((∃ f, (calculate payload).value = .error (.unexpected f)) ↔
        ∃ r, requestOf payload = .ok r ∧ StopsAtPadding (Text.dropBlanks r.expression.toList)) := by
  refine ⟨evaluates_iff s, ?_, unexpected_iff payload⟩
  cases hr : requestOf payload with
  | error ps => exact .inl ⟨ps, rfl, value_calculate_of_problems hr⟩
  | ok r => exact .inr ⟨r, rfl, value_calculate_cases hr⟩

/-- As many zeros as are too many to be converted are no number and no error of the expression. -/
theorem evaluate_zeros_escapes :
    ¬((∃ v, evaluate (String.ofList (List.replicate 4301 '0')) = .ok v) ∨
      ∃ e, evaluate (String.ofList (List.replicate 4301 '0')) = .error (.evaluation e)) := by
  rw [evaluate_zeros (by decide)]
  rintro (⟨v, h⟩ | ⟨e, h⟩)
  · cases h
  · cases h

end Reckoner.Service
