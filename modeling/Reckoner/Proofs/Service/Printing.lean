import Mathlib
import Reckoner.Proofs.Expr.Passes
import Reckoner.Proofs.Service.Exchange

/-!
# Numbers can be printed

Every number that an evaluation comes through is bounded: the operands on the stack at each point of each pass, the values
that groups are replaced by, and the value in the end. So none is ever too long to be written to the log or to the
output, and an answer never has the name of a number that is not finite.
-/
namespace Reckoner

open Outcome

theorem Sign.keeps_bounded (s : Sign) (a b v : Number) (ha : a.Bounded) (hb : b.Bounded)
    (h : Operand.apply s a b = .ok v) : v.Bounded :=
  bounded_apply ha hb h

theorem evaluate_ne_writing (s : String) : evaluate s ≠ .error (.digits .writing) := by
  intro h
  rcases evaluate_cases s with ⟨-, ⟨v, hv⟩ | ⟨e, he⟩⟩ | ⟨l, -, -, he⟩
  · rw [h] at hv
    cases hv
  · rw [h] at he
    cases he
  · rw [h] at he
    cases he

/-! ### The points of an evaluation -/

section

variable {s : String} {ts us : List (Token Number)}

theorem bounded_of_mem_tokens (h : tokenize (Text.dropBlanks s.toList) = .ok ts) : ∀ n, .operand n ∈ ts → n.Bounded :=
  fun n hn => bounded_of_tokenize h (.operand n) hn

theorem bounded_of_stage (hts : ∀ n, .operand n ∈ ts → n.Bounded) (h : Group.Stage ts us) :
    ∀ n, .operand n ∈ us → n.Bounded :=
  h.forall_operands Sign.keeps_bounded hts

theorem bounded_of_reaches (hts : ∀ n, .operand n ∈ ts → n.Bounded) (h : Group.Pass ts us) {m : Flat.Moment Number}
    (hm : Flat.Reaches us m) : ∀ n ∈ m.waiting.operands, n.Bounded :=
  (hm.forall_operands Sign.keeps_bounded (h.forall_operands Sign.keeps_bounded hts)).1

theorem evaluateTraced_of_tokenize (h : tokenize (Text.dropBlanks s.toList) = .ok ts) :
    evaluateTraced s = Group.resolveTraced ts := by
  rw [evaluateTraced, h]

theorem evaluate_of_tokenize (h : tokenize (Text.dropBlanks s.toList) = .ok ts) : evaluate s = Group.resolve ts := by
  rw [evaluate_eq, h, ok_bind]

theorem bounded_of_mem_splices {splice : Group.Splice Number} (h : splice ∈ (evaluateTraced s).1) :
    splice.value.Bounded := by
  cases ht : tokenize (Text.dropBlanks s.toList) with
  | error f =>
    rw [evaluateTraced, ht] at h
    cases h
  | ok ts =>
    rw [evaluateTraced_of_tokenize ht] at h
    obtain ⟨us, before, inside, after, hstage, hgroup, hv, -⟩ := Group.exists_stage_of_mem_splices h
    have hinside := (Group.Pass.group hstage hgroup).forall_operands Sign.keeps_bounded (bounded_of_mem_tokens ht)
    exact Flat.of_value Sign.keeps_bounded (Group.value_of_groupValue hv) hinside

theorem evaluate_eq_ok_iff (h : tokenize (Text.dropBlanks s.toList) = .ok ts) {v : Number} :
    evaluate s = .ok v ↔
      ∃ us n, Group.Stage ts us ∧ .opening ∉ us ∧ Flat.Reaches us ⟨⟨[v], []⟩, n, []⟩ := by
  rw [evaluate_of_tokenize h, Group.resolve_eq_ok_iff]
  constructor
  · rintro ⟨us, hstage, hopening, hv⟩
    obtain ⟨n, hreaches⟩ := Flat.value_eq_ok_iff.1 hv
    exact ⟨us, n, hstage, hopening, hreaches⟩
  · rintro ⟨us, n, hstage, hopening, hreaches⟩
    exact ⟨us, hstage, hopening, Flat.value_eq_ok_iff.2 ⟨n, hreaches⟩⟩

end

/-! ### What is printed -/

namespace Service

theorem bounded_of_answer {w : Worker} {v : Number} (h : w.answer.value = .result v) : v.Bounded := by
  have hproper := isProper_answerTo w.request
  rwa [← value_answer, h] at hproper

theorem not_isInfix_text {a : Answer} (ha : a.IsProper) :
    ¬"NaN".toList <:+: a.text ∧ ¬"Infinity".toList <:+: a.text := by
  obtain ⟨hN, hy⟩ := Answer.notMem_text ha
  exact ⟨fun h => hN (h.subset (by decide)), fun h => hy (h.subset (by decide))⟩

/-- All numbers of an evaluation are bounded and can be written: its value, the values of its groups, and the operands at
each of its stages and at each point of each pass. The points are those that the stacks come through, and the stages those
that lead to the outcome, whichever that is. What a worker answers is bounded, too, and its text has no number that is not
finite. -/
theorem evaluation_bounded (s : String) (w : Worker) :
    (∀ v, evaluate s = .ok v → v.Bounded ∧ v.isWritable = true) ∧
      (∀ splice ∈ (evaluateTraced s).1, splice.value.Bounded ∧ splice.value.isWritable = true) ∧
      evaluate s ≠ .error (.digits .writing) ∧
      (∀ ts, tokenize (Text.dropBlanks s.toList) = .ok ts →
        (∀ us, Group.Stage ts us → ∀ n, .operand n ∈ us → n.Bounded) ∧
        (∀ us m, Group.Pass ts us → Flat.Reaches us m → ∀ n ∈ m.waiting.operands, n.Bounded) ∧
        (∀ xs ys st, Group.Pass ts (xs ++ ys) → Flat.scan .empty xs = .ok st →
          ∃ n, Flat.Reaches (xs ++ ys) ⟨st, n, ys⟩) ∧
        (∀ splice ∈ (evaluateTraced s).1, ∃ us before inside after, Group.Stage ts us ∧
          Group.IsLast us before inside after ∧ Group.groupValue inside = .ok splice.value ∧
          splice.position = before.length) ∧
        (∀ v, evaluate s = .ok v ↔
          ∃ us n, Group.Stage ts us ∧ .opening ∉ us ∧ Flat.Reaches us ⟨⟨[v], []⟩, n, []⟩) ∧
        ∀ f, evaluate s = .error f ↔ Group.Stops ts f) ∧
      (∀ v, w.answer.value = .result v → v.Bounded ∧ v.isWritable = true) ∧
      ¬"NaN".toList <:+: w.answer.value.text ∧ ¬"Infinity".toList <:+: w.answer.value.text := by
  have hprinted {P : Number → Prop} (h : ∀ v, P v → v.Bounded) (v : Number) (hv : P v) :
      v.Bounded ∧ v.isWritable = true :=
    ⟨h v hv, (h v hv).isWritable⟩
  have hproper : w.answer.value.IsProper := value_answer w ▸ isProper_answerTo w.request
  refine ⟨hprinted fun v => bounded_of_evaluate, ?_, evaluate_ne_writing s, ?_, hprinted fun v => bounded_of_answer,
    not_isInfix_text hproper⟩
  · intro splice h
    exact ⟨bounded_of_mem_splices h, (bounded_of_mem_splices h).isWritable⟩
  · intro ts hts
    have hbounded := bounded_of_mem_tokens hts
    refine ⟨fun us => bounded_of_stage hbounded, fun us m h hm => bounded_of_reaches hbounded h hm,
      fun xs ys st _ h => Flat.exists_reaches_of_scan h ys, ?_, fun v => evaluate_eq_ok_iff hts, ?_⟩
    · intro splice h
      rw [evaluateTraced_of_tokenize hts] at h
      exact Group.exists_stage_of_mem_splices h
    · intro f
      rw [evaluate_of_tokenize hts]
      exact Group.resolve_eq_error_iff

/-- In `2*(1-3)` the group is replaced by its value before the product is computed, and both are bounded. -/
theorem evaluation_bounded_group :
    evaluate "2*(1-3)" = .ok (.int (-4)) ∧ (Number.int (-4)).Bounded ∧ (evaluateTraced "2*(1-3)").1 = [⟨2, .int (-2)⟩] ∧
      (Number.int (-2)).Bounded := by
  have hvalue : evaluate "2*(1-3)" = .ok (.int (-4)) := by decide +kernel
  have hsplices : (evaluateTraced "2*(1-3)").1 = [⟨2, .int (-2)⟩] := by decide +kernel
  obtain ⟨hbounded, hgroups, -⟩ := evaluation_bounded "2*(1-3)" ⟨"2*(1-3)", 1, by decide, by decide⟩
  exact ⟨hvalue, (hbounded _ hvalue).1, hsplices, (hgroups ⟨2, .int (-2)⟩ (by simp [hsplices])).1⟩

end Service
end Reckoner
