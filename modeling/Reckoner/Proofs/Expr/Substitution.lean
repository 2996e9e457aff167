import Mathlib.Tactic.Common
import Reckoner.Proofs.Expr.Bounds
import Reckoner.Proofs.Expr.Passes

/-!
# Substitution

A group stands for its value. Among any tokens, be they an expression or not, the value can be put in the place of the
group without a change to how the evaluation ends (`Group.resolve_substitution`). The one thing that sets a group apart
is that its value is recorded, and whatever comes of short numbers can be written.
-/
namespace Reckoner

open Outcome

/-! ### Short numbers stay short -/

theorem Operator.isShort_of_checkSize {o : Operator} {v w : Number} (h : o.checkSize v = .ok w) : w.IsShort := by
  cases v with
  | int n =>
    simp only [checkSize] at h
    split at h
    · cases h
    · next hn =>
      cases h
      exact (Number.bounded_of_bitLength_le (Nat.le_of_not_lt hn)).isShort
  | double x =>
    simp only [checkSize] at h
    split at h <;> cases h
    trivial

theorem Sign.isShort_apply {s : Sign} {a b v : Number} (h : s.apply a b = .ok v) : v.IsShort := by
  obtain ⟨w, -, h⟩ := bind_eq_ok_iff.1 h
  exact Operator.isShort_of_checkSize h

namespace Group

theorem isShort_of_resolve {ts : List (Token Number)} (hts : ∀ n, .operand n ∈ ts → n.IsShort) {v : Number}
    (h : resolve ts = .ok v) : v.IsShort := by
  have hkeep (s : Sign) (a b w : Number) (_ : a.IsShort) (_ : b.IsShort) (hw : Operand.apply s a b = .ok w) : w.IsShort :=
    Sign.isShort_apply hw
  obtain ⟨us, hstage, -, hvalue⟩ := resolve_eq_ok_iff.1 h
  exact Flat.of_value hkeep hvalue (hstage.forall_operands hkeep hts)

/-! ### Groups and values -/

/-- A group and its value are interchangeable in front of and behind any tokens: the outcomes agree, values and failures
alike. Only the numbers in the group need to be short. -/
theorem resolve_substitution (p g q : List (Token Number)) (v : Number) (hg : ∀ n, .operand n ∈ g → n.IsShort)
    (hv : resolve g = .ok v) : resolve (p ++ [.opening] ++ g ++ [.closing] ++ q) = resolve (p ++ [.operand v] ++ q) := by
  have hw : Operand.isWritable v = true := (isShort_of_resolve hg hv).isWritable
  simpa only [List.append_assoc, List.cons_append, List.nil_append] using resolve_append_group hv hw p q

/-- The group of `5-((1-3)*2))+)` in front of its second closing parenthesis, where what stands behind closes more than
what stands before opens. -/
theorem resolve_substitution_unbalanced :
    let p : List (Token Number) := [.operand (.int 5), .sign .minus]
    let g : List (Token Number) :=
      [.opening, .operand (.int 1), .sign .minus, .operand (.int 3), .closing, .sign .times, .operand (.int 2)]
    let q : List (Token Number) := [.closing, .sign .plus, .closing]
    (∀ n, .operand n ∈ g → n.IsShort) ∧ resolve g = .ok (.int (-4)) ∧
      resolve (p ++ [.opening] ++ g ++ [.closing] ++ q) = resolve (p ++ [.operand (.int (-4))] ++ q) ∧
      resolve (p ++ [.operand (.int (-4))] ++ q) = .error (.evaluation (.invalidCharacter ")")) := by
  intro p g q
  have hg : ∀ n, .operand n ∈ g → n.IsShort := by
    intro n hn
    have hcases : n = .int 1 ∨ n = .int 3 ∨ n = .int 2 := by simpa [g] using hn
    rcases hcases with rfl | rfl | rfl <;> exact (Number.bounded_of_bitLength_le (by decide)).isShort
  have hv : resolve g = .ok (.int (-4)) := by decide +kernel
  exact ⟨hg, hv, resolve_substitution p g q _ hg hv, by decide +kernel⟩

end Group
end Reckoner
