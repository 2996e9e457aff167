import Mathlib.Tactic.Common
import Mathlib.Tactic.Tauto
import Reckoner.Proofs.Expr.Passes

/-!
# Nothing gets lost

Every operand and every sign among the tokens has its part in the value. If the result of a sign has some property exactly
when the sign and both operands are of the right kind, then everything that waits or is to come at one point of a pass is of
the right kind exactly if it is so at the next point, and so the value says of all tokens what it says of itself
(`Group.resolve_suits_iff`).
-/
namespace Reckoner

variable {α : Type}

namespace Token

/-- Whether a token is of the right kind, as an operand or as a sign. -/
def Suits (P : α → Prop) (S : Sign → Prop) : Token α → Prop
  | .operand v => P v
  | .sign s => S s
  | _ => True

variable (P : α → Prop) (S : Sign → Prop)

@[simp] theorem suits_operand (v : α) : (Token.operand v).Suits P S ↔ P v := Iff.rfl

@[simp] theorem suits_sign (s : Sign) : (Token.sign s : Token α).Suits P S ↔ S s := Iff.rfl

@[simp] theorem suits_opening : (Token.opening : Token α).Suits P S := trivial

@[simp] theorem suits_closing : (Token.closing : Token α).Suits P S := trivial

end Token

namespace Flat

def Stacks.Suits (P : α → Prop) (S : Sign → Prop) (st : Stacks α) : Prop :=
  (∀ v ∈ st.operands, P v) ∧ ∀ s ∈ st.signs, S s

def Moment.Suits (P : α → Prop) (S : Sign → Prop) (m : Moment α) : Prop :=
  m.waiting.Suits P S ∧ ∀ t ∈ m.rest, t.Suits P S

end Flat

variable [Operand α] {P : α → Prop} {S : Sign → Prop} {ts us : List (Token α)}

variable (hP : ∀ s a b v, Operand.apply s a b = .ok v → (P v ↔ S s ∧ P a ∧ P b))

include hP

namespace Flat

variable {m m' : Moment α}

theorem Step.suits_iff (h : Step m m') : m.Suits P S ↔ m'.Suits P S := by
  cases h with
  | operand =>
    simp only [Moment.Suits, Stacks.Suits, List.forall_mem_cons, Token.suits_operand]
    tauto
  | apply due result =>
    obtain ⟨a, b, v, os, rfl, hv, rfl⟩ := applyTop_eq_ok result
    simp only [Moment.Suits, Stacks.Suits, List.forall_mem_cons, hP _ _ _ _ hv]
    tauto
  | sign looser =>
    simp only [Moment.Suits, Stacks.Suits, List.forall_mem_cons, Token.suits_sign]
    tauto

theorem Reaches.suits_iff (h : Reaches ts m) : (∀ t ∈ ts, t.Suits P S) ↔ m.Suits P S := by
  induction h with
  | start => simp [Moment.Suits, Stacks.Suits, Moment.start, Stacks.empty]
  | step _ hstep ih => exact ih.trans (hstep.suits_iff hP)

theorem value_suits_iff {v : α} (h : value ts = .ok v) : P v ↔ ∀ t ∈ ts, t.Suits P S := by
  obtain ⟨n, hreaches⟩ := value_eq_ok_iff.1 h
  rw [hreaches.suits_iff hP]
  simp [Moment.Suits, Stacks.Suits]

end Flat

namespace Group

theorem Stage.suits_iff (h : Stage ts us) : (∀ t ∈ ts, t.Suits P S) ↔ ∀ t ∈ us, t.Suits P S := by
  obtain ⟨splices, htraced⟩ := h
  induction htraced with
  | start => rfl
  | @pass splices us before inside after v _ group hv ih =>
    obtain ⟨rfl, -, -⟩ := group
    rw [ih]
    simp only [List.forall_mem_append, List.forall_mem_cons, Token.suits_operand, Token.suits_opening,
      Token.suits_closing, true_and, Flat.value_suits_iff hP (value_of_groupValue hv)]

/-- A value with a property is the value of tokens of the right kind, and the other way round. -/
theorem resolve_suits_iff {v : α} (h : resolve ts = .ok v) : P v ↔ ∀ t ∈ ts, t.Suits P S := by
  obtain ⟨us, hstage, -, hv⟩ := resolve_eq_ok_iff.1 h
  rw [hstage.suits_iff hP, Flat.value_suits_iff hP hv]

end Group
end Reckoner
