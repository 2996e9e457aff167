import Mathlib.Data.List.Chain
import Mathlib.Tactic.Common
import Reckoner.Proofs.Expr.Flat

/-!
# Counting operands and signs

The flat pass never looks whether operands and signs alternate, but every sign takes two operands and gives one, so a
value is left only when there is one operand more than there are signs. Tokens so counted alternate as soon as no two
operands are neighbours (`alternates_of_apart`).
-/
namespace Reckoner

namespace Token

variable {α : Type}

def isOperand : Token α → Bool
  | .operand _ => true
  | _ => false

theorem isOperand_iff {t : Token α} : t.isOperand = true ↔ ∃ v, t = .operand v := by
  cases t <;> simp [isOperand]

theorem isSign_iff {t : Token α} : t.isSign = true ↔ ∃ s, t = .sign s := by
  cases t <;> simp [isSign]

theorem isSign_eq_false {t : Token α} (h : t.isOperand = true) : t.isSign = false := by
  obtain ⟨v, rfl⟩ := isOperand_iff.1 h
  rfl

theorem isOperand_eq_false {t : Token α} (h : t.isSign = true) : t.isOperand = false := by
  obtain ⟨s, rfl⟩ := isSign_iff.1 h
  rfl

end Token

namespace Flat

open Outcome

variable {α : Type}

/-- Operands with one sign between every two of them. -/
inductive Alternates : List (Token α) → Prop where
  | operand (v : α) : Alternates [.operand v]
  | join (v : α) (s : Sign) {ts : List (Token α)} : Alternates ts → Alternates (.operand v :: .sign s :: ts)

def Apart (ts : List (Token α)) : Prop :=
  ts.IsChain fun a b => ¬(a.isOperand = true ∧ b.isOperand = true)

/-- Operands apart are at most one more than the signs; without an operand in front, at most as many. Counts as high as
that leave no choice. -/
private theorem counts_of_apart {ts : List (Token α)} (hk : ∀ t ∈ ts, t.isOperand = true ∨ t.isSign = true)
    (ha : Apart ts) :
    (ts.countP Token.isOperand ≤ ts.countP Token.isSign + 1 ∧
        (ts.countP Token.isOperand = ts.countP Token.isSign + 1 → Alternates ts)) ∧
      ((∀ t ∈ ts.head?, t.isOperand = false) →
        ts.countP Token.isOperand ≤ ts.countP Token.isSign ∧
          (ts.countP Token.isOperand = ts.countP Token.isSign → ts = [] ∨ ∃ s us, ts = .sign s :: us ∧ Alternates us)) := by
  induction ts with
  | nil => simp
  | cons t ts ih =>
    obtain ⟨ht, hk⟩ := List.forall_mem_cons.1 hk
    obtain ⟨hnext, ha⟩ := List.isChain_cons.1 ha
    obtain ⟨⟨hle, heq⟩, hrest⟩ := ih hk ha
    rw [List.countP_cons, List.countP_cons]
    rcases ht with ht | ht
    · have hno := Token.isSign_eq_false ht
      have hhead : ∀ u ∈ ts.head?, u.isOperand = false := by
        intro u hu
        have := hnext u hu
        simpa [ht] using this
      obtain ⟨hle', heq'⟩ := hrest hhead
      obtain ⟨v, rfl⟩ := Token.isOperand_iff.1 ht
      simp only [ht, hno, if_true, Bool.false_eq_true, if_false]
      refine ⟨⟨by omega, ?_⟩, ?_⟩
      · intro hcount
        rcases heq' (by omega) with rfl | ⟨s, us, rfl, hus⟩
        · exact .operand v
        · exact .join v s hus
      · intro h
        have := h _ rfl
        rw [ht] at this
        cases this
    · have hno := Token.isOperand_eq_false ht
      obtain ⟨s, rfl⟩ := Token.isSign_iff.1 ht
      simp only [ht, hno, if_true, Bool.false_eq_true, if_false]
      refine ⟨⟨by omega, fun hcount => by omega⟩, fun _ => ⟨by omega, ?_⟩⟩
      intro hcount
      exact .inr ⟨s, ts, rfl, heq (by omega)⟩

/-! ### What the flat pass counts -/

variable [Operand α]

theorem length_applyTop {s : Sign} {os os' : List α} (h : applyTop s os = .ok os') : os.length = os'.length + 1 := by
  obtain ⟨a, b, v, rest, rfl, -, rfl⟩ := applyTop_eq_ok h
  rfl

theorem length_release {bar : Nat} {os : List α} {ss : List Sign} {st : Stacks α} (h : release bar os ss = .ok st) :
    st.operands.length + ss.length = os.length + st.signs.length := by
  induction ss generalizing os with
  | nil =>
    cases h
    rfl
  | cons s ss ih =>
    rw [release] at h
    split at h
    · obtain ⟨os', ho, h⟩ := bind_eq_ok_iff.1 h
      have hlen := length_applyTop ho
      have hrest := ih h
      rw [List.length_cons]
      omega
    · cases h
      rfl

theorem signs_release_zero {os : List α} {ss : List Sign} {st : Stacks α} (h : release 0 os ss = .ok st) :
    st.signs = [] := by
  induction ss generalizing os with
  | nil =>
    cases h
    rfl
  | cons s ss ih =>
    rw [release, if_pos (Nat.zero_le _)] at h
    obtain ⟨os', -, h⟩ := bind_eq_ok_iff.1 h
    exact ih h

theorem length_step {st st' : Stacks α} {t : Token α} (h : step st t = .ok st') :
    (t.isOperand = true ∧ st'.operands.length + st.signs.length = st.operands.length + st'.signs.length + 1) ∨
      (t.isSign = true ∧ st'.operands.length + st.signs.length + 1 = st.operands.length + st'.signs.length) := by
  cases t with
  | operand v =>
    cases h
    left
    refine ⟨rfl, ?_⟩
    simp only [List.length_cons]
    omega
  | sign s =>
    obtain ⟨st₁, h₁, h⟩ := bind_eq_ok_iff.1 h
    cases h
    right
    have hlen := length_release h₁
    refine ⟨rfl, ?_⟩
    simp only [List.length_cons]
    omega
  | opening => cases h
  | closing => cases h
  | other text => cases h

theorem length_scan {st st' : Stacks α} {ts : List (Token α)} (h : scan st ts = .ok st') :
    (∀ t ∈ ts, t.isOperand = true ∨ t.isSign = true) ∧
      st'.operands.length + st.signs.length + ts.countP Token.isSign =
        st.operands.length + st'.signs.length + ts.countP Token.isOperand := by
  induction ts generalizing st with
  | nil =>
    cases h
    simp
  | cons t ts ih =>
    rw [scan_cons] at h
    obtain ⟨st₁, h₁, h⟩ := bind_eq_ok_iff.1 h
    obtain ⟨hkinds, hcount⟩ := ih h
    rw [List.forall_mem_cons, List.countP_cons, List.countP_cons]
    rcases length_step h₁ with ⟨ht, hlen⟩ | ⟨ht, hlen⟩
    · have hno := Token.isSign_eq_false ht
      refine ⟨⟨.inl ht, hkinds⟩, ?_⟩
      simp only [ht, hno, if_true, Bool.false_eq_true, if_false]
      omega
    · have hno := Token.isOperand_eq_false ht
      refine ⟨⟨.inr ht, hkinds⟩, ?_⟩
      simp only [ht, hno, if_true, Bool.false_eq_true, if_false]
      omega

theorem counts_of_value {ts : List (Token α)} {v : α} (h : value ts = .ok v) :
    (∀ t ∈ ts, t.isOperand = true ∨ t.isSign = true) ∧
      ts.countP Token.isOperand = ts.countP Token.isSign + 1 := by
  obtain ⟨st, hscan, h⟩ := bind_eq_ok_iff.1 h
  obtain ⟨st', hrelease, h⟩ := bind_eq_ok_iff.1 h
  obtain ⟨hkinds, hcount⟩ := length_scan hscan
  have hlen := length_release hrelease
  have hsigns := signs_release_zero hrelease
  have hone : st'.operands.length = 1 := by
    match hst : st'.operands, h with
    | [w], _ => rfl
  refine ⟨hkinds, ?_⟩
  rw [hone, hsigns] at hlen
  simp only [Stacks.empty, List.length_nil] at hcount hlen
  omega

theorem alternates_of_apart {ts : List (Token α)} {v : α} (h : value ts = .ok v) (ha : Apart ts) : Alternates ts := by
  obtain ⟨hkinds, hcount⟩ := counts_of_value h
  exact (counts_of_apart hkinds ha).1.2 hcount

end Flat
end Reckoner
