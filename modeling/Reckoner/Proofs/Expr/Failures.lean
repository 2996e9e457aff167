import Mathlib
import Reckoner.Proofs.Expr.Bounds
import Reckoner.Proofs.Expr.Flat
import Reckoner.Proofs.Expr.Group
import Reckoner.Proofs.Expr.Tokens

/-!
# Failures of evaluation

Once a text has tokens, all its numbers are bounded and stay so, which leaves evaluation errors as the only failures
(`proper_resolve`). Tokens are missing where a literal has no value. Such a literal is an evaluation error, too, unless
it is padded: then the limit on conversions is met first, and the failure is that limit.
-/
namespace Reckoner

open Outcome

/-- A value with a property, or an evaluation error. -/
def Proper {α : Type} (P : α → Prop) : Except Failure α → Prop
  | .ok a => P a
  | .error f => ∃ e, f = .evaluation e

namespace Proper

variable {α β : Type} {P : α → Prop} {Q : β → Prop}

theorem bind {x : Except Failure α} (hx : Proper P x) {f : α → Except Failure β} (hf : ∀ a, P a → Proper Q (f a)) :
    Proper Q (x >>= f) := by
  cases x with
  | error e => exact hx
  | ok a => exact hf a hx

theorem of_ok {x : Except Failure α} (hx : Proper P x) {a : α} (h : x = .ok a) : P a := by
  rw [h] at hx
  exact hx

theorem of_error {x : Except Failure α} (hx : Proper P x) {f : Failure} (h : x = .error f) :
    ∃ e, f = .evaluation e := by
  rw [h] at hx
  exact hx

end Proper

/-! ### Bounded tokens -/

def Token.Bounded : Token Number → Prop
  | .operand n => n.Bounded
  | _ => True

theorem Sign.proper_apply (s : Sign) {a b : Number} (ha : a.Bounded) (hb : b.Bounded) :
    Proper Number.Bounded (s.apply a b) := by
  cases h : s.apply a b with
  | ok v => exact bounded_apply ha hb h
  | error f => exact apply_eq_error h

namespace Flat

def Stacks.Bounded (st : Stacks Number) : Prop :=
  ∀ v ∈ st.operands, v.Bounded

private theorem proper_applyTop (s : Sign) {os : List Number} (h : ∀ v ∈ os, v.Bounded) :
    Proper (fun os' => ∀ v ∈ os', v.Bounded) (applyTop s os) := by
  rcases os with - | ⟨b, - | ⟨a, os⟩⟩
  · exact ⟨_, rfl⟩
  · exact ⟨_, rfl⟩
  · obtain ⟨hb, ha, hos⟩ : b.Bounded ∧ a.Bounded ∧ ∀ v ∈ os, v.Bounded := by simpa using h
    refine (s.proper_apply ha hb).bind ?_
    intro v hv
    exact List.forall_mem_cons.2 ⟨hv, hos⟩

private theorem proper_release (bar : Nat) {os : List Number} (h : ∀ v ∈ os, v.Bounded) (ss : List Sign) :
    Proper Stacks.Bounded (release bar os ss) := by
  induction ss generalizing os with
  | nil => exact h
  | cons s ss ih =>
    rw [release]
    split
    · exact (proper_applyTop s h).bind fun os' hos' => ih hos'
    · exact h

private theorem proper_step {st : Stacks Number} (hst : st.Bounded) {t : Token Number} (ht : t.Bounded) :
    Proper Stacks.Bounded (step st t) := by
  cases t with
  | operand v => exact List.forall_mem_cons.2 ⟨ht, hst⟩
  | sign s => exact (proper_release s.precedence hst st.signs).bind fun st' hst' => hst'
  | opening => exact ⟨_, rfl⟩
  | closing => exact ⟨_, rfl⟩
  | other text => exact ⟨_, rfl⟩

private theorem proper_scan {st : Stacks Number} (hst : st.Bounded) {ts : List (Token Number)}
    (hts : ∀ t ∈ ts, t.Bounded) : Proper Stacks.Bounded (scan st ts) := by
  induction ts generalizing st with
  | nil => exact hst
  | cons t ts ih =>
    obtain ⟨ht, hts⟩ := List.forall_mem_cons.1 hts
    rw [scan_cons]
    exact (proper_step hst ht).bind fun st' hst' => ih hst' hts

theorem proper_value {ts : List (Token Number)} (hts : ∀ t ∈ ts, t.Bounded) : Proper Number.Bounded (value ts) := by
  have hempty : (Stacks.empty : Stacks Number).Bounded := by simp [Stacks.Bounded, Stacks.empty]
  refine (proper_scan hempty hts).bind fun st hst => ?_
  refine (proper_release 0 hst st.signs).bind fun st' hst' => ?_
  rcases hos : st'.operands with - | ⟨v, - | ⟨w, os⟩⟩
  · exact ⟨_, rfl⟩
  · exact hst' v (by simp [hos])
  · exact ⟨_, rfl⟩

end Flat

namespace Group

private theorem proper_groupValue {ts : List (Token Number)} (hts : ∀ t ∈ ts, t.Bounded) :
    Proper Number.Bounded (groupValue ts) := by
  refine (Flat.proper_value hts).bind fun v hv => ?_
  have hw : Operand.isWritable v = true := hv.isWritable
  rw [if_pos hw]
  exact hv

private theorem proper_absorb {t : Token Number} (ht : t.Bounded) {rest : List (Token Number)}
    (hrest : ∀ t ∈ rest, t.Bounded) : Proper (fun ts => ∀ t ∈ ts, t.Bounded) (absorb t rest) := by
  by_cases ho : t = .opening
  · subst ho
    cases h : absorb .opening rest with
    | ok ts =>
      obtain ⟨inside, after, v, rfl, hv, rfl⟩ := absorb_opening_eq_ok h
      obtain ⟨hinside, -, hafter⟩ : (∀ t ∈ inside, t.Bounded) ∧ _ ∧ ∀ t ∈ after, t.Bounded := by
        rwa [List.forall_mem_append, List.forall_mem_cons] at hrest
      exact List.forall_mem_cons.2 ⟨(proper_groupValue hinside).of_ok hv, hafter⟩
    | error e =>
      rcases absorb_opening_eq_error h with rfl | ⟨inside, after, rfl, hv⟩
      · exact ⟨_, rfl⟩
      · exact (proper_groupValue (List.forall_mem_append.1 hrest).1).of_error hv
  · rw [absorb_of_ne_opening ho]
    exact List.forall_mem_cons.2 ⟨ht, hrest⟩

private theorem proper_remaining {ts rest : List (Token Number)} (hts : ∀ t ∈ ts, t.Bounded)
    (hrest : ∀ t ∈ rest, t.Bounded) : Proper (fun ts => ∀ t ∈ ts, t.Bounded) (remaining ts rest) := by
  induction ts with
  | nil => exact hrest
  | cons t ts ih =>
    obtain ⟨ht, hts⟩ := List.forall_mem_cons.1 hts
    rw [remaining_cons]
    exact (ih hts).bind fun us hus => proper_absorb ht hus

theorem proper_resolve {ts : List (Token Number)} (hts : ∀ t ∈ ts, t.Bounded) :
    Proper Number.Bounded (resolve ts) := by
  rw [resolve_eq]
  exact (proper_remaining hts (by simp)).bind fun us hus => Flat.proper_value hus

end Group

/-! ### Texts -/

/-- The first part of a text without a value. -/
def IsRefused (cs l : List Char) : Prop :=
  ∃ before after, lexemes cs = before ++ l :: after ∧ (∀ m ∈ before, ∃ t, Token.ofLexeme m = .ok t) ∧
    ∃ f, Token.ofLexeme l = .error f

/-- The first part of a text without a value has too many digits to be converted, most of them zeros in front. -/
def StopsAtPadding (cs : List Char) : Prop :=
  ∃ l, IsRefused cs l ∧ Literal.IsPadded l

theorem bounded_of_tokenize {cs : List Char} {ts : List (Token Number)} (h : tokenize cs = .ok ts) :
    ∀ t ∈ ts, t.Bounded := by
  fun_induction tokenize cs generalizing ts with
  | case1 =>
    cases h
    simp
  | case2 c cs hc ih =>
    obtain ⟨n, hn, h⟩ := bind_eq_ok_iff.1 h
    obtain ⟨us, hu, h⟩ := bind_eq_ok_iff.1 h
    cases h
    have hbounded : n.Bounded := Literal.bounded_value (fun a => isLiteralChar_of_mem_run hc) hn
    exact List.forall_mem_cons.2 ⟨hbounded, ih hu⟩
  | case3 c cs hc ih =>
    obtain ⟨us, hu, h⟩ := bind_eq_ok_iff.1 h
    cases h
    refine List.forall_mem_cons.2 ⟨?_, ih hu⟩
    cases ht : (Token.ofChar c : Token Number) with
    | operand n => exact absurd ht (Token.ofChar_ne_operand c n)
    | _ => trivial

theorem evaluate_of_isPadded {s : String} {l : List Char} (hl : IsRefused (Text.dropBlanks s.toList) l)
    (hp : Literal.IsPadded l) : evaluate s = .error (.digits (.reading l.length)) := by
  obtain ⟨before, after, hcs, hbefore, f, hf⟩ := hl
  have hvalue := Token.value_of_ofLexeme hf
  rw [Literal.value_of_isPadded hp] at hvalue
  cases hvalue
  have ht : tokenize (Text.dropBlanks s.toList) = .error (.digits (.reading l.length)) := by
    rw [tokenize_eq_mapM]
    exact mapM_eq_error_iff.2 ⟨before, l, after, hcs, hbefore, hf⟩
  rw [evaluate_eq, ht, error_bind]

theorem proper_evaluate {s : String} (h : ¬StopsAtPadding (Text.dropBlanks s.toList)) :
    Proper Number.Bounded (evaluate s) := by
  rw [evaluate_eq]
  cases ht : tokenize (Text.dropBlanks s.toList) with
  | ok ts => exact Group.proper_resolve (bounded_of_tokenize ht)
  | error f =>
    rw [tokenize_eq_mapM] at ht
    obtain ⟨before, l, after, hcs, hbefore, hf⟩ := mapM_eq_error_iff.1 ht
    rcases Literal.value_eq_error (Token.value_of_ofLexeme hf) with he | ⟨hp, -⟩
    · exact he
    · exact absurd ⟨l, ⟨before, after, hcs, hbefore, f, hf⟩, hp⟩ h

/-- A value, an evaluation error or a padded literal, and no two of them. -/
theorem evaluate_cases (s : String) :
    (¬StopsAtPadding (Text.dropBlanks s.toList) ∧
        ((∃ v, evaluate s = .ok v) ∨ ∃ e, evaluate s = .error (.evaluation e))) ∨
      ∃ l, IsRefused (Text.dropBlanks s.toList) l ∧ Literal.IsPadded l ∧
        evaluate s = .error (.digits (.reading l.length)) := by
  by_cases h : StopsAtPadding (Text.dropBlanks s.toList)
  · obtain ⟨l, hl, hp⟩ := h
    exact .inr ⟨l, hl, hp, evaluate_of_isPadded hl hp⟩
  · refine .inl ⟨h, ?_⟩
    have hproper := proper_evaluate h
    cases hs : evaluate s with
    | ok v => exact .inl ⟨v, rfl⟩
    | error f =>
      obtain ⟨e, rfl⟩ := hproper.of_error hs
      exact .inr ⟨e, rfl⟩

theorem bounded_of_evaluate {s : String} {v : Number} (h : evaluate s = .ok v) : v.Bounded := by
  have hstops : ¬StopsAtPadding (Text.dropBlanks s.toList) := by
    rintro ⟨l, hl, hp⟩
    rw [evaluate_of_isPadded hl hp] at h
    cases h
  exact (proper_evaluate hstops).of_ok h

theorem EvalError.kind_ne_evaluation (e : EvalError) : e.kind ≠ .evaluation := by
  cases e <;> simp [kind]

theorem evaluate_zeros {n : Nat} (h : DigitLimit.maxDigits < n) :
    evaluate (String.ofList (List.replicate n '0')) = .error (.digits (.reading n)) := by
  have hn : n ≠ 0 := Nat.ne_of_gt (Nat.zero_lt_of_lt h)
  have hne : List.replicate n '0' ≠ [] := by simpa using hn
  have hzero : ∀ c ∈ List.replicate n '0', c = '0' := fun c hc => List.eq_of_mem_replicate hc
  have hchars : ∀ c ∈ List.replicate n '0', Literal.isLiteralChar c = true := by
    intro c hc
    rw [hzero c hc]
    decide
  have hdrop : Text.dropBlanks (String.ofList (List.replicate n '0')).toList = List.replicate n '0' := by
    rw [String.toList_ofList]
    apply List.filter_eq_self.2
    intro c hc
    rw [hzero c hc]
    decide
  have hp := Literal.isPadded_zeros h
  have hrefused : Token.ofLexeme (List.replicate n '0') = .error (.digits (.reading n)) := by
    rw [Token.ofLexeme_run ⟨hne, hchars⟩, Literal.value_of_isPadded hp, List.length_replicate, error_bind]
  have := evaluate_of_isPadded (s := String.ofList (List.replicate n '0')) (l := List.replicate n '0')
    ⟨[], [], by rw [hdrop, lexemes_literal hne hchars]; rfl, by simp, _, hrefused⟩ hp
  rwa [List.length_replicate] at this

end Reckoner
