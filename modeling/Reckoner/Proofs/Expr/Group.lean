import Mathlib.Tactic.Common
import Reckoner.Expr.Evaluate
import Reckoner.Proofs.Outcome

/-!
# Resolving groups from the right

What is left of some tokens when all groups that open among them are replaced, given what is left of the tokens behind
them. Resolution is this fold with the trace of the replaced groups taken away (`resolve_eq`), and tokens in a row are
taken one part after the other, the last part first (`remaining_append`).
-/
namespace Reckoner

namespace Group

open Outcome

variable {α : Type}

theorem splitAtClosing_append {xs : List (Token α)} (h : Token.closing ∉ xs) (ys : List (Token α)) :
    splitAtClosing (xs ++ .closing :: ys) = some (xs, ys) := by
  induction xs with
  | nil => rfl
  | cons x xs ih =>
    obtain ⟨hx, hxs⟩ := not_or.1 (List.mem_cons.not.1 h)
    cases x with
    | closing => exact absurd rfl hx
    | _ => simp [splitAtClosing, ih hxs]

theorem eq_append_of_splitAtClosing {ts xs ys : List (Token α)} (h : splitAtClosing ts = some (xs, ys)) :
    ts = xs ++ .closing :: ys ∧ Token.closing ∉ xs := by
  induction ts generalizing xs with
  | nil => simp [splitAtClosing] at h
  | cons t ts ih =>
    cases t with
    | closing =>
      simp only [splitAtClosing, Option.some.injEq, Prod.mk.injEq] at h
      obtain ⟨rfl, rfl⟩ := h
      simp
    | _ =>
      simp only [splitAtClosing, Option.map_eq_some_iff, Prod.mk.injEq] at h
      obtain ⟨⟨us, vs⟩, hs, rfl, rfl⟩ := h
      obtain ⟨rfl, hn⟩ := ih hs
      simp [hn]

theorem splitAtClosing_eq_none_iff {ts : List (Token α)} : splitAtClosing ts = none ↔ Token.closing ∉ ts := by
  induction ts with
  | nil => simp [splitAtClosing]
  | cons t ts ih => cases t <;> simp [splitAtClosing, ih]

variable [Operand α]

/-- Put one more token in front of tokens without opening parentheses; an opening one takes its group away. -/
def absorb (token : Token α) (rest : List (Token α)) : Except Failure (List (Token α)) :=
  match token with
  | .opening => do
    let (v, after) ← close rest
    return .operand v :: after
  | t => .ok (t :: rest)

/-- What is left of some tokens in front of others that have no opening parentheses. -/
def remaining (ts rest : List (Token α)) : Except Failure (List (Token α)) :=
  ts.foldrM absorb rest

@[simp] theorem remaining_cons (t : Token α) (ts rest : List (Token α)) :
    remaining (t :: ts) rest = remaining ts rest >>= absorb t :=
  List.foldrM_cons

theorem remaining_append (xs ys rest : List (Token α)) :
    remaining (xs ++ ys) rest = remaining ys rest >>= remaining xs :=
  List.foldrM_append

private theorem extend_tokens (t : Token α) (i : Nat) (r : Reduction α) :
    (extend t i r).tokens = r.tokens >>= absorb t := by
  cases hr : r.tokens with
  | error e => simp [extend, hr]
  | ok rest =>
    cases t with
    | opening =>
      cases hc : close rest with
      | error e => simp [extend, absorb, hr, hc]
      | ok p => simp [extend, absorb, hr, hc]
    | _ => simp [extend, absorb, hr]

theorem foldr_extend_tokens (ts : List (Token α)) (i : Nat) :
    ((ts.zipIdx i).foldr (fun (p : Token α × Nat) r => extend p.1 p.2 r) ⟨[], .ok []⟩).tokens = remaining ts [] := by
  induction ts generalizing i with
  | nil => rfl
  | cons t ts ih => rw [List.zipIdx_cons, List.foldr_cons, extend_tokens, ih, remaining_cons]

theorem reduce_tokens (ts : List (Token α)) : (reduce ts).tokens = remaining ts [] :=
  foldr_extend_tokens ts 0

/-- Resolution replaces all groups and evaluates what is left. -/
theorem resolve_eq (ts : List (Token α)) : resolve ts = remaining ts [] >>= Flat.value := by
  rw [← reduce_tokens]
  rfl

theorem absorb_opening {inside after : List (Token α)} (h : Token.closing ∉ inside) :
    absorb .opening (inside ++ .closing :: after) =
      groupValue inside >>= fun v => .ok (.operand v :: after) := by
  simp only [absorb, close, splitAtClosing_append h, bind_assoc, pure_eq_ok, ok_bind]

theorem absorb_of_ne_opening {t : Token α} (h : t ≠ .opening) (rest : List (Token α)) :
    absorb t rest = .ok (t :: rest) := by
  cases t with
  | opening => exact absurd rfl h
  | _ => rfl

theorem close_eq_ok_iff {ts after : List (Token α)} {v : α} :
    close ts = .ok (v, after) ↔
      ∃ inside, ts = inside ++ .closing :: after ∧ .closing ∉ inside ∧ groupValue inside = .ok v := by
  constructor
  · intro h
    unfold close at h
    split at h
    · cases h
    · next inside after' hsplit =>
      obtain ⟨w, hw, h⟩ := bind_eq_ok_iff.1 h
      cases h
      obtain ⟨hts, hclosing⟩ := eq_append_of_splitAtClosing hsplit
      exact ⟨inside, hts, hclosing, hw⟩
  · rintro ⟨inside, rfl, hclosing, hv⟩
    rw [close, splitAtClosing_append hclosing]
    simp only [hv, ok_bind, pure_eq_ok]

theorem close_eq_error_iff {ts : List (Token α)} {e : Failure} :
    close ts = .error e ↔ (.closing ∉ ts ∧ e = .evaluation .unmatchedParenthesis) ∨
      ∃ inside after, ts = inside ++ .closing :: after ∧ .closing ∉ inside ∧ groupValue inside = .error e := by
  constructor
  · intro h
    unfold close at h
    split at h
    · next hnone =>
      cases h
      exact .inl ⟨splitAtClosing_eq_none_iff.1 hnone, rfl⟩
    · next inside after hsplit =>
      obtain ⟨hts, hclosing⟩ := eq_append_of_splitAtClosing hsplit
      exact .inr ⟨inside, after, hts, hclosing, eq_error_of_bind_ok h⟩
  · rintro (⟨hclosing, rfl⟩ | ⟨inside, after, rfl, hclosing, hv⟩)
    · rw [close, splitAtClosing_eq_none_iff.2 hclosing]
    · rw [close, splitAtClosing_append hclosing]
      simp only [hv, error_bind]

theorem absorb_opening_eq_ok {ts rest : List (Token α)} (h : absorb .opening ts = .ok rest) :
    ∃ inside after v, ts = inside ++ .closing :: after ∧ groupValue inside = .ok v ∧ rest = .operand v :: after := by
  obtain ⟨⟨v, after⟩, hclose, h⟩ := bind_eq_ok_iff.1 h
  cases h
  obtain ⟨inside, hts, -, hv⟩ := close_eq_ok_iff.1 hclose
  exact ⟨inside, after, v, hts, hv, rfl⟩

theorem absorb_opening_eq_error {ts : List (Token α)} {e : Failure} (h : absorb .opening ts = .error e) :
    e = .evaluation .unmatchedParenthesis ∨
      ∃ inside after, ts = inside ++ .closing :: after ∧ groupValue inside = .error e := by
  rcases close_eq_error_iff.1 (eq_error_of_bind_ok h) with ⟨-, rfl⟩ | ⟨inside, after, hts, -, hv⟩
  · exact .inl rfl
  · exact .inr ⟨inside, after, hts, hv⟩

/-- Putting a token in front does not depend on what stands behind the tokens that it needs. -/
theorem absorb_append {t : Token α} {ts us : List (Token α)} (h : absorb t ts = .ok us) (more : List (Token α)) :
    absorb t (ts ++ more) = .ok (us ++ more) := by
  by_cases ht : t = .opening
  · subst ht
    obtain ⟨⟨v, after⟩, hclose, h⟩ := bind_eq_ok_iff.1 h
    cases h
    obtain ⟨inside, rfl, hclosing, hv⟩ := close_eq_ok_iff.1 hclose
    rw [List.append_assoc, List.cons_append, absorb_opening hclosing, hv]
    rfl
  · rw [absorb_of_ne_opening ht] at h ⊢
    cases h
    rfl

theorem remaining_append_right {ts rest us : List (Token α)} (h : remaining ts rest = .ok us)
    (more : List (Token α)) : remaining ts (rest ++ more) = .ok (us ++ more) := by
  induction ts generalizing us with
  | nil =>
    cases h
    rfl
  | cons t ts ih =>
    rw [remaining_cons] at h ⊢
    obtain ⟨vs, hvs, h⟩ := bind_eq_ok_iff.1 h
    rw [ih hvs, ok_bind]
    exact absorb_append h more

theorem value_of_groupValue {ts : List (Token α)} {v : α} (h : groupValue ts = .ok v) : Flat.value ts = .ok v := by
  obtain ⟨w, hw, h⟩ := bind_eq_ok_iff.1 h
  split at h
  · cases h
    exact hw
  · cases h

end Group

theorem evaluate_eq (expression : String) :
    evaluate expression = tokenize (Text.dropBlanks expression.toList) >>= Group.resolve := by
  simp only [evaluate, evaluateTraced]
  cases tokenize (Text.dropBlanks expression.toList) <;> rfl

end Reckoner
