import Mathlib.Tactic.Common
import Reckoner.Proofs.Expr.Passes

/-!
# Balanced tokens

Resolution of tokens whose parentheses match each other needs nothing that stands behind them, and a group among any tokens
is replaced by the value that its contents have by themselves (`Balanced.remaining_group`). All tokens are balanced
parts between closing parentheses, or else an opening one is left over in front of balanced tokens, which resolution
cannot get past. So the place where resolution stops is found without the values (`stop_of_remaining`).
-/
namespace Reckoner.Group

open Outcome

variable {α : Type} {ts us g q : List (Token α)}

/-- Tokens whose parentheses match each other. -/
inductive Balanced : List (Token α) → Prop where
  | nil : Balanced []
  | token {t : Token α} {ts : List (Token α)} (opening : t ≠ .opening) (closing : t ≠ .closing) (tail : Balanced ts) :
      Balanced (t :: ts)
  | group {g q : List (Token α)} (inside : Balanced g) (tail : Balanced q) :
      Balanced (.opening :: (g ++ .closing :: q))

/-- Balanced tokens between closing parentheses. -/
inductive Closed : List (Token α) → Prop where
  | balanced {g : List (Token α)} (balanced : Balanced g) : Closed g
  | closing {g q : List (Token α)} (balanced : Balanced g) (tail : Closed q) : Closed (g ++ .closing :: q)

theorem Balanced.append (hg : Balanced g) (hq : Balanced q) : Balanced (g ++ q) := by
  induction hg with
  | nil => exact hq
  | token opening closing _ ih => exact .token opening closing ih
  | group inside _ _ ih => simpa using inside.group ih

theorem balanced_of_notMem (hopening : .opening ∉ ts) (hclosing : .closing ∉ ts) : Balanced ts := by
  induction ts with
  | nil => exact .nil
  | cons t ts ih =>
    simp only [List.mem_cons, not_or] at hopening hclosing
    exact .token (Ne.symm hopening.1) (Ne.symm hclosing.1) (ih hopening.2 hclosing.2)

theorem Closed.group (hg : Balanced g) (hq : Closed q) : Closed (.opening :: (g ++ .closing :: q)) := by
  cases hq with
  | balanced hq => exact .balanced (hg.group hq)
  | @closing g' q' hg' hq' => simpa using Closed.closing (hg.group hg') hq'

/-- No opening parenthesis is left over, or one is left over and none behind it. -/
theorem closed_or (ts : List (Token α)) :
    Closed ts ∨ ∃ before g, ts = before ++ .opening :: g ∧ Balanced g := by
  induction ts with
  | nil => exact .inl (.balanced .nil)
  | cons t ts ih =>
    rcases ih with hts | ⟨before, g, rfl, hg⟩
    · by_cases hopening : t = .opening
      · subst hopening
        cases hts with
        | balanced hts => exact .inr ⟨[], ts, rfl, hts⟩
        | closing hg hq => exact .inl (.group hg hq)
      · left
        by_cases hclosing : t = .closing
        · subst hclosing
          exact .closing .nil hts
        · cases hts with
          | balanced hts => exact .balanced (.token hopening hclosing hts)
          | closing hg hq => exact .closing (.token hopening hclosing hg) hq
    · exact .inr ⟨t :: before, g, rfl, hg⟩

/-! ### Resolution of balanced tokens -/

variable [Operand α]

def contents (g : List (Token α)) : Except Failure α :=
  remaining g [] >>= groupValue

private theorem remaining_group_of
    (hg : ∀ rest, remaining g rest = remaining g [] >>= fun us => .ok (us ++ rest))
    (hclosing : ∀ us, remaining g [] = .ok us → .closing ∉ us) (q rest : List (Token α)) :
    remaining (.opening :: (g ++ .closing :: q)) rest =
      remaining q rest >>= fun after => contents g >>= fun v => .ok (.operand v :: after) := by
  rw [remaining_cons, remaining_append, remaining_cons, bind_assoc, bind_assoc]
  congr 1
  funext after
  rw [absorb_of_ne_opening (by simp), ok_bind, hg, contents]
  cases hus : remaining g [] with
  | error e => rfl
  | ok us => rw [ok_bind, ok_bind, ok_bind, absorb_opening (hclosing us hus)]

private theorem Balanced.remaining_both (h : Balanced ts) :
    (∀ rest, remaining ts rest = remaining ts [] >>= fun us => .ok (us ++ rest)) ∧
      ∀ us, remaining ts [] = .ok us → .closing ∉ us := by
  induction h with
  | nil => simp [remaining]
  | @token t ts opening closing _ ih =>
    obtain ⟨hright, hclosing⟩ := ih
    constructor
    · intro rest
      rw [remaining_cons, remaining_cons, hright rest, bind_assoc, bind_assoc]
      simp [absorb_of_ne_opening opening]
    · intro us hus
      rw [remaining_cons] at hus
      obtain ⟨vs, hvs, hus⟩ := bind_eq_ok_iff.1 hus
      rw [absorb_of_ne_opening opening] at hus
      cases hus
      simp [hclosing vs hvs, Ne.symm closing]
  | @group g q _ _ ihg ihq =>
    constructor
    · intro rest
      rw [remaining_group_of ihg.1 ihg.2, remaining_group_of ihg.1 ihg.2, ihq.1 rest, bind_assoc, bind_assoc]
      simp [bind_assoc]
    · intro us hus
      rw [remaining_group_of ihg.1 ihg.2] at hus
      obtain ⟨after, hafter, hus⟩ := bind_eq_ok_iff.1 hus
      obtain ⟨v, -, hus⟩ := bind_eq_ok_iff.1 hus
      cases hus
      simp [ihq.2 after hafter]

/-- Balanced tokens leave the same in front of anything. -/
theorem Balanced.remaining_eq (h : Balanced g) (rest : List (Token α)) :
    remaining g rest = remaining g [] >>= fun us => .ok (us ++ rest) :=
  h.remaining_both.1 rest

theorem Balanced.closing_notMem (h : Balanced g) (hus : remaining g [] = .ok us) : .closing ∉ us :=
  h.remaining_both.2 us hus

theorem Balanced.remaining_closing (h : Balanced g) (q rest : List (Token α)) :
    remaining (g ++ .closing :: q) rest =
      remaining q rest >>= fun vs => remaining g [] >>= fun us => .ok (us ++ .closing :: vs) := by
  rw [remaining_append, remaining_cons, bind_assoc]
  congr 1
  funext vs
  rw [absorb_of_ne_opening (by simp), ok_bind, h.remaining_eq]

theorem Balanced.remaining_group (h : Balanced g) (q rest : List (Token α)) :
    remaining (.opening :: (g ++ .closing :: q)) rest =
      remaining q rest >>= fun after => contents g >>= fun v => .ok (.operand v :: after) :=
  remaining_group_of h.remaining_both.1 h.remaining_both.2 q rest

theorem Balanced.remaining_unclosed (h : Balanced g) :
    remaining (.opening :: g) [] = remaining g [] >>= fun _ => .error (.evaluation .unmatchedParenthesis) := by
  rw [remaining_cons]
  cases hus : remaining g [] with
  | error e => rfl
  | ok us =>
    have hclose : close us = .error (.evaluation .unmatchedParenthesis) :=
      close_eq_error_iff.2 (.inl ⟨h.closing_notMem hus, rfl⟩)
    simp [absorb, hclose]

theorem Balanced.remaining_ne_ok (h : Balanced g) (before : List (Token α)) :
    remaining (before ++ .opening :: g) [] ≠ .ok us := by
  intro hus
  rw [remaining_append, h.remaining_unclosed, bind_assoc] at hus
  obtain ⟨vs, -, hus⟩ := bind_eq_ok_iff.1 hus
  cases hus

theorem Balanced.exists_contents (h : Balanced g) {before after : List (Token α)}
    (hus : remaining (before ++ .opening :: (g ++ .closing :: after)) [] = .ok us) : ∃ v, contents g = .ok v := by
  rw [remaining_append, h.remaining_group] at hus
  obtain ⟨vs, hvs, -⟩ := bind_eq_ok_iff.1 hus
  obtain ⟨ws, -, hvs⟩ := bind_eq_ok_iff.1 hvs
  obtain ⟨v, hv, -⟩ := bind_eq_ok_iff.1 hvs
  exact ⟨v, hv⟩

/-- Where resolution stops: at an opening parenthesis that is left over, or at a group whose contents have no value.
All that stands to the right can be resolved. -/
theorem stop_of_remaining {e : Failure} (h : remaining ts [] = .error e) :
    (∃ before g, ts = before ++ .opening :: g ∧ Balanced g ∧ e = .evaluation .unmatchedParenthesis ∧
        ∃ us, remaining g [] = .ok us) ∨
      ∃ before g after, ts = before ++ .opening :: (g ++ .closing :: after) ∧ Balanced g ∧ contents g = .error e ∧
        ∃ us, remaining (g ++ .closing :: after) [] = .ok us := by
  induction ts with
  | nil => cases h
  | cons t ts ih =>
    cases hus : remaining ts [] with
    | error e' =>
      rw [remaining_cons, hus] at h
      cases h
      rcases ih hus with ⟨before, g, rfl, hstop⟩ | ⟨before, g, after, rfl, hstop⟩
      · exact .inl ⟨t :: before, g, rfl, hstop⟩
      · exact .inr ⟨t :: before, g, after, rfl, hstop⟩
    | ok us =>
      have ht : t = .opening := by
        by_contra ht
        rw [remaining_cons, hus, ok_bind, absorb_of_ne_opening ht] at h
        cases h
      subst ht
      rcases closed_or ts with hts | ⟨before, g, rfl, hg⟩
      · cases hts with
        | balanced hg =>
          rw [hg.remaining_unclosed, hus] at h
          cases h
          exact .inl ⟨[], ts, rfl, hg, rfl, us, hus⟩
        | @closing g after hg _ =>
          have hafter := hus
          rw [hg.remaining_closing] at hafter
          obtain ⟨vs, hvs, -⟩ := bind_eq_ok_iff.1 hafter
          rw [hg.remaining_group, hvs, ok_bind] at h
          exact .inr ⟨[], g, after, rfl, hg, eq_error_of_bind_ok h, us, hus⟩
      · exact absurd hus (hg.remaining_ne_ok before)

/-- Only balanced tokens have values. -/
theorem balanced_of_resolve {v : α} (h : resolve ts = .ok v) : Balanced ts := by
  rw [resolve_eq] at h
  obtain ⟨us, hus, hv⟩ := bind_eq_ok_iff.1 h
  rcases closed_or ts with hts | ⟨before, g, rfl, hg⟩
  · cases hts with
    | balanced hts => exact hts
    | @closing g q hg _ =>
      rw [hg.remaining_closing] at hus
      obtain ⟨vs, -, hus⟩ := bind_eq_ok_iff.1 hus
      obtain ⟨ws, -, hus⟩ := bind_eq_ok_iff.1 hus
      cases hus
      exact absurd (by simp) (Flat.closing_notMem_of_value hv)
  · exact absurd hus (hg.remaining_ne_ok before)

end Reckoner.Group
