import Mathlib.Tactic.Common
import Reckoner.Expr.Matching
import Reckoner.Proofs.Expr.Balance
import Reckoner.Proofs.Expr.Substitution

/-!
# Unbalanced parentheses

Resolution never looks for the partner of a parenthesis, but it stops where one is missing: at the last opening one that
is left over, unless a group behind that one fails first (`resolve_unbalanced`). The link between the two is that the
tokens between partners are balanced, and so are those behind an opening parenthesis that is left over and last.
-/
namespace Reckoner

open Outcome

/-! ### Failures that are not about parentheses -/

/-- Any value, or a failure that is not about parentheses. -/
def Matched {α : Type} (x : Except Failure α) : Prop :=
  Meets (fun _ => True) (· ≠ .evaluation .unmatchedParenthesis) x

theorem Matched.ne {α : Type} {x : Except Failure α} (hx : Matched x) : x ≠ .error (.evaluation .unmatchedParenthesis) := by
  rintro rfl
  exact hx rfl

theorem Operator.matched_checkSize (o : Operator) (v : Number) : Matched (o.checkSize v) := by
  cases v with
  | int n =>
    rw [checkSize]
    split <;> simp [Matched, Meets]
  | double x =>
    rw [checkSize]
    split <;> simp [Matched, Meets]

theorem Sign.matched_apply (s : Sign) (a b : Number) : Matched (s.apply a b) := by
  have hmap (x : Except Number.Fault Number) (c : Char) : Matched (x.mapError (Operator.failureOf c)) := by
    cases x with
    | ok v => trivial
    | error fault => cases fault <;> simp [Matched, Meets, Except.mapError, Operator.failureOf]
  have hcompute : Matched (s.operator.compute a b) := by
    cases s with
    | dividedBy =>
      simp only [operator, Operator.compute]
      split
      · simp [Matched, Meets]
      · exact hmap _ _
    | _ => exact hmap _ _
  exact hcompute.bind fun v _ => s.operator.matched_checkSize v

namespace Flat

variable {α : Type} [Operand α] (happly : ∀ s (a b : α), Matched (Operand.apply s a b))

include happly

private theorem matched_applyTop (s : Sign) (os : List α) : Matched (applyTop s os) := by
  rcases os with - | ⟨b, - | ⟨a, os⟩⟩
  · simp [Matched, Meets, applyTop]
  · simp [Matched, Meets, applyTop]
  · exact (happly s a b).bind fun v _ => trivial

private theorem matched_release (bar : Nat) (os : List α) (ss : List Sign) : Matched (release bar os ss) := by
  induction ss generalizing os with
  | nil => trivial
  | cons s ss ih =>
    rw [release]
    split
    · exact (matched_applyTop happly s os).bind fun os' _ => ih os'
    · trivial

private theorem matched_scan (st : Stacks α) (ts : List (Token α)) : Matched (scan st ts) := by
  induction ts generalizing st with
  | nil => trivial
  | cons t ts ih =>
    rw [scan_cons]
    refine Meets.bind (P := fun _ => True) ?_ fun st' _ => ih st'
    cases t with
    | operand v => trivial
    | sign s => exact (matched_release happly s.precedence st.operands st.signs).bind fun st' _ => trivial
    | _ => simp [Meets, step]

theorem matched_value (ts : List (Token α)) : Matched (value ts) := by
  refine (matched_scan happly .empty ts).bind fun st _ => ?_
  refine (matched_release happly 0 st.operands st.signs).bind fun st' _ => ?_
  rcases hos : st'.operands with - | ⟨v, - | ⟨w, os⟩⟩ <;> simp [Meets, single]

end Flat

namespace Group

variable {α : Type} {ts g before after : List (Token α)}

/-! ### Partners have balanced tokens between them -/

private def scan (m : Matching) (start : Nat) (ts : List (Token α)) : Matching :=
  (ts.zipIdx start).foldl (fun m p => m.take p.2 p.1) m

private theorem scan_nil (m : Matching) (start : Nat) : scan m start ([] : List (Token α)) = m := rfl

private theorem scan_cons (m : Matching) (start : Nat) (t : Token α) (ts : List (Token α)) :
    scan m start (t :: ts) = scan (m.take start t) (start + 1) ts := rfl

private theorem scan_append (m : Matching) (start : Nat) (xs ys : List (Token α)) :
    scan m start (xs ++ ys) = scan (scan m start xs) (start + xs.length) ys := by
  induction xs generalizing m start with
  | nil => rfl
  | cons x xs ih => simp [scan_cons, ih, Nat.add_comm 1, Nat.add_assoc]

theorem matching_append (xs ys : List (Token α)) : matching (xs ++ ys) = scan (matching xs) xs.length ys := by
  simpa [scan, matching] using scan_append ⟨[], [], []⟩ 0 xs ys

private theorem take_of_ne {t : Token α} (hopening : t ≠ .opening) (hclosing : t ≠ .closing) (m : Matching) (i : Nat) :
    m.take i t = m := by
  cases t with
  | opening => exact absurd rfl hopening
  | closing => exact absurd rfl hclosing
  | _ => rfl

private theorem Balanced.scan_eq (h : Balanced g) (m : Matching) (start : Nat) :
    ∃ groups, scan m start g = { m with groups := groups ++ m.groups } := by
  induction h generalizing m start with
  | nil => exact ⟨[], rfl⟩
  | token opening closing _ ih =>
    rw [scan_cons, take_of_ne opening closing]
    exact ih m _
  | @group g q _ _ ihg ihq =>
    obtain ⟨inner, hinner⟩ := ihg (m.take start (.opening : Token α)) (start + 1)
    rw [scan_cons, scan_append, hinner, scan_cons]
    obtain ⟨behind, hbehind⟩ := ihq { m with groups := (start, start + 1 + g.length) :: (inner ++ m.groups) }
      (start + 1 + g.length + 1)
    refine ⟨behind ++ (start, start + 1 + g.length) :: inner, ?_⟩
    simpa [Matching.take] using hbehind

private theorem subset_groups_take (m : Matching) (i : Nat) (t : Token α) : m.groups ⊆ (m.take i t).groups := by
  cases t with
  | closing => cases hm : m.opened <;> simp [Matching.take, hm]
  | _ => simp [Matching.take]

private theorem subset_groups_scan (m : Matching) (start : Nat) (ts : List (Token α)) :
    m.groups ⊆ (scan m start ts).groups := by
  induction ts generalizing m start with
  | nil => simp [scan_nil]
  | cons t ts ih => exact List.Subset.trans (subset_groups_take m start t) (ih _ _)

theorem opened_append_opening (before : List (Token α)) (hg : Balanced g) :
    (matching (before ++ .opening :: g)).opened = before.length :: (matching before).opened := by
  rw [matching_append, scan_cons]
  obtain ⟨groups, hscan⟩ := hg.scan_eq ((matching before).take before.length (.opening : Token α)) (before.length + 1)
  rw [hscan]
  rfl

private theorem Closed.opened_scan (h : Closed ts) (m : Matching) (start : Nat) (hm : m.opened = []) :
    (scan m start ts).opened = [] := by
  induction h generalizing m start with
  | balanced hg =>
    obtain ⟨groups, hscan⟩ := hg.scan_eq m start
    rw [hscan]
    exact hm
  | closing hg _ ih =>
    obtain ⟨groups, hscan⟩ := hg.scan_eq m start
    rw [scan_append, hscan, scan_cons]
    apply ih
    simp [Matching.take, hm]

theorem Closed.opened_eq_nil (h : Closed ts) : (matching ts).opened = [] :=
  h.opened_scan _ 0 rfl

theorem Balanced.stray_eq_nil (h : Balanced ts) : (matching ts).stray = [] := by
  obtain ⟨groups, hscan⟩ := h.scan_eq ⟨[], [], []⟩ 0
  change (scan _ 0 ts).stray = []
  rw [hscan]

theorem matching_concat (ts : List (Token α)) (t : Token α) :
    matching (ts ++ [t]) = (matching ts).take ts.length t := by
  rw [matching_append, scan_cons, scan_nil]

private theorem opened_take_subset (m : Matching) (i : Nat) (t : Token α) : (m.take i t).opened ⊆ i :: m.opened := by
  cases t with
  | closing => cases hm : m.opened <;> simp [Matching.take, hm]
  | _ => simp [Matching.take]

theorem lt_of_mem_opened {p : Nat} (h : p ∈ (matching ts).opened) : p < ts.length := by
  induction ts using List.reverseRecOn with
  | nil => simp [matching] at h
  | append_singleton ts t ih =>
    rw [matching_concat] at h
    rw [List.length_append, List.length_singleton]
    rcases List.mem_cons.1 (opened_take_subset _ _ _ h) with rfl | h
    · exact Nat.lt_succ_self _
    · exact Nat.lt_succ_of_lt (ih h)

theorem mem_groups_of_eq_append {p q : Nat} (hg : Balanced g) (hp : before.length = p) (hq : p + 1 + g.length = q)
    (hts : ts = before ++ .opening :: (g ++ .closing :: after)) : (p, q) ∈ (matching ts).groups := by
  subst hp hq hts
  obtain ⟨groups, hscan⟩ := hg.scan_eq ((matching before).take before.length (.opening : Token α)) (before.length + 1)
  rw [matching_append, scan_cons, scan_append, hscan, scan_cons]
  apply subset_groups_scan
  simp [Matching.take]

theorem exists_eq_append_of_mem_groups {p q : Nat} (h : (p, q) ∈ (matching ts).groups) :
    ∃ before g after, ts = before ++ .opening :: (g ++ .closing :: after) ∧ Balanced g ∧ before.length = p ∧
      p + 1 + g.length = q := by
  induction ts using List.reverseRecOn with
  | nil => simp [matching] at h
  | append_singleton ts t ih =>
    have hold (h : (p, q) ∈ (matching ts).groups) : ∃ before g after,
        ts ++ [t] = before ++ .opening :: (g ++ .closing :: after) ∧ Balanced g ∧ before.length = p ∧
          p + 1 + g.length = q := by
      obtain ⟨before, g, after, rfl, hg⟩ := ih h
      exact ⟨before, g, after ++ [t], by simp, hg⟩
    rw [matching_concat] at h
    by_cases ht : t = .closing
    · subst ht
      cases hopened : (matching ts).opened with
      | nil =>
        simp only [Matching.take, hopened] at h
        exact hold h
      | cons nearest opened =>
        simp only [Matching.take, hopened, List.mem_cons, Prod.mk.injEq] at h
        rcases h with ⟨rfl, rfl⟩ | h
        · rcases closed_or ts with hts | ⟨before, g, rfl, hg⟩
          · simp [hts.opened_eq_nil] at hopened
          · rw [opened_append_opening before hg] at hopened
            cases hopened
            exact ⟨before, g, [], by simp, hg, rfl, by simp; omega⟩
        · exact hold h
    · cases t with
      | closing => exact absurd rfl ht
      | _ => exact hold h

theorem between_eq (before g after : List (Token α)) :
    between (before ++ .opening :: (g ++ .closing :: after)) before.length (before.length + 1 + g.length) = g := by
  have htake : (before ++ .opening :: (g ++ .closing :: after)).take (before.length + 1 + g.length) =
      (before ++ [.opening]) ++ g := by
    have happend : before ++ .opening :: (g ++ .closing :: after) = ((before ++ [.opening]) ++ g) ++ .closing :: after := by
      simp
    rw [happend]
    exact List.take_left' (by simp; omega)
  rw [between, htake]
  exact List.drop_left' (by simp)

/-! ### Values of groups -/

theorem contents_eq_resolve {g : List (Token Number)} (hg : ∀ n, .operand n ∈ g → n.IsShort) :
    contents g = resolve g := by
  have hshort {v : Number} (h : resolve g = .ok v) : v.isWritable = true := (isShort_of_resolve hg h).isWritable
  rw [resolve_eq] at hshort ⊢
  rw [contents]
  cases hus : remaining g [] with
  | error e => rfl
  | ok us =>
    rw [hus, ok_bind] at hshort
    rw [ok_bind, ok_bind, groupValue]
    cases hv : Flat.value us with
    | error e => rfl
    | ok v => simp [Operand.isWritable, hshort hv]

theorem evaluatesBehind_of_remaining {ts : List (Token Number)} (hts : ∀ n, .operand n ∈ ts → n.IsShort)
    {xs ys us : List (Token Number)} {t : Token Number} (heq : ts = xs ++ t :: ys) (hus : remaining ys [] = .ok us) :
    EvaluatesBehind ts xs.length := by
  intro p q hgroup hp
  obtain ⟨before, g, after, hsplit, hg, rfl, rfl⟩ := exists_eq_append_of_mem_groups hgroup
  have hys : ys = before.drop (xs.length + 1) ++ .opening :: (g ++ .closing :: after) := by
    have hdrop : ts.drop (xs.length + 1) = ys := by simp [heq]
    rw [← hdrop, hsplit, List.drop_append_of_le_length hp]
  rw [hys] at hus
  obtain ⟨v, hv⟩ := hg.exists_contents hus
  rw [contents_eq_resolve fun n hn => hts n (by simp [hsplit, hn])] at hv
  exact ⟨v, by rw [hsplit, between_eq, hv]⟩

private theorem matched_groupValue (ts : List (Token Number)) : Matched (groupValue ts) := by
  refine (Flat.matched_value Sign.matched_apply ts).bind fun v _ => ?_
  split
  · trivial
  · simp [throw, throwThe, MonadExceptOf.throw, Meets]

theorem resolve_ne_unmatched {ts : List (Token Number)} (h : (matching ts).opened = []) :
    resolve ts ≠ .error (.evaluation .unmatchedParenthesis) := by
  intro hresolve
  rw [resolve_eq] at hresolve
  rcases bind_eq_error_iff.1 hresolve with herror | ⟨us, -, hvalue⟩
  · rcases stop_of_remaining herror with ⟨before, g, rfl, hg, -⟩ | ⟨before, g, after, -, hg, hcontents, us, hus⟩
    · simp [opened_append_opening before hg] at h
    · rw [hg.remaining_closing] at hus
      obtain ⟨vs, -, hus⟩ := bind_eq_ok_iff.1 hus
      obtain ⟨ws, hws, -⟩ := bind_eq_ok_iff.1 hus
      rw [contents, hws, ok_bind] at hcontents
      exact (matched_groupValue ws).ne hcontents
  · exact (Flat.matched_value Sign.matched_apply us).ne hvalue

/-- The last opening parenthesis without a partner has balanced tokens behind it. -/
theorem exists_eq_append_of_last {u : Nat} (hu : u ∈ (matching ts).opened) (hlast : ∀ p ∈ (matching ts).opened, p ≤ u) :
    ∃ before g, ts = before ++ .opening :: g ∧ Balanced g ∧ before.length = u := by
  rcases closed_or ts with hts | ⟨before, g, rfl, hg⟩
  · simp [hts.opened_eq_nil] at hu
  · refine ⟨before, g, rfl, hg, ?_⟩
    rw [opened_append_opening before hg] at hu hlast
    have hle := hlast before.length List.mem_cons_self
    rcases List.mem_cons.1 hu with hu | hu
    · exact hu.symm
    · have hlt := lt_of_mem_opened hu
      omega

private theorem resolve_unclosed {ts before g : List (Token Number)} (hts : ∀ n, .operand n ∈ ts → n.IsShort)
    (heq : ts = before ++ .opening :: g) (hg : Balanced g) :
    (EvaluatesBehind ts before.length ∧ resolve ts = .error (.evaluation .unmatchedParenthesis)) ∨
      ∃ p q e, (p, q) ∈ (matching ts).groups ∧ before.length < p ∧ resolve (between ts p q) = .error e ∧
        EvaluatesBehind ts p ∧ resolve ts = .error e := by
  have hresolve : resolve ts = remaining g [] >>= fun _ => .error (.evaluation .unmatchedParenthesis) := by
    rw [resolve_eq, heq, remaining_append, hg.remaining_unclosed, bind_assoc, bind_assoc]
    cases remaining g [] <;> rfl
  cases hus : remaining g [] with
  | ok us =>
    left
    exact ⟨evaluatesBehind_of_remaining hts heq hus, by rw [hresolve, hus, ok_bind]⟩
  | error e =>
    right
    rcases stop_of_remaining hus with ⟨xs, g', rfl, hg', -⟩ | ⟨xs, g', ys, rfl, hg', hcontents, us, hus'⟩
    · have hopened := (Closed.balanced hg).opened_eq_nil
      rw [opened_append_opening xs hg'] at hopened
      cases hopened
    · have hsplit : ts = (before ++ .opening :: xs) ++ .opening :: (g' ++ .closing :: ys) := by simp [heq]
      refine ⟨_, _, e, mem_groups_of_eq_append hg' rfl rfl hsplit, ?_, ?_, ?_, ?_⟩
      · simp
      · rw [hsplit, between_eq, ← contents_eq_resolve fun n hn => hts n (by simp [hsplit, hn]), hcontents]
      · exact evaluatesBehind_of_remaining hts hsplit hus'
      · rw [hresolve, hus, error_bind]

/-- Where some opening parenthesis has no partner, let the last such one be at `u`. There is no value: the failure is that of
the group that opens last among those behind `u` that have no value, or else that of the parenthesis. Without
such a parenthesis this failure does not occur, and no value is had where a closing one has no partner. -/
theorem resolve_unbalanced (ts : List (Token Number)) (hts : ∀ n, .operand n ∈ ts → n.IsShort) :
    (∀ u ∈ (matching ts).opened, (∀ p ∈ (matching ts).opened, p ≤ u) →
        (∀ v, resolve ts ≠ .ok v) ∧
          (EvaluatesBehind ts u → resolve ts = .error (.evaluation .unmatchedParenthesis)) ∧
          (¬EvaluatesBehind ts u → ∃ p q e, (p, q) ∈ (matching ts).groups ∧ u < p ∧
            resolve (between ts p q) = .error e ∧ EvaluatesBehind ts p ∧ resolve ts = .error e)) ∧
      ((matching ts).opened = [] → resolve ts ≠ .error (.evaluation .unmatchedParenthesis)) ∧
      ((matching ts).stray ≠ [] → ∀ v, resolve ts ≠ .ok v) := by
  refine ⟨?_, resolve_ne_unmatched, ?_⟩
  · intro u hu hlast
    obtain ⟨before, g, heq, hg, rfl⟩ := exists_eq_append_of_last hu hlast
    rcases resolve_unclosed hts heq hg with ⟨hbehind, hresolve⟩ | ⟨p, q, e, hgroup, hp, he, hbehind, hresolve⟩
    · refine ⟨?_, fun _ => hresolve, fun hnot => absurd hbehind hnot⟩
      intro v hv
      rw [hresolve] at hv
      cases hv
    · refine ⟨?_, ?_, fun _ => ⟨p, q, e, hgroup, hp, he, hbehind, hresolve⟩⟩
      · intro v hv
        rw [hresolve] at hv
        cases hv
      · intro hall
        obtain ⟨v, hv⟩ := hall p q hgroup hp
        rw [he] at hv
        cases hv
  · intro hstray v hv
    exact hstray (balanced_of_resolve hv).stray_eq_nil

/-- `)(1+(2/0)` fails as its last group does, not for the parenthesis that is left open in front of it. -/
theorem resolve_unbalanced_quotient :
    let ts : List (Token Number) := [.closing, .opening, .operand (.int 1), .sign .plus, .opening, .operand (.int 2),
      .sign .dividedBy, .operand (.int 0), .closing]
    (∀ n, .operand n ∈ ts → n.IsShort) ∧ matching ts = ⟨[1], [(4, 8)], [0]⟩ ∧ ¬EvaluatesBehind ts 1 ∧
      resolve ts = .error (.evaluation .divisionByZero) := by
  intro ts
  have hts : ∀ n, .operand n ∈ ts → n.IsShort := by
    intro n hn
    have hcases : n = .int 1 ∨ n = .int 2 ∨ n = .int 0 := by simpa [ts] using hn
    rcases hcases with rfl | rfl | rfl <;> exact (Number.bounded_of_bitLength_le (by decide)).isShort
  have hmatching : matching ts = ⟨[1], [(4, 8)], [0]⟩ := by decide
  have hquotient : resolve (between ts 4 8) = .error (.evaluation .divisionByZero) := by decide +kernel
  have hnot : ¬EvaluatesBehind ts 1 := by
    intro hall
    obtain ⟨v, hv⟩ := hall 4 8 (by simp [hmatching]) (by decide)
    rw [hquotient] at hv
    cases hv
  obtain ⟨-, -, hfails⟩ := (resolve_unbalanced ts hts).1 1 (by simp [hmatching]) (by simp [hmatching])
  obtain ⟨p, q, e, hgroup, -, he, -, hresolve⟩ := hfails hnot
  obtain ⟨rfl, rfl⟩ : p = 4 ∧ q = 8 := by simpa [hmatching] using hgroup
  rw [hquotient] at he
  cases he
  exact ⟨hts, hmatching, hnot, hresolve⟩

end Group
end Reckoner
