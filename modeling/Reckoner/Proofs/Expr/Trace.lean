import Mathlib.Tactic.Common
import Reckoner.Expr.Trace
import Reckoner.Proofs.Expr.AnyOrder
import Reckoner.Proofs.Expr.Matching

/-!
# The trace tells the groups

The loop over the tokens at hand never changes what stands in front of the last opening parenthesis, and leaves none
behind it. So the places that it reports are places among the tokens that it began with, each of them that of a group
with the reported value, from right to left and without a gap (`Traced.progress`). Resolution records the same reports,
since it makes the same passes (`Concludes.resolveTraced_eq`).
-/
namespace Reckoner.Group

open Outcome

/-! ### What the loop reports -/

variable {ts us : List (Token Number)} {splices : List (Splice Number)}

theorem Traced.spliced (h : Traced ts splices us) : Spliced ts splices.length us := by
  induction h with
  | start => exact .start
  | pass _ group hv ih =>
    obtain ⟨heq, hopening, hclosing⟩ := group
    rw [List.length_append, List.length_singleton]
    exact ih.pass ⟨heq, fun hmem => hopening (List.mem_append_left _ hmem), hclosing⟩ (value_of_groupValue hv)

/-- The group that opens last, with what is left of the tokens behind its opening parenthesis, is a group of the tokens
as they were and has the value that they give it. -/
theorem exists_group_of_remaining (hts : ∀ n, .operand n ∈ ts → n.IsShort) {left tail inside after : List (Token Number)}
    (heq : ts = left ++ .opening :: tail) (hclosing : .closing ∉ inside)
    (hus : remaining tail [] = .ok (inside ++ .closing :: after)) :
    ∃ q, (left.length, q) ∈ (matching ts).groups ∧ resolve (between ts left.length q) = groupValue inside := by
  rcases closed_or tail with htail | ⟨before, g, rfl, hg⟩
  · cases htail with
    | balanced hg => exact absurd (by simp) (hg.closing_notMem hus)
    | @closing g q hg _ =>
      rw [hg.remaining_closing] at hus
      obtain ⟨vs, -, hus⟩ := bind_eq_ok_iff.1 hus
      obtain ⟨ws, hws, hus⟩ := bind_eq_ok_iff.1 hus
      have hsplit : splitAtClosing (ws ++ .closing :: vs) = splitAtClosing (inside ++ .closing :: after) :=
        congrArg splitAtClosing (Except.ok.inj hus)
      rw [splitAtClosing_append (hg.closing_notMem hws), splitAtClosing_append hclosing] at hsplit
      cases hsplit
      refine ⟨_, mem_groups_of_eq_append hg rfl rfl heq, ?_⟩
      rw [heq, between_eq, ← contents_eq_resolve fun n hn => hts n (by simp [heq, hn]), contents, hws, ok_bind]
  · exact absurd hus (hg.remaining_ne_ok before)

theorem mem_opened_of_remaining {left tail rest : List (Token Number)} (heq : ts = left ++ .opening :: tail)
    (hclosing : .closing ∉ rest) (hus : remaining tail [] = .ok rest) : left.length ∈ (matching ts).opened := by
  rcases closed_or tail with htail | ⟨before, g, rfl, hg⟩
  · cases htail with
    | balanced hg => simp [heq, opened_append_opening left hg]
    | @closing g q hg _ =>
      rw [hg.remaining_closing] at hus
      obtain ⟨vs, -, hus⟩ := bind_eq_ok_iff.1 hus
      obtain ⟨ws, -, hus⟩ := bind_eq_ok_iff.1 hus
      cases hus
      exact absurd (by simp) hclosing
  · exact absurd hus (hg.remaining_ne_ok before)

/-- The splices are those of all groups that open from a place on, from right to left. -/
structure ReportsFrom (ts : List (Token Number)) (place : Nat) (splices : List (Splice Number)) : Prop where
  decreasing : (splices.map (·.position)).Pairwise (· > ·)
  mem_iff : ∀ p, p ∈ splices.map (·.position) ↔ ts[p]? = some .opening ∧ place ≤ p
  values : ∀ s ∈ splices, ∃ q, (s.position, q) ∈ (matching ts).groups ∧ resolve (between ts s.position q) = .ok s.value

namespace ReportsFrom

variable {place : Nat}

theorem back (h : ReportsFrom ts place splices) {place' : Nat} (hle : place' ≤ place)
    (hnone : ∀ p, place' ≤ p → p < place → ts[p]? ≠ some .opening) : ReportsFrom ts place' splices where
  decreasing := h.decreasing
  mem_iff := by
    intro p
    rw [h.mem_iff]
    constructor
    · rintro ⟨hp, hplace⟩
      exact ⟨hp, Nat.le_trans hle hplace⟩
    · rintro ⟨hp, hplace⟩
      refine ⟨hp, ?_⟩
      by_contra hlt
      exact hnone p hplace (Nat.lt_of_not_le hlt) hp
  values := h.values

theorem report (h : ReportsFrom ts (place + 1) splices) (hplace : ts[place]? = some .opening) {v : Number}
    (hv : ∃ q, (place, q) ∈ (matching ts).groups ∧ resolve (between ts place q) = .ok v) :
    ReportsFrom ts place (splices ++ [⟨place, v⟩]) where
  decreasing := by
    rw [List.map_append, List.pairwise_append]
    refine ⟨h.decreasing, by simp, ?_⟩
    intro p hp q hq
    obtain rfl : q = place := by simpa using hq
    exact ((h.mem_iff p).1 hp).2
  mem_iff := by
    intro p
    rw [List.map_append, List.mem_append, h.mem_iff]
    constructor
    · rintro (⟨hp, hlt⟩ | hp)
      · exact ⟨hp, by omega⟩
      · obtain rfl : p = place := by simpa using hp
        exact ⟨hplace, Nat.le_refl _⟩
    · rintro ⟨hp, hle⟩
      rcases Nat.eq_or_lt_of_le hle with rfl | hlt
      · exact .inr (by simp)
      · exact .inl ⟨hp, hlt⟩
  values := by
    intro s hs
    rcases List.mem_append.1 hs with hs | hs
    · exact h.values s hs
    · obtain rfl := List.mem_singleton.1 hs
      exact hv

end ReportsFrom

/-- Some tokens in front are untouched. Behind them all groups have been reported and replaced. -/
structure Progress (ts us : List (Token Number)) (splices : List (Splice Number)) (before tail rest : List (Token Number)) :
    Prop where
  before_tail : ts = before ++ tail
  before_rest : us = before ++ rest
  remaining_tail : remaining tail [] = .ok rest
  reports : ReportsFrom ts before.length splices

/-- The opening parenthesis that is last at hand is where it was, and the groups behind it are those that were reported. -/
theorem Progress.last {before tail rest left right : List (Token Number)} (h : Progress ts us splices before tail rest)
    (heq : us = left ++ .opening :: right) (hlast : .opening ∉ right) :
    ∃ tail', Progress ts us splices (left ++ [.opening]) tail' right := by
  obtain ⟨hts, hus, htail, hreports⟩ := h
  have hrest : .opening ∉ rest := opening_notMem_of_remaining List.not_mem_nil htail
  obtain ⟨mid, rfl, rfl⟩ : ∃ mid, before = left ++ .opening :: mid ∧ right = mid ++ rest := by
    rcases List.append_eq_append_iff.1 (hus.symm.trans heq) with ⟨xs, -, hxs⟩ | ⟨xs, hxs, hright⟩
    · exact absurd (by simp [hxs]) hrest
    · cases xs with
      | nil =>
        rw [List.nil_append] at hright
        exact absurd (by simp [← hright]) hrest
      | cons t mid =>
        cases hright
        exact ⟨mid, hxs, rfl⟩
  have hmid : .opening ∉ mid := fun hmem => hlast (List.mem_append_left _ hmem)
  have hts' : ts = (left ++ [Token.opening]) ++ (mid ++ tail) := by simp [hts]
  refine ⟨mid ++ tail, hts', by simp [heq], ?_, ?_⟩
  · rw [remaining_append, htail, ok_bind, remaining_of_notMem hmid]
  · refine hreports.back (by simp) ?_
    intro p hle hlt hp
    have hlt' : p - (left ++ [Token.opening]).length < mid.length := by
      simp only [List.length_append, List.length_cons, List.length_nil] at hle hlt ⊢
      omega
    rw [hts', List.getElem?_append_right hle, List.getElem?_append_left hlt'] at hp
    exact hmid (List.mem_of_getElem? hp)

theorem Traced.progress (hts : ∀ n, .operand n ∈ ts → n.IsShort) (h : Traced ts splices us) :
    ∃ before tail rest, Progress ts us splices before tail rest := by
  induction h with
  | start =>
    refine ⟨ts, [], [], by simp, by simp, rfl, by simp, ?_, by simp⟩
    intro p
    simp only [List.map_nil, List.not_mem_nil, false_iff, not_and, Nat.not_le]
    exact fun hp => (List.getElem?_eq_some_iff.1 hp).1
  | @pass splices us left inside right v _ group hv ih =>
    obtain ⟨_, _, _, hprogress⟩ := ih
    obtain ⟨heq, hopening, hclosing⟩ := group
    obtain ⟨tail, hprogress⟩ := hprogress.last heq (by simpa using hopening)
    have hsplit : ts = left ++ .opening :: tail := by simp [hprogress.before_tail]
    have hgroup := exists_group_of_remaining hts hsplit hclosing hprogress.remaining_tail
    rw [hv] at hgroup
    have hreports : ReportsFrom ts (left.length + 1) splices := by simpa using hprogress.reports
    refine ⟨left, .opening :: tail, .operand v :: right, hsplit, rfl, ?_, hreports.report (by simp [hsplit]) hgroup⟩
    rw [remaining_cons, hprogress.remaining_tail, ok_bind, absorb_opening hclosing, hv, ok_bind]

/-! ### The end of the loop -/

variable {stop : Option Nat} {r : Except Failure Number}

private theorem Traced.reportsFrom_last (hts : ∀ n, .operand n ∈ ts → n.IsShort) (h : Traced ts splices us)
    {left right : List (Token Number)} (heq : us = left ++ .opening :: right) (hlast : .opening ∉ right) :
    ∃ tail, ts = left ++ .opening :: tail ∧ remaining tail [] = .ok right ∧
      ReportsFrom ts (left.length + 1) splices := by
  obtain ⟨_, _, _, hprogress⟩ := h.progress hts
  obtain ⟨tail, hprogress⟩ := hprogress.last heq hlast
  exact ⟨tail, by simp [hprogress.before_tail], hprogress.remaining_tail, by simpa using hprogress.reports⟩

theorem Concludes.exists_reportsFrom (hts : ∀ n, .operand n ∈ ts → n.IsShort) (h : Concludes ts splices stop r) :
    ∃ place, ReportsFrom ts place splices ∧ ∀ p, ts[p]? = some .opening → (place ≤ p ↔ ∀ q ∈ stop, q < p) := by
  cases h with
  | flat traced flat =>
    obtain ⟨before, tail, rest, hprogress⟩ := traced.progress hts
    obtain ⟨rfl, rfl, -, hreports⟩ := hprogress
    refine ⟨before.length, hreports, ?_⟩
    intro p hp
    simp only [Option.mem_def, reduceCtorEq, false_implies, implies_true, iff_true]
    by_contra hlt
    rw [List.getElem?_append_left (Nat.lt_of_not_le hlt)] at hp
    exact flat (List.mem_append_left _ (List.mem_of_getElem? hp))
  | group traced group =>
    obtain ⟨heq, hopening, -⟩ := group
    obtain ⟨-, -, -, hreports⟩ := traced.reportsFrom_last hts heq (by simpa using hopening)
    exact ⟨_, hreports, by simp⟩
  | unmatched traced last =>
    obtain ⟨-, -, -, hreports⟩ := traced.reportsFrom_last hts rfl last
    exact ⟨_, hreports, by simp⟩

theorem Concludes.stop_cases (hts : ∀ n, .operand n ∈ ts → n.IsShort) (h : Concludes ts splices stop r) :
    ∀ p ∈ stop, (p ∈ (matching ts).opened ∧ r = .error (.evaluation .unmatchedParenthesis)) ∨
      ∃ q e, (p, q) ∈ (matching ts).groups ∧ resolve (between ts p q) = .error e ∧ r = .error e := by
  cases h with
  | flat => simp
  | group traced group failure =>
    obtain ⟨heq, hopening, hclosing⟩ := group
    obtain ⟨tail, hsplit, htail, -⟩ := traced.reportsFrom_last hts heq (by simpa using hopening)
    obtain ⟨q, hgroup, hv⟩ := exists_group_of_remaining hts hsplit hclosing htail
    rintro p ⟨⟩
    exact .inr ⟨q, _, hgroup, hv.trans failure, rfl⟩
  | unmatched traced last unclosed =>
    obtain ⟨tail, hsplit, htail, -⟩ := traced.reportsFrom_last hts rfl last
    rintro p ⟨⟩
    exact .inl ⟨mem_opened_of_remaining hsplit unclosed htail, rfl⟩

/-! ### The trace -/

/-- At each point of the loop, what it has reported is the front of the trace, and there are at most as many reports as
opening parentheses. The loop ends, with the trace and the outcome of resolution. The places reported decrease, and they
are those of the opening parentheses behind the one at which the loop stops, or of all if it goes on to the tokens without
groups, as it does whenever there is a value. The value reported for a place is that of the group that opens there, and
place and value are what the record of a report says. A parenthesis at which the loop stops has no partner, or its group has
no value. -/
theorem trace_faithful (ts : List (Token Number)) (hts : ∀ n, .operand n ∈ ts → n.IsShort) :
    (∀ splices us, Traced ts splices us →
        splices <+: (resolveTraced ts).1 ∧ splices.length ≤ ts.count .opening) ∧
      (∃ stop, Concludes ts (resolveTraced ts).1 stop (resolveTraced ts).2) ∧
      ∀ splices stop r, Concludes ts splices stop r →
        resolveTraced ts = (splices, r) ∧
        resolveLogged ts = ⟨r, splices.map Splice.record⟩ ∧
        (splices.map Splice.record = splices.map fun s =>
          ⟨.debug, "🧮 Resolved group at token " ++ toString s.position ++ ": " ++ toString s.value⟩) ∧
        (splices.map (·.position)).Pairwise (· > ·) ∧
        (∀ p, p ∈ splices.map (·.position) ↔ ts[p]? = some .opening ∧ ∀ q ∈ stop, q < p) ∧
        (∀ s ∈ splices, ∃ q, (s.position, q) ∈ (matching ts).groups ∧
          resolve (between ts s.position q) = .ok s.value) ∧
        (∀ v, r = .ok v → stop = none) ∧
        ∀ p ∈ stop, (p ∈ (matching ts).opened ∧ r = .error (.evaluation .unmatchedParenthesis)) ∨
          ∃ q e, (p, q) ∈ (matching ts).groups ∧ resolve (between ts p q) = .error e ∧ r = .error e := by
  refine ⟨?_, ?_, ?_⟩
  · intro splices us htraced
    refine ⟨?_, ?_⟩
    · rw [htraced.resolveTraced_eq]
      exact List.prefix_append splices _
    · exact Nat.le.intro htraced.spliced.count_opening
  · obtain ⟨splices, stop, r, hconcludes⟩ := exists_concludes ts
    refine ⟨stop, ?_⟩
    rw [hconcludes.resolveTraced_eq]
    exact hconcludes
  · intro splices stop r hconcludes
    obtain ⟨place, hreports, hplace⟩ := hconcludes.exists_reportsFrom hts
    refine ⟨hconcludes.resolveTraced_eq, ?_, rfl, hreports.decreasing, ?_, hreports.values, ?_, hconcludes.stop_cases hts⟩
    · rw [resolveLogged, hconcludes.resolveTraced_eq, logged]
    · intro p
      rw [hreports.mem_iff]
      exact and_congr_right (hplace p)
    · rintro v rfl
      generalize hr : (Except.ok v : Except Failure Number) = r at hconcludes
      cases hconcludes with
      | flat => rfl
      | group => cases hr
      | unmatched => cases hr

/-- `(4/0)*((1+2)-3)` stops at its first group, with the two behind it reported by their places in this text. -/
theorem trace_faithful_quotient :
    let ts : List (Token Number) := [.opening, .operand (.int 4), .sign .dividedBy, .operand (.int 0), .closing,
      .sign .times, .opening, .opening, .operand (.int 1), .sign .plus, .operand (.int 2), .closing, .sign .minus,
      .operand (.int 3), .closing]
    let splices : List (Splice Number) := [⟨7, .int 3⟩, ⟨6, .int 0⟩]
    (∀ n, .operand n ∈ ts → n.IsShort) ∧
      Concludes ts splices (some 0) (.error (.evaluation .divisionByZero)) ∧
      resolveTraced ts = (splices, .error (.evaluation .divisionByZero)) ∧
      (resolveLogged ts).log = [⟨.debug, "🧮 Resolved group at token 7: 3"⟩,
        ⟨.debug, "🧮 Resolved group at token 6: 0"⟩] ∧
      (∀ p, p ∈ splices.map (·.position) ↔ ts[p]? = some .opening ∧ 0 < p) ∧
      ∀ s ∈ splices, ∃ q, (s.position, q) ∈ (matching ts).groups ∧ resolve (between ts s.position q) = .ok s.value := by
  intro ts splices
  have hts : ∀ n, .operand n ∈ ts → n.IsShort := by
    intro n hn
    have hcases : n = .int 4 ∨ n = .int 0 ∨ n = .int 1 ∨ n = .int 2 ∨ n = .int 3 := by simpa [ts] using hn
    rcases hcases with rfl | rfl | rfl | rfl | rfl <;> exact (Number.bounded_of_bitLength_le (by decide)).isShort
  have hsum : groupValue [.operand (.int 1), .sign .plus, .operand (.int 2)] = .ok (Number.int 3) := by decide +kernel
  have hdifference : groupValue [.operand (.int 3), .sign .minus, .operand (.int 3)] = .ok (Number.int 0) := by
    decide +kernel
  have hquotient : groupValue [.operand (.int 4), .sign .dividedBy, .operand (.int 0)] =
      (.error (.evaluation .divisionByZero) : Except Failure Number) := by decide +kernel
  have first : IsLast ts (ts.take 7) [.operand (.int 1), .sign .plus, .operand (.int 2)] (ts.drop 12) :=
    ⟨rfl, by decide, by decide⟩
  have second : IsLast (ts.take 7 ++ .operand (.int 3) :: ts.drop 12) (ts.take 6)
      [.operand (.int 3), .sign .minus, .operand (.int 3)] [] := ⟨rfl, by decide, by decide⟩
  have third : IsLast (ts.take 6 ++ [.operand (.int 0)]) [] [.operand (.int 4), .sign .dividedBy, .operand (.int 0)]
      [.sign .times, .operand (.int 0)] := ⟨rfl, by decide, by decide⟩
  have hconcludes : Concludes ts splices (some 0) (.error (.evaluation .divisionByZero)) :=
    .group ((Traced.start.pass first hsum).pass second hdifference) third hquotient
  obtain ⟨hresolve, hlogged, hrecords, -, hplaces, hvalues, -⟩ := (trace_faithful ts hts).2.2 _ _ _ hconcludes
  have hlog : (resolveLogged ts).log = [⟨.debug, "🧮 Resolved group at token 7: 3"⟩,
      ⟨.debug, "🧮 Resolved group at token 6: 0"⟩] := by
    rw [hlogged, hrecords]
    decide +kernel
  exact ⟨hts, hconcludes, hresolve, hlog, by simpa using hplaces, hvalues⟩

end Reckoner.Group
