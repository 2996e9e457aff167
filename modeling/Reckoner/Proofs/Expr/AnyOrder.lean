import Mathlib.Tactic.Common
import Reckoner.Expr.AnyOrder
import Reckoner.Proofs.Expr.Balance
import Reckoner.Proofs.Expr.Substitution

/-!
# The order of groups does not matter

A pass over any innermost group changes nothing about the outcome of resolution, so that all passes together do not,
whichever groups they pick (`Spliced.resolve_eq`). Two groups need no comparison with each other: each is compared with
resolution from the right. Passes use up opening parentheses one by one and so come to an end.
-/
namespace Reckoner.Group

open Outcome

variable {ts us before inside after : List (Token Number)} {n : Nat}

/-! ### Single passes -/

private theorem resolve_splice (hshort : ∀ m, .operand m ∈ us → m.IsShort) (group : IsInnermost us before inside after)
    {v : Number} (hv : Flat.value inside = .ok v) : v.IsShort ∧ resolve (before ++ .operand v :: after) = resolve us := by
  obtain ⟨rfl, hopening, -⟩ := group
  have hresolve : resolve inside = .ok v := (resolve_of_notMem hopening).trans hv
  have hv' : v.IsShort := isShort_of_resolve (fun m hm => hshort m (by simp [hm])) hresolve
  exact ⟨hv', (resolve_append_group hresolve hv'.isWritable before after).symm⟩

theorem IsInnermost.balanced (group : IsInnermost us before inside after) : Balanced inside :=
  balanced_of_notMem group.opening_notMem group.closing_notMem

theorem IsInnermost.exists_value (group : IsInnermost us before inside after) {v : Number} (h : resolve us = .ok v) :
    ∃ w, Flat.value inside = .ok w := by
  rw [resolve_eq, group.eq_append] at h
  obtain ⟨rest, hrest, -⟩ := bind_eq_ok_iff.1 h
  obtain ⟨w, hw⟩ := group.balanced.exists_contents hrest
  rw [contents, remaining_of_notMem group.opening_notMem, ok_bind, List.append_nil] at hw
  exact ⟨w, value_of_groupValue hw⟩

theorem Balanced.exists_isInnermost (h : Balanced us) (hopening : .opening ∈ us) :
    ∃ before inside after, IsInnermost us before inside after := by
  induction h with
  | nil => simp at hopening
  | @token t ts hne _ _ ih =>
    obtain ⟨before, inside, after, group⟩ := ih (by simpa [Ne.symm hne] using hopening)
    exact ⟨t :: before, inside, after, by simp [group.eq_append], group.opening_notMem, group.closing_notMem⟩
  | @group g q hg _ ih _ =>
    by_cases hinner : .opening ∈ g
    · obtain ⟨before, inside, after, group⟩ := ih hinner
      exact ⟨.opening :: before, inside, after ++ .closing :: q, by simp [group.eq_append], group.opening_notMem,
        group.closing_notMem⟩
    · have hclosing := hg.closing_notMem (remaining_of_notMem hinner [])
      exact ⟨[], g, q, rfl, hinner, by simpa using hclosing⟩

/-! ### Any number of passes -/

theorem Spliced.resolve_eq (h : Spliced ts n us) (hts : ∀ m, .operand m ∈ ts → m.IsShort) :
    (∀ m, .operand m ∈ us → m.IsShort) ∧ resolve us = resolve ts := by
  induction h with
  | start => exact ⟨hts, rfl⟩
  | pass _ group hv ih =>
    obtain ⟨hshort, heq⟩ := ih
    obtain ⟨hv', hsplice⟩ := resolve_splice hshort group hv
    refine ⟨?_, hsplice.trans heq⟩
    intro m hm
    obtain ⟨rfl, -, -⟩ := group
    rw [List.mem_append, List.mem_cons] at hm
    rcases hm with hm | hm | hm
    · exact hshort m (by simp [hm])
    · cases hm
      exact hv'
    · exact hshort m (by simp [hm])

theorem Spliced.count_opening (h : Spliced ts n us) : n + us.count .opening = ts.count .opening := by
  induction h with
  | start => simp
  | pass _ group _ ih =>
    obtain ⟨rfl, hopening, -⟩ := group
    have hinside := List.count_eq_zero_of_not_mem hopening
    simp [hinside] at ih ⊢
    omega

theorem Spliced.trans {k : Nat} {vs : List (Token Number)} (h : Spliced ts n us) (h' : Spliced us k vs) :
    Spliced ts (n + k) vs := by
  induction h' with
  | start => exact h
  | pass _ group hv ih => exact ih.pass group hv

theorem Spliced.yields {k : Nat} {r : Except Failure Number} (h : Spliced ts n us) (h' : Yields us k r) :
    Yields ts (n + k) r := by
  cases h' with
  | flat spliced hopening => exact .flat (h.trans spliced) hopening
  | group spliced group failure => exact .group (h.trans spliced) group failure
  | stuck spliced remains noGroup => exact .stuck (h.trans spliced) remains noGroup

/-- Passes come to an end, each taking an opening parenthesis away. -/
theorem exists_yields (us : List (Token Number)) : ∃ n r, Yields us n r := by
  induction hcount : us.count .opening using Nat.strong_induction_on generalizing us with
  | _ count ih =>
    by_cases hopening : .opening ∈ us
    · by_cases hgroup : ∃ before inside after, IsInnermost us before inside after
      · obtain ⟨before, inside, after, group⟩ := hgroup
        cases hv : Flat.value inside with
        | error e => exact ⟨1, _, .group .start group hv⟩
        | ok v =>
          have hpass : Spliced us 1 (before ++ .operand v :: after) := Spliced.start.pass group hv
          have hless : (before ++ .operand v :: after).count .opening < count := by
            have hpassed := hpass.count_opening
            omega
          obtain ⟨k, r, hr⟩ := ih _ hless _ rfl
          exact ⟨1 + k, r, hpass.yields hr⟩
      · refine ⟨0, _, .stuck .start hopening ?_⟩
        intro before inside after group
        exact hgroup ⟨before, inside, after, group⟩
    · exact ⟨0, _, .flat .start hopening⟩

theorem Yields.passes_le {r : Except Failure Number} (h : Yields ts n r) : n ≤ ts.count .opening := by
  cases h with
  | flat spliced => exact Nat.le.intro spliced.count_opening
  | stuck spliced => exact Nat.le.intro spliced.count_opening
  | @group n us before inside after e spliced group failure =>
    have hcount := spliced.count_opening
    have hpos : 0 < us.count .opening := List.count_pos_iff.2 (by simp [group.eq_append])
    omega

theorem Yields.eq_ok_iff {r : Except Failure Number} (h : Yields ts n r) (hts : ∀ m, .operand m ∈ ts → m.IsShort)
    (v : Number) : r = .ok v ↔ resolve ts = .ok v := by
  cases h with
  | flat spliced hopening => rw [← (spliced.resolve_eq hts).2, resolve_of_notMem hopening]
  | group spliced group failure =>
    rw [← (spliced.resolve_eq hts).2]
    refine ⟨by simp, ?_⟩
    intro hv
    obtain ⟨w, hw⟩ := group.exists_value hv
    rw [failure] at hw
    cases hw
  | stuck spliced remains noGroup =>
    rw [← (spliced.resolve_eq hts).2]
    refine ⟨by simp, ?_⟩
    intro hv
    obtain ⟨before, inside, after, group⟩ := (balanced_of_resolve hv).exists_isInnermost remains
    exact absurd group (noGroup before inside after)

/-- Whichever innermost group each pass picks, there are at most as many passes as opening parentheses, from every point they
come to an end, and the value, if there is one, is that of resolution. -/
theorem yields_eq_ok_iff (ts : List (Token Number)) (hts : ∀ m, .operand m ∈ ts → m.IsShort) :
    (∀ n us, Spliced ts n us → n ≤ ts.count .opening ∧ ∃ k r, Yields us k r ∧ Yields ts (n + k) r) ∧
      ∀ n r, Yields ts n r → n ≤ ts.count .opening ∧ ∀ v, r = .ok v ↔ resolve ts = .ok v := by
  constructor
  · intro n us h
    obtain ⟨k, r, hr⟩ := exists_yields us
    exact ⟨Nat.le.intro h.count_opening, k, r, hr, h.yields hr⟩
  · intro n r h
    exact ⟨h.passes_le, h.eq_ok_iff hts⟩

/-- `(1+2)*(3-4)` with the first group replaced first. -/
theorem yields_eq_ok_iff_leftmost :
    let ts : List (Token Number) := [.opening, .operand (.int 1), .sign .plus, .operand (.int 2), .closing, .sign .times,
      .opening, .operand (.int 3), .sign .minus, .operand (.int 4), .closing]
    (∀ m, .operand m ∈ ts → m.IsShort) ∧ Yields ts 2 (.ok (.int (-3))) ∧ 2 ≤ ts.count .opening ∧
      resolve ts = .ok (.int (-3)) := by
  intro ts
  have hts : ∀ m, .operand m ∈ ts → m.IsShort := by
    intro m hm
    have hcases : m = .int 1 ∨ m = .int 2 ∨ m = .int 3 ∨ m = .int 4 := by simpa [ts] using hm
    rcases hcases with rfl | rfl | rfl | rfl <;> exact (Number.bounded_of_bitLength_le (by decide)).isShort
  have hleft : Flat.value [.operand (.int 1), .sign .plus, .operand (.int 2)] = .ok (Number.int 3) := by decide +kernel
  have hright : Flat.value [.operand (.int 3), .sign .minus, .operand (.int 4)] = .ok (Number.int (-1)) := by
    decide +kernel
  have hwhole : Flat.value [.operand (.int 3), .sign .times, .operand (.int (-1))] = .ok (Number.int (-3)) := by
    decide +kernel
  have first : IsInnermost ts [] [.operand (.int 1), .sign .plus, .operand (.int 2)] (ts.drop 5) :=
    ⟨rfl, by decide, by decide⟩
  have second : IsInnermost (.operand (.int 3) :: ts.drop 5) [.operand (.int 3), .sign .times]
      [.operand (.int 3), .sign .minus, .operand (.int 4)] [] := ⟨rfl, by decide, by decide⟩
  have hspliced : Spliced ts 2 [.operand (.int 3), .sign .times, .operand (.int (-1))] :=
    (Spliced.start.pass first hleft).pass second hright
  have hyields : Yields ts 2 (.ok (.int (-3))) := hwhole ▸ Yields.flat hspliced (by decide)
  obtain ⟨hle, hiff⟩ := (yields_eq_ok_iff ts hts).2 2 _ hyields
  exact ⟨hts, hyields, hle, (hiff _).1 rfl⟩

end Reckoner.Group
