import Mathlib.Tactic.Common
import Reckoner.Expr.Passes
import Reckoner.Proofs.Expr.Counting
import Reckoner.Proofs.Expr.Group

/-!
# An evaluation comes through its passes

The step-by-step account of an evaluation and its outcome belong together: a step changes nothing about the outcome that a
pass or a stage leads to, and every outcome is come to through steps (`Flat.value_eq_ok_iff`, `Group.resolve_eq_ok_iff`,
`Group.resolve_eq_error_iff`). The loop over groups ends, and with what the one pass from right to left leads to that
resolution makes (`Group.Concludes.resolveTraced_eq`). So a property of values that signs keep is carried from the tokens to
every point on the way.
-/
namespace Reckoner

open Outcome

variable {α : Type} [Operand α]

/-! ### Points of a flat pass -/

namespace Flat

variable {ts : List (Token α)} {m m' : Moment α}

def outcome (m : Moment α) : Except Failure α := do
  let st ← scan m.waiting m.rest
  let st ← release 0 st.operands st.signs
  single st.operands

theorem release_of_head_lt {bar : Nat} {ss : List Sign} (h : ∀ top ∈ ss.head?, top.precedence < bar) (os : List α) :
    release bar os ss = .ok ⟨os, ss⟩ := by
  cases ss with
  | nil => rfl
  | cons s ss =>
    have hs : s.precedence < bar := h s rfl
    rw [release, if_neg (Nat.not_le.2 hs)]

theorem release_of_le {bar : Nat} {s : Sign} (h : bar ≤ s.precedence) (os : List α) (ss : List Sign) :
    release bar os (s :: ss) = applyTop s os >>= fun os' => release bar os' ss := by
  rw [release, if_pos h]

/-- Applying a sign that is due comes first in what a pass makes of a point. -/
theorem outcome_of_due {s : Sign} {rest : List (Token α)} (due : IsDue s rest) (os : List α) (ss : List Sign) (n : Nat) :
    outcome ⟨⟨os, s :: ss⟩, n, rest⟩ = applyTop s os >>= fun os' => outcome ⟨⟨os', ss⟩, n + 1, rest⟩ := by
  match rest, due with
  | [], _ =>
    change (release 0 os (s :: ss) >>= fun st => single st.operands) = _
    rw [release_of_le (Nat.zero_le _), bind_assoc]
    rfl
  | .sign next :: rest, due =>
    simp only [outcome, scan_cons, step, release_of_le due, bind_assoc]

theorem Step.outcome_eq (h : Step m m') : outcome m = outcome m' := by
  cases h with
  | operand => rfl
  | apply due result => rw [outcome_of_due due, result, ok_bind]
  | sign looser => simp only [outcome, scan_cons, step, release_of_head_lt looser, ok_bind, pure_eq_ok]

theorem Reaches.outcome_eq (h : Reaches ts m) : outcome m = value ts := by
  induction h with
  | start => rfl
  | step _ hstep ih => rw [← hstep.outcome_eq, ih]

theorem Reaches.release {rest : List (Token α)} {bar n : Nat} {os : List α} {ss : List Sign} {st : Stacks α}
    (h : Reaches ts ⟨⟨os, ss⟩, n, rest⟩) (hdue : ∀ s : Sign, bar ≤ s.precedence → IsDue s rest)
    (hrelease : release bar os ss = .ok st) :
    (∃ n', Reaches ts ⟨st, n', rest⟩) ∧ ∀ top ∈ st.signs.head?, top.precedence < bar := by
  induction ss generalizing os n with
  | nil =>
    cases hrelease
    exact ⟨⟨n, h⟩, by simp⟩
  | cons s ss ih =>
    by_cases hs : bar ≤ s.precedence
    · rw [release_of_le hs] at hrelease
      obtain ⟨os', hos', hrelease⟩ := bind_eq_ok_iff.1 hrelease
      exact ih (h.step (.apply (hdue s hs) hos')) hrelease
    · have hlt : s.precedence < bar := Nat.lt_of_not_le hs
      rw [release_of_head_lt (by simpa using hlt)] at hrelease
      cases hrelease
      exact ⟨⟨n, h⟩, by simpa using hlt⟩

theorem Reaches.scan {st st' : Stacks α} {n : Nat} {xs ys : List (Token α)} (h : Reaches ts ⟨st, n, xs ++ ys⟩)
    (hscan : scan st xs = .ok st') : ∃ n', Reaches ts ⟨st', n', ys⟩ := by
  induction xs generalizing st n with
  | nil =>
    cases hscan
    exact ⟨n, h⟩
  | cons x xs ih =>
    rw [scan_cons] at hscan
    obtain ⟨st₁, hstep, hscan⟩ := bind_eq_ok_iff.1 hscan
    cases x with
    | operand v =>
      cases hstep
      exact ih (h.step .operand) hscan
    | sign s =>
      obtain ⟨st₂, hrelease, hstep⟩ := bind_eq_ok_iff.1 hstep
      cases hstep
      obtain ⟨⟨n', hreaches⟩, hlooser⟩ := h.release (fun _ hs => hs) hrelease
      exact ih (hreaches.step (.sign hlooser)) hscan
    | opening => cases hstep
    | closing => cases hstep
    | other text => cases hstep

theorem exists_reaches_of_scan {st : Stacks α} {xs : List (Token α)} (h : scan .empty xs = .ok st) (ys : List (Token α)) :
    ∃ n, Reaches (xs ++ ys) ⟨st, n, ys⟩ :=
  Reaches.scan (.start : Reaches (xs ++ ys) ⟨.empty, 0, xs ++ ys⟩) h

/-- A pass has a value exactly if it comes to the point where only that value is left. -/
theorem value_eq_ok_iff {v : α} : value ts = .ok v ↔ ∃ n, Reaches ts ⟨⟨[v], []⟩, n, []⟩ := by
  constructor
  · intro h
    obtain ⟨st, hscan, h⟩ := bind_eq_ok_iff.1 h
    obtain ⟨st', hrelease, h⟩ := bind_eq_ok_iff.1 h
    obtain ⟨n, hreaches⟩ := exists_reaches_of_scan hscan []
    rw [List.append_nil] at hreaches
    obtain ⟨⟨n', hreaches⟩, -⟩ := hreaches.release (fun _ _ => trivial) hrelease
    have hsigns := signs_release_zero hrelease
    obtain ⟨os, ss⟩ := st'
    match os, h with
    | [w], h =>
      cases h
      cases hsigns
      exact ⟨n', hreaches⟩
  · rintro ⟨n, h⟩
    exact h.outcome_eq.symm

variable {P : α → Prop}

theorem forall_of_applyTop (hP : ∀ s a b v, P a → P b → Operand.apply s a b = .ok v → P v) {s : Sign} {os os' : List α}
    (h : applyTop s os = .ok os') (hos : ∀ v ∈ os, P v) : ∀ v ∈ os', P v := by
  obtain ⟨a, b, v, rest, rfl, hv, rfl⟩ := applyTop_eq_ok h
  obtain ⟨hb, ha, hrest⟩ : P b ∧ P a ∧ ∀ v ∈ rest, P v := by simpa using hos
  exact List.forall_mem_cons.2 ⟨hP s a b v ha hb hv, hrest⟩

theorem Reaches.forall_operands (hP : ∀ s a b v, P a → P b → Operand.apply s a b = .ok v → P v) (h : Reaches ts m)
    (hts : ∀ v, .operand v ∈ ts → P v) :
    (∀ v ∈ m.waiting.operands, P v) ∧ ∀ v, .operand v ∈ m.rest → P v := by
  induction h with
  | start => exact ⟨by simp [Moment.start, Stacks.empty], hts⟩
  | step _ hstep ih =>
    obtain ⟨hoperands, hrest⟩ := ih
    cases hstep with
    | operand =>
      refine ⟨List.forall_mem_cons.2 ⟨hrest _ List.mem_cons_self, hoperands⟩, ?_⟩
      exact fun v hv => hrest v (List.mem_cons_of_mem _ hv)
    | apply due result => exact ⟨forall_of_applyTop hP result hoperands, hrest⟩
    | sign looser => exact ⟨hoperands, fun v hv => hrest v (List.mem_cons_of_mem _ hv)⟩

theorem of_value (hP : ∀ s a b v, P a → P b → Operand.apply s a b = .ok v → P v) {v : α} (h : value ts = .ok v)
    (hts : ∀ v, .operand v ∈ ts → P v) : P v := by
  obtain ⟨n, hreaches⟩ := value_eq_ok_iff.1 h
  exact (hreaches.forall_operands hP hts).1 v (List.mem_singleton_self v)

theorem closing_notMem_of_value {v : α} (h : value ts = .ok v) : Token.closing ∉ ts := by
  intro hmem
  rcases (counts_of_value h).1 _ hmem with ht | ht <;> cases ht

end Flat

/-! ### Stages of groups -/

namespace Group

variable {ts us : List (Token α)} {v : α}

theorem remaining_of_notMem (h : .opening ∉ ts) (rest : List (Token α)) : remaining ts rest = .ok (ts ++ rest) := by
  induction ts with
  | nil => rfl
  | cons t ts ih =>
    obtain ⟨ht, hts⟩ := not_or.1 (List.mem_cons.not.1 h)
    rw [remaining_cons, ih hts, ok_bind, absorb_of_ne_opening (Ne.symm ht), List.cons_append]

theorem resolve_of_notMem (h : .opening ∉ ts) : resolve ts = Flat.value ts := by
  rw [resolve_eq, remaining_of_notMem h, ok_bind, List.append_nil]

theorem opening_notMem_of_remaining {rest : List (Token α)} (hrest : .opening ∉ rest) (h : remaining ts rest = .ok us) :
    .opening ∉ us := by
  induction ts generalizing us with
  | nil =>
    cases h
    exact hrest
  | cons t ts ih =>
    rw [remaining_cons] at h
    obtain ⟨vs, hvs, h⟩ := bind_eq_ok_iff.1 h
    have hnot := ih hvs
    by_cases ht : t = .opening
    · subst ht
      obtain ⟨inside, after, v, rfl, -, rfl⟩ := absorb_opening_eq_ok h
      simp only [List.mem_append, List.mem_cons, not_or] at hnot
      simp [hnot.2.2]
    · rw [absorb_of_ne_opening ht] at h
      cases h
      simp [hnot, Ne.symm ht]

theorem remaining_group {g : List (Token α)} (hg : resolve g = .ok v) (hw : Operand.isWritable v = true)
    (q rest : List (Token α)) :
    remaining (.opening :: (g ++ .closing :: q)) rest = remaining (.operand v :: q) rest := by
  rw [resolve_eq] at hg
  obtain ⟨us, hus, hvalue⟩ := bind_eq_ok_iff.1 hg
  have hgroup : groupValue us = .ok v := by
    rw [groupValue, hvalue, ok_bind, if_pos hw, pure_eq_ok]
  have hright (after : List (Token α)) : remaining g (.closing :: after) = .ok (us ++ .closing :: after) :=
    remaining_append_right hus (.closing :: after)
  have hclosing (after : List (Token α)) :
      absorb .opening (us ++ .closing :: after) = .ok (.operand v :: after) := by
    rw [absorb_opening (Flat.closing_notMem_of_value hvalue), hgroup, ok_bind]
  rw [remaining_cons, remaining_append, remaining_cons, remaining_cons, bind_assoc, bind_assoc]
  congr 1
  funext after
  rw [absorb_of_ne_opening (by simp), ok_bind, hright, ok_bind, hclosing, absorb_of_ne_opening (by simp)]

theorem resolve_append_group {g : List (Token α)} (hg : resolve g = .ok v) (hw : Operand.isWritable v = true)
    (p q : List (Token α)) :
    resolve (p ++ .opening :: (g ++ .closing :: q)) = resolve (p ++ .operand v :: q) := by
  rw [resolve_eq, resolve_eq, remaining_append, remaining_append, remaining_group hg hw]

omit [Operand α] in
theorem isLast_of_notMem {inside after : List (Token α)} (hopening : .opening ∉ inside ++ .closing :: after)
    (hclosing : .closing ∉ inside) (before : List (Token α)) :
    IsLast (before ++ .opening :: (inside ++ .closing :: after)) before inside after := by
  simp only [List.mem_append, List.mem_cons, not_or] at hopening
  exact ⟨rfl, by simp [hopening.1, hopening.2.2], hclosing⟩

/-! ### The loop and the pass from right to left -/

variable {before inside after : List (Token α)} {splices : List (Splice α)}

private theorem extend_cons (s : Splice α) (t : Token α) (i : Nat) (r : Reduction α) :
    extend t i { r with splices := s :: r.splices } =
      { extend t i r with splices := s :: (extend t i r).splices } := by
  cases hr : r.tokens with
  | error e => simp [extend, hr]
  | ok rest =>
    cases t with
    | opening =>
      cases hc : close rest with
      | error e => simp [extend, hr, hc]
      | ok p => simp [extend, hr, hc]
    | _ => simp [extend, hr]

private def fold (ts : List (Token α)) (start : Nat) (r : Reduction α) : Reduction α :=
  (ts.zipIdx start).foldr (fun p r => extend p.1 p.2 r) r

private theorem fold_append (xs ys : List (Token α)) (start : Nat) (r : Reduction α) :
    fold (xs ++ ys) start r = fold xs start (fold ys (start + xs.length) r) := by
  rw [fold, List.zipIdx_append, List.foldr_append]
  rfl

private theorem fold_cons (t : Token α) (ts : List (Token α)) (start : Nat) (r : Reduction α) :
    fold (t :: ts) start r = extend t start (fold ts (start + 1) r) := rfl

private theorem fold_splices_cons (s : Splice α) (ts : List (Token α)) (start : Nat) (r : Reduction α) :
    fold ts start { r with splices := s :: r.splices } =
      { fold ts start r with splices := s :: (fold ts start r).splices } := by
  induction ts generalizing start with
  | nil => rfl
  | cons t ts ih => rw [fold_cons, fold_cons, ih, extend_cons]

private theorem fold_of_notMem (h : .opening ∉ ts) (start : Nat) : fold ts start ⟨[], .ok []⟩ = ⟨[], .ok ts⟩ := by
  induction ts generalizing start with
  | nil => rfl
  | cons t ts ih =>
    obtain ⟨ht, hts⟩ := not_or.1 (List.mem_cons.not.1 h)
    rw [fold_cons, ih hts]
    cases t with
    | opening => exact absurd rfl ht
    | _ => rfl

private theorem fold_error (ts : List (Token α)) (start : Nat) (e : Failure) :
    fold ts start ⟨[], .error e⟩ = ⟨[], .error e⟩ := by
  induction ts generalizing start with
  | nil => rfl
  | cons t ts ih =>
    rw [fold_cons, ih]
    rfl

private theorem resolveTraced_of_fold {r : Reduction α} (h : fold ts 0 ⟨[], .ok []⟩ = r) :
    resolveTraced ts = (r.splices, r.tokens >>= Flat.value) := by
  rw [← h]
  rfl

theorem resolveTraced_of_notMem (h : .opening ∉ ts) : resolveTraced ts = ([], Flat.value ts) :=
  resolveTraced_of_fold (fold_of_notMem h 0)

theorem resolveTraced_of_close {e : Failure} (hopening : .opening ∉ after) (hclose : close after = .error e) :
    resolveTraced (before ++ .opening :: after) = ([], .error e) := by
  apply resolveTraced_of_fold (r := ⟨[], .error e⟩)
  have hlast : extend .opening before.length ⟨[], .ok after⟩ = (⟨[], .error e⟩ : Reduction α) := by
    simp only [extend, hclose]
  rw [fold_append, Nat.zero_add, fold_cons, fold_of_notMem hopening, hlast, fold_error]

theorem IsLast.resolveTraced_eq (group : IsLast us before inside after) (hv : groupValue inside = .ok v) :
    resolveTraced us = (⟨before.length, v⟩ :: (resolveTraced (before ++ .operand v :: after)).1,
      (resolveTraced (before ++ .operand v :: after)).2) := by
  obtain ⟨rfl, hopening, hclosing⟩ := group
  simp only [List.mem_append, not_or] at hopening
  have hclose : close (inside ++ .closing :: after) = .ok (v, after) := close_eq_ok_iff.2 ⟨inside, rfl, hclosing, hv⟩
  have hlast : extend .opening before.length ⟨[], .ok (inside ++ .closing :: after)⟩ =
      (⟨[⟨before.length, v⟩], .ok (.operand v :: after)⟩ : Reduction α) := by
    simp only [extend, hclose, List.nil_append]
  have hspliced : fold (before ++ .operand v :: after) 0 ⟨[], .ok []⟩ =
      fold before 0 ⟨[], .ok (.operand v :: after)⟩ := by
    rw [fold_append, fold_of_notMem (by simp [hopening.2])]
  have hwhole : fold (before ++ .opening :: (inside ++ .closing :: after)) 0 ⟨[], .ok []⟩ =
      fold before 0 ⟨[⟨before.length, v⟩], .ok (.operand v :: after)⟩ := by
    rw [fold_append, Nat.zero_add, fold_cons, fold_of_notMem (by simp [hopening.1, hopening.2]), hlast]
  rw [resolveTraced_of_fold hwhole, resolveTraced_of_fold hspliced,
    fold_splices_cons ⟨before.length, v⟩ before 0 ⟨[], .ok (.operand v :: after)⟩]

theorem Traced.resolveTraced_eq (h : Traced ts splices us) :
    resolveTraced ts = (splices ++ (resolveTraced us).1, (resolveTraced us).2) := by
  induction h with
  | start => rfl
  | pass _ group hv ih => rw [ih, group.resolveTraced_eq hv, List.append_assoc, List.singleton_append]

theorem Concludes.resolveTraced_eq {stop : Option Nat} {r : Except Failure α} (h : Concludes ts splices stop r) :
    resolveTraced ts = (splices, r) := by
  cases h with
  | flat traced flat => rw [traced.resolveTraced_eq, resolveTraced_of_notMem flat, List.append_nil]
  | @group us before inside after e traced group failure =>
    obtain ⟨rfl, hopening, hclosing⟩ := group
    have hclose : close (inside ++ .closing :: after) = .error e :=
      close_eq_error_iff.2 (.inr ⟨inside, after, rfl, hclosing, failure⟩)
    rw [traced.resolveTraced_eq, resolveTraced_of_close (by simpa using hopening) hclose, List.append_nil]
  | unmatched traced last unclosed =>
    have hclose := close_eq_error_iff.2 (.inl ⟨unclosed, rfl⟩)
    rw [traced.resolveTraced_eq, resolveTraced_of_close last hclose, List.append_nil]

omit [Operand α] in
private theorem exists_last_opening (h : .opening ∈ us) :
    ∃ before rest, us = before ++ .opening :: rest ∧ .opening ∉ rest := by
  induction us with
  | nil => simp at h
  | cons t us ih =>
    by_cases hus : .opening ∈ us
    · obtain ⟨before, rest, rfl, hrest⟩ := ih hus
      exact ⟨t :: before, rest, rfl, hrest⟩
    · have ht : .opening = t := by simpa [hus] using h
      exact ⟨[], us, by rw [ht]; rfl, hus⟩

/-- The loop comes to an end, since each pass leaves fewer tokens. -/
theorem Traced.exists_concludes (h : Traced ts splices us) : ∃ splices' stop r, Concludes ts splices' stop r := by
  induction hlength : us.length using Nat.strong_induction_on generalizing splices us with
  | _ length ih =>
    by_cases hopening : .opening ∈ us
    · obtain ⟨before, rest, rfl, hrest⟩ := exists_last_opening hopening
      cases hsplit : splitAtClosing rest with
      | none => exact ⟨_, _, _, .unmatched h hrest (splitAtClosing_eq_none_iff.1 hsplit)⟩
      | some parts =>
        obtain ⟨inside, after⟩ := parts
        obtain ⟨rfl, hclosing⟩ := eq_append_of_splitAtClosing hsplit
        have group : IsLast _ before inside after := isLast_of_notMem hrest hclosing before
        cases hv : groupValue inside with
        | error e => exact ⟨_, _, _, .group h group hv⟩
        | ok v =>
          have hless : (before ++ .operand v :: after).length < length := by
            rw [← hlength]
            simp only [List.length_append, List.length_cons]
            omega
          exact ih _ hless (h.pass group hv) rfl
    · exact ⟨_, _, _, .flat h hopening⟩

theorem exists_concludes (ts : List (Token α)) : ∃ splices stop r, Concludes ts splices stop r :=
  Traced.exists_concludes .start

/-! ### Stages -/

/-- Replacing groups changes nothing about how an evaluation ends. -/
theorem Stage.resolve_eq (h : Stage ts us) : resolve us = resolve ts := by
  obtain ⟨splices, htraced⟩ := h
  rw [resolve, resolve, htraced.resolveTraced_eq]

/-- An evaluation has a value exactly if it comes to a stage without groups that has the value. -/
theorem resolve_eq_ok_iff : resolve ts = .ok v ↔ ∃ us, Stage ts us ∧ .opening ∉ us ∧ Flat.value us = .ok v := by
  constructor
  · intro h
    obtain ⟨splices, stop, r, hconcludes⟩ := exists_concludes ts
    have hr : r = .ok v := by
      rw [← h, resolve, hconcludes.resolveTraced_eq]
    cases hconcludes with
    | flat traced flat => exact ⟨_, ⟨_, traced⟩, flat, hr⟩
    | group => cases hr
    | unmatched => cases hr
  · rintro ⟨us, hstage, hopening, hv⟩
    rw [← hstage.resolve_eq, resolve_of_notMem hopening, hv]

theorem resolve_eq_error_iff {e : Failure} : resolve ts = .error e ↔ Stops ts e := by
  constructor
  · intro h
    obtain ⟨splices, stop, r, hconcludes⟩ := exists_concludes ts
    have hr : r = .error e := by
      rw [← h, resolve, hconcludes.resolveTraced_eq]
    exact ⟨splices, stop, hr ▸ hconcludes⟩
  · rintro ⟨splices, stop, hconcludes⟩
    rw [resolve, hconcludes.resolveTraced_eq]

theorem Traced.exists_stage_of_mem (h : Traced ts splices us) {splice : Splice α} (hmem : splice ∈ splices) :
    ∃ us before inside after, Stage ts us ∧ IsLast us before inside after ∧
      groupValue inside = .ok splice.value ∧ splice.position = before.length := by
  induction h with
  | start => cases hmem
  | pass traced group hv ih =>
    rcases List.mem_append.1 hmem with hmem | hmem
    · exact ih hmem
    · obtain rfl := List.mem_singleton.1 hmem
      exact ⟨_, _, _, _, ⟨_, traced⟩, group, hv, rfl⟩

/-- Each recorded splice is the value of a group that was the last one at some stage, at the place where it opens. -/
theorem exists_stage_of_mem_splices {splice : Splice α} (h : splice ∈ (resolveTraced ts).1) :
    ∃ us before inside after, Stage ts us ∧ IsLast us before inside after ∧
      groupValue inside = .ok splice.value ∧ splice.position = before.length := by
  obtain ⟨splices, stop, r, hconcludes⟩ := exists_concludes ts
  rw [hconcludes.resolveTraced_eq] at h
  cases hconcludes with
  | flat traced => exact traced.exists_stage_of_mem h
  | group traced => exact traced.exists_stage_of_mem h
  | unmatched traced => exact traced.exists_stage_of_mem h

/-! ### Properties that signs keep -/

variable {P : α → Prop}

theorem Stage.forall_operands (hP : ∀ s a b v, P a → P b → Operand.apply s a b = .ok v → P v) (h : Stage ts us)
    (hts : ∀ v, .operand v ∈ ts → P v) : ∀ v, .operand v ∈ us → P v := by
  obtain ⟨splices, htraced⟩ := h
  induction htraced with
  | start => exact hts
  | @pass splices us before inside after w _ group hw ih =>
    obtain ⟨rfl, -, -⟩ := group
    have hinside : P w := Flat.of_value hP (value_of_groupValue hw) fun v hv => ih v (by simp [hv])
    intro v hv
    rcases List.mem_append.1 hv with hv | hv
    · exact ih v (List.mem_append_left _ hv)
    · rcases List.mem_cons.1 hv with heq | hv
      · cases heq
        exact hinside
      · exact ih v (by simp [hv])

theorem Pass.forall_operands (hP : ∀ s a b v, P a → P b → Operand.apply s a b = .ok v → P v) (h : Pass ts us)
    (hts : ∀ v, .operand v ∈ ts → P v) : ∀ v, .operand v ∈ us → P v := by
  cases h with
  | group stage group =>
    obtain ⟨rfl, -, -⟩ := group
    intro v hv
    exact stage.forall_operands hP hts v (by simp [hv])
  | whole stage => exact stage.forall_operands hP hts

end Group
end Reckoner
