import Mathlib
import Reckoner.Proofs.Service.Exchange
import Reckoner.Service.Interleaving

/-!
# Every line is answered once

However a schedule runs, each line waits, has a worker at work or has one that is done, and no two of these, and no more
workers are at work than there are places. A pipe holds what its worker has done so far, and what was collected for a
line is how its worker ended (`Accounted`). A step changes one line at a time, so a finished schedule has an answer for
each line: the one that its worker sent, or the generic one.
-/
namespace Reckoner.Service.Interleaving

variable {ρ : Type} {limit : Nat} {lines : List Int} {st st' : State ρ}

/-! ### The accounts of a schedule -/

/-- What the pipe of a line holds once its worker has ended so: nothing, its message, or only the end. -/
inductive Holds (line : Int) : Pipe ρ → List (Option ρ) → Prop where
  | busy : Holds line {} []
  | sent (response : ρ) (closed : Bool) : Holds line ⟨[⟨line, response⟩], closed⟩ [some response]
  | silent : Holds line ⟨[], true⟩ [none]

theorem Holds.ends_eq_nil {line : Int} {ends : List (Option ρ)} (h : Holds line {} ends) : ends = [] := by
  cases h
  rfl

theorem Holds.eq_empty {line : Int} {pipe : Pipe ρ} {ends : List (Option ρ)} (h : Holds line pipe ends)
    (hready : ¬pipe.isReady = true) : pipe = {} := by
  cases h with
  | busy => rfl
  | sent response closed => exact absurd rfl hready
  | silent => exact absurd rfl hready

theorem Holds.close {line : Int} {m : Message ρ} {ends : List (Option ρ)} (h : Holds line ⟨[m], false⟩ ends) :
    Holds line ⟨[m], true⟩ ends := by
  cases h
  exact .sent _ true

/-- Each line is at one place, and what is known of it is how its worker ended. -/
structure Accounted (limit : Nat) (lines : List Int) (st : State ρ) : Prop where
  lines_perm : (st.waiting ++ st.pool.active.map (·.1) ++ st.pool.joined).Perm lines
  active_le : st.pool.active.length ≤ limit
  waiting_ends : ∀ line ∈ st.waiting, st.endsOf line = []
  active_holds : ∀ w ∈ st.pool.active, Holds w.1 w.2 (st.endsOf w.1)
  joined_ends : ∀ line ∈ st.pool.joined, ∃ e, st.endsOf line = [e] ∧ Keyed.get? line st.pool.responses = e
  others_none : ∀ line ∉ st.pool.joined, Keyed.get? line st.pool.responses = none

theorem accounted_start (limit : Nat) (lines : List Int) : Accounted limit lines (.start lines : State ρ) where
  lines_perm := by simp [State.start]
  active_le := Nat.zero_le _
  waiting_ends := fun _ _ => rfl
  active_holds := by simp [State.start]
  joined_ends := by simp [State.start]
  others_none := fun _ _ => rfl

namespace Accounted

variable (h : Accounted limit lines st)

include h

theorem nodup (hn : lines.Nodup) : (st.waiting ++ st.pool.active.map (·.1) ++ st.pool.joined).Nodup :=
  h.lines_perm.nodup_iff.2 hn

theorem mem_lines {w : Int × Pipe ρ} (hw : w ∈ st.pool.active) : w.1 ∈ lines := by
  have hnames : w.1 ∈ st.waiting ++ st.pool.active.map (·.1) := List.mem_append_right _ (List.mem_map_of_mem hw)
  exact h.lines_perm.mem_iff.1 (List.mem_append_left _ hnames)

theorem mem_lines_of_waiting {line : Int} (hline : line ∈ st.waiting) : line ∈ lines :=
  h.lines_perm.mem_iff.1 (List.mem_append_left _ (List.mem_append_left _ hline))

theorem nodup_active (hn : lines.Nodup) : (st.pool.active.map (·.1)).Nodup :=
  (List.nodup_append.1 (List.nodup_append.1 (h.nodup hn)).1).2.1

theorem notMem_waiting (hn : lines.Nodup) {w : Int × Pipe ρ} (hw : w ∈ st.pool.active) : w.1 ∉ st.waiting := by
  intro hmem
  have hnames : w.1 ∈ st.pool.active.map (·.1) := List.mem_map_of_mem hw
  exact (List.nodup_append.1 (List.nodup_append.1 (h.nodup hn)).1).2.2 _ hmem _ hnames rfl

theorem notMem_joined (hn : lines.Nodup) {w : Int × Pipe ρ} (hw : w ∈ st.pool.active) : w.1 ∉ st.pool.joined := by
  intro hmem
  have hnames : w.1 ∈ st.waiting ++ st.pool.active.map (·.1) := List.mem_append_right _ (List.mem_map_of_mem hw)
  exact (List.nodup_append.1 (h.nodup hn)).2.2 _ hnames _ hmem rfl

theorem eq_of_mem_active (hn : lines.Nodup) {w w' : Int × Pipe ρ} (hw : w ∈ st.pool.active)
    (hw' : w' ∈ st.pool.active) (heq : w.1 = w'.1) : w = w' :=
  List.inj_on_of_nodup_map (h.nodup_active hn) hw hw' heq

end Accounted

/-! ### Steps -/

theorem names_withPipe (p : Pool Int ρ) (line : Int) (f : Pipe ρ → Pipe ρ) :
    (p.withPipe line f).active.map (·.1) = p.active.map (·.1) := by
  rw [Pool.withPipe, List.map_map]
  apply List.map_congr_left
  rintro ⟨name, pipe⟩ -
  simp only [Function.comp_apply]
  split <;> rfl

theorem mem_withPipe {p : Pool Int ρ} {line : Int} {f : Pipe ρ → Pipe ρ} {w : Int × Pipe ρ}
    (hw : w ∈ (p.withPipe line f).active) :
    (w.1 ≠ line ∧ w ∈ p.active) ∨ ∃ pipe, (line, pipe) ∈ p.active ∧ w = (line, f pipe) := by
  obtain ⟨⟨name, pipe⟩, hmem, rfl⟩ := List.mem_map.1 hw
  by_cases hname : name = line
  · subst hname
    exact .inr ⟨pipe, hmem, by simp⟩
  · simp only [hname, if_false]
    exact .inl ⟨hname, hmem⟩

theorem Accounted.withPipe (h : Accounted limit lines st) (hn : lines.Nodup) {line : Int} {pipe : Pipe ρ}
    (hmem : (line, pipe) ∈ st.pool.active) {f : Pipe ρ → Pipe ρ} {ends : List (Int × Option ρ)}
    (hothers : ∀ other, other ≠ line → State.endsOf { st with ends := ends } other = st.endsOf other)
    (hholds : Holds line (f pipe) (State.endsOf { st with ends := ends } line)) :
    Accounted limit lines { st with pool := st.pool.withPipe line f, ends := ends } where
  lines_perm := by
    rw [names_withPipe]
    exact h.lines_perm
  active_le := by
    rw [Pool.withPipe, List.length_map]
    exact h.active_le
  waiting_ends := by
    intro other hother
    have hne : other ≠ line := fun heq => h.notMem_waiting hn hmem (heq ▸ hother)
    exact (hothers other hne).trans (h.waiting_ends other hother)
  active_holds := by
    intro w hw
    rcases mem_withPipe hw with ⟨hne, hw⟩ | ⟨pipe', hmem', rfl⟩
    · have hends := hothers w.1 hne
      change Holds w.1 w.2 (State.endsOf { st with ends := ends } w.1)
      rw [hends]
      exact h.active_holds w hw
    · have heq : (line, pipe') = (line, pipe) := h.eq_of_mem_active hn hmem' hmem rfl
      cases heq
      exact hholds
  joined_ends := by
    intro other hother
    have hne : other ≠ line := fun heq => h.notMem_joined hn hmem (heq ▸ hother)
    obtain ⟨e, he, hget⟩ := h.joined_ends other hother
    exact ⟨e, (hothers other hne).trans he, hget⟩
  others_none := h.others_none

theorem endsOf_append (st : State ρ) (line : Int) (e : Option ρ) (other : Int) :
    State.endsOf { st with ends := st.ends ++ [(line, e)] } other =
      if other = line then st.endsOf other ++ [e] else st.endsOf other := by
  by_cases heq : other = line
  · subst heq
    simp [State.endsOf]
  · simp [State.endsOf, heq, Ne.symm heq]

theorem Accounted.spawn {line : Int} {rest : List Int} {p : Pool Int ρ} {ends : List (Int × Option ρ)}
    (h : Accounted limit lines ⟨line :: rest, p, [], ends⟩) (free : p.active.length < limit) :
    Accounted limit lines ⟨rest, p.spawn line, [], ends⟩ where
  lines_perm := by
    have hmove : (rest ++ (p.active.map (·.1) ++ [line])).Perm (line :: rest ++ p.active.map (·.1)) := by
      rw [← List.append_assoc]
      exact List.perm_append_singleton ..
    have hperm := (hmove.append_right p.joined).trans h.lines_perm
    simpa [Pool.spawn] using hperm
  active_le := by
    simp only [Pool.spawn, List.length_append, List.length_singleton]
    exact free
  waiting_ends := fun other hother => h.waiting_ends other (List.mem_cons_of_mem _ hother)
  active_holds := by
    intro w hw
    rcases List.mem_append.1 hw with hw | hw
    · exact h.active_holds w hw
    · obtain rfl := List.mem_singleton.1 hw
      have hends : State.endsOf (⟨rest, p.spawn line, [], ends⟩ : State ρ) line = [] :=
        h.waiting_ends line List.mem_cons_self
      rw [hends]
      exact .busy
  joined_ends := h.joined_ends
  others_none := h.others_none

private theorem perm_filter_names {ws : List (Int × Pipe ρ)} (hn : (ws.map (·.1)).Nodup) {w : Int × Pipe ρ}
    (hw : w ∈ ws) : (ws.map (·.1)).Perm (w.1 :: (ws.filter fun w' => w'.1 ≠ w.1).map (·.1)) := by
  have herase : (ws.map (·.1)).erase w.1 = (ws.filter fun w' => w'.1 ≠ w.1).map (·.1) := by
    rw [hn.erase_eq_filter, List.filter_map]
    congr 1
    apply List.filter_congr
    intro w' _
    rw [Function.comp_apply, decide_not, bne, beq_eq_decide]
  rw [← herase]
  exact List.perm_cons_erase (List.mem_map_of_mem hw)

private theorem exists_visit {line : Int} {pipe : Pipe ρ} {ends : List (Option ρ)} (hholds : Holds line pipe ends)
    (ready : pipe.isReady = true) (p : Pool Int ρ) : ∃ e, ends = [e] ∧
      (Pool.visit (line, pipe) p).active = p.active ∧ (Pool.visit (line, pipe) p).joined = p.joined ++ [line] ∧
      (∀ other, other ≠ line →
        Keyed.get? other (Pool.visit (line, pipe) p).responses = Keyed.get? other p.responses) ∧
      (Keyed.get? line p.responses = none → Keyed.get? line (Pool.visit (line, pipe) p).responses = e) := by
  cases hholds with
  | busy => cases ready
  | sent response closed =>
    refine ⟨some response, rfl, rfl, rfl, ?_, ?_⟩
    · intro other hne
      exact Keyed.get?_assign_of_ne hne ..
    · intro _
      exact Keyed.get?_assign_self ..
  | silent => exact ⟨none, rfl, rfl, rfl, fun _ _ => rfl, id⟩

theorem Accounted.take {waiting before toVisit : List Int} {line : Int} {p : Pool Int ρ}
    {ends : List (Int × Option ρ)} {pipe : Pipe ρ} (h : Accounted limit lines ⟨waiting, p, toVisit, ends⟩)
    (hn : lines.Nodup) (active : (line, pipe) ∈ p.active) (ready : pipe.isReady = true) :
    Accounted limit lines
      ⟨waiting, Pool.visit (line, pipe) { p with active := p.active.filter fun w => w.1 ≠ line }, before, ends⟩ := by
  obtain ⟨e, hends, hactive, hjoined, hothers, hline⟩ :=
    exists_visit (h.active_holds _ active) ready { p with active := p.active.filter fun w => w.1 ≠ line }
  have hnone : Keyed.get? line p.responses = none := h.others_none line (h.notMem_joined hn active)
  constructor
  · have hnames := perm_filter_names (h.nodup_active hn) active
    have hmove : ((p.active.filter fun w => w.1 ≠ line).map (·.1) ++ (p.joined ++ [line])).Perm
        (p.active.map (·.1) ++ p.joined) := by
      rw [← List.append_assoc]
      exact (List.perm_append_singleton ..).trans (hnames.symm.append_right p.joined)
    have hperm := (hmove.append_left waiting).trans ((List.append_assoc ..) ▸ h.lines_perm)
    rw [hactive, hjoined, List.append_assoc]
    exact hperm
  · rw [hactive]
    exact (List.length_filter_le ..).trans h.active_le
  · exact h.waiting_ends
  · intro w hw
    rw [hactive] at hw
    exact h.active_holds w (List.mem_of_mem_filter hw)
  · intro other hother
    rw [hjoined, List.mem_append, List.mem_singleton] at hother
    rcases hother with hother | rfl
    · have hne : other ≠ line := fun heq => h.notMem_joined hn active (heq ▸ hother)
      obtain ⟨e', he', hget⟩ := h.joined_ends other hother
      exact ⟨e', he', (hothers other hne).trans hget⟩
    · exact ⟨e, hends, hline hnone⟩
  · intro other hother
    rw [hjoined, List.mem_append, List.mem_singleton, not_or] at hother
    exact (hothers other hother.2).trans (h.others_none other hother.1)

theorem Accounted.ended (h : Accounted limit lines st) (hn : lines.Nodup) {line : Int} (busy : IsBusy line st.pool)
    {f : Pipe ρ → Pipe ρ} {e : Option ρ} (hholds : Holds line (f {}) [e]) :
    Accounted limit lines { st with pool := st.pool.withPipe line f, ends := st.ends ++ [(line, e)] } := by
  have hnone : st.endsOf line = [] := (h.active_holds _ busy).ends_eq_nil
  refine h.withPipe hn busy ?_ ?_
  · intro other hne
    rw [endsOf_append, if_neg hne]
  · rw [endsOf_append, if_pos rfl, hnone]
    exact hholds

theorem Accounted.hungUp (h : Accounted limit lines st) (hn : lines.Nodup) {line : Int} {m : Message ρ}
    (sent : (line, ⟨[m], false⟩) ∈ st.pool.active) :
    Accounted limit lines { st with pool := st.pool.close line } := by
  refine h.withPipe hn sent (fun _ _ => rfl) ?_
  exact (h.active_holds _ sent).close

theorem Accounted.step (h : Accounted limit lines st) (hn : lines.Nodup) (hstep : Step limit st st') :
    Accounted limit lines st' := by
  cases hstep with
  | spawn free => exact h.spawn free
  | send response busy => exact h.ended hn busy (.sent response false)
  | close busy => exact h.ended hn busy .silent
  | hangUp sent => exact h.hungUp hn sent
  | collect full => exact ⟨h.lines_perm, h.active_le, h.waiting_ends, h.active_holds, h.joined_ends, h.others_none⟩
  | take active ready => exact h.take hn active ready
  | skip => exact ⟨h.lines_perm, h.active_le, h.waiting_ends, h.active_holds, h.joined_ends, h.others_none⟩

theorem Reachable.accounted (h : Reachable limit lines st) (hn : lines.Nodup) : Accounted limit lines st := by
  induction h with
  | start => exact accounted_start limit lines
  | step _ hstep ih => exact ih.step hn hstep

/-! ### No schedule is stuck -/

abbrev Steps (limit : Nat) : State ρ → State ρ → Prop :=
  Relation.ReflTransGen (Step limit)

theorem Reachable.steps (h : Reachable limit lines st) (hsteps : Steps limit st st') : Reachable limit lines st' := by
  induction hsteps with
  | refl => exact h
  | tail _ hstep ih => exact .step ih hstep

variable {waiting : List Int} {p : Pool Int ρ} {ends : List (Int × Option ρ)}

theorem steps_skip (before after : List Int) :
    Steps limit ⟨waiting, p, before ++ after, ends⟩ ⟨waiting, p, before, ends⟩ := by
  induction after using List.reverseRecOn with
  | nil =>
    rw [List.append_nil]
  | append_singleton after line ih =>
    rw [← List.append_assoc]
    exact .head .skip ih

theorem visit_active {name : Int} {pipe : Pipe ρ} (ready : pipe.isReady = true) (p : Pool Int ρ) :
    (Pool.visit (name, pipe) p).active = p.active := by
  simp only [Pool.visit, ready, if_true]
  split <;> rfl

theorem exists_steps_take (full : waiting = [] ∨ limit ≤ p.active.length) {line : Int} {pipe : Pipe ρ}
    (active : (line, pipe) ∈ p.active) (ready : pipe.isReady = true) :
    ∃ p', Steps limit ⟨waiting, p, [], ends⟩ ⟨waiting, p', [], ends⟩ ∧ p'.active.length < p.active.length := by
  have hname : line ∈ p.active.map (·.1) := List.mem_map_of_mem active
  obtain ⟨before, after, hnames⟩ := List.append_of_mem hname
  refine ⟨Pool.visit (line, pipe) { p with active := p.active.filter fun w => w.1 ≠ line }, ?_, ?_⟩
  · refine .head (.collect full) ?_
    rw [hnames, ← List.singleton_append, ← List.append_assoc]
    refine (steps_skip (before ++ [line]) after).trans ?_
    exact .head (.take active ready) (steps_skip [] before)
  · rw [visit_active ready, List.length_filter_lt_length_iff_exists]
    exact ⟨(line, pipe), active, by simp⟩

theorem exists_step_end {line : Int} {toVisit : List Int} (busy : IsBusy line p) (e : Option ρ) :
    ∃ f : Pipe ρ → Pipe ρ, (f {}).isReady = true ∧
      Step limit ⟨waiting, p, toVisit, ends⟩ ⟨waiting, p.withPipe line f, toVisit, ends ++ [(line, e)]⟩ := by
  cases e with
  | some response => exact ⟨(·.send ⟨line, response⟩), rfl, .send response busy⟩
  | none => exact ⟨(·.close), rfl, .close busy⟩

section

variable {P : Int × Option ρ → Prop} (hP : ∀ line ∈ lines, ∃ e, P (line, e))

include hP

/-- A full schedule may go on to have one worker less, which ends in one of the allowed ways if it has not ended. -/
theorem exists_steps_leave (h : Accounted limit lines ⟨waiting, p, [], ends⟩)
    (full : waiting = [] ∨ limit ≤ p.active.length) (hne : p.active ≠ []) (hends : ∀ e ∈ ends, P e) :
    ∃ p' ends', Steps limit ⟨waiting, p, [], ends⟩ ⟨waiting, p', [], ends'⟩ ∧ p'.active.length < p.active.length ∧
      ∀ e ∈ ends', P e := by
  obtain ⟨⟨line, pipe⟩, ws, hws⟩ := List.exists_cons_of_ne_nil hne
  have hmem : (line, pipe) ∈ p.active := hws ▸ List.mem_cons_self
  by_cases ready : pipe.isReady = true
  · obtain ⟨p', hsteps, hlt⟩ := exists_steps_take full hmem ready
    exact ⟨p', ends, hsteps, hlt, hends⟩
  · obtain rfl : pipe = {} := (h.active_holds _ hmem).eq_empty ready
    obtain ⟨e, he⟩ := hP line (h.mem_lines hmem)
    have hexists : ∃ f : Pipe ρ → Pipe ρ, (f {}).isReady = true ∧
        Step limit ⟨waiting, p, [], ends⟩ ⟨waiting, p.withPipe line f, [], ends ++ [(line, e)]⟩ :=
      exists_step_end hmem e
    obtain ⟨f, hready, hend⟩ := hexists
    have hlen : (p.withPipe line f).active.length = p.active.length := List.length_map ..
    have hchanged : (line, f {}) ∈ (p.withPipe line f).active := List.mem_map.2 ⟨_, hmem, by simp⟩
    obtain ⟨p', hsteps, hlt⟩ := exists_steps_take (hlen ▸ full) hchanged hready
    refine ⟨p', ends ++ [(line, e)], .head hend hsteps, hlen ▸ hlt, ?_⟩
    intro e' he'
    rcases List.mem_append.1 he' with he' | he'
    · exact hends e' he'
    · exact List.mem_singleton.1 he' ▸ he

/-- From wherever a schedule has come to, it may come to its end, and the workers that have not ended yet may do so in any
of the allowed ways. A schedule without lines needs no place. -/
theorem exists_steps_ends (h : Reachable limit lines st) (hn : lines.Nodup) (hlimit : lines ≠ [] → 1 ≤ limit)
    (hends : ∀ e ∈ st.ends, P e) : ∃ st', Steps limit st st' ∧ st'.IsFinished ∧ ∀ e ∈ st'.ends, P e := by
  induction hk : 2 * st.waiting.length + st.pool.active.length using Nat.strong_induction_on generalizing st with
  | _ k ih =>
    obtain ⟨waiting, p, toVisit, ends⟩ := st
    have hskip : Steps limit ⟨waiting, p, toVisit, ends⟩ ⟨waiting, p, [], ends⟩ := steps_skip [] toVisit
    have hvisited := h.steps hskip
    -- One more step or round makes the number of lines to come, or of workers at work, smaller.
    have hnext (st' : State ρ) (hsteps : Steps limit ⟨waiting, p, [], ends⟩ st')
        (hlt : 2 * st'.waiting.length + st'.pool.active.length < k) (hends' : ∀ e ∈ st'.ends, P e) :
        ∃ st'', Steps limit ⟨waiting, p, toVisit, ends⟩ st'' ∧ st''.IsFinished ∧ ∀ e ∈ st''.ends, P e := by
      obtain ⟨st'', hsteps', hfinished⟩ := ih _ hlt (hvisited.steps hsteps) hends' rfl
      exact ⟨st'', (hskip.trans hsteps).trans hsteps', hfinished⟩
    dsimp only at hk
    by_cases hfull : waiting = [] ∨ limit ≤ p.active.length
    · by_cases hactive : p.active = []
      · have hwaiting : waiting = [] := by
          by_contra hne
          obtain ⟨line, hline⟩ := List.exists_mem_of_ne_nil _ hne
          have hpos := hlimit (List.ne_nil_of_mem ((hvisited.accounted hn).mem_lines_of_waiting hline))
          have hle := hfull.resolve_left hne
          rw [hactive, List.length_nil] at hle
          omega
        exact ⟨_, hskip, ⟨hwaiting, hactive, rfl⟩, hends⟩
      · obtain ⟨p', ends', hsteps, hlt, hends'⟩ := exists_steps_leave hP (hvisited.accounted hn) hfull hactive hends
        exact hnext _ hsteps (by dsimp only; omega) hends'
    · obtain ⟨hne, hfree⟩ := not_or.1 hfull
      obtain ⟨line, rest, rfl⟩ := List.exists_cons_of_ne_nil hne
      refine hnext _ (.single (.spawn (Nat.lt_of_not_le hfree))) ?_ hends
      simp only [Pool.spawn, List.length_append, List.length_cons, List.length_nil] at hk ⊢
      omega

end

theorem exists_steps_isFinished (h : Reachable limit lines st) (hn : lines.Nodup) (hlimit : 1 ≤ limit) :
    ∃ st', Steps limit st st' ∧ st'.IsFinished := by
  have hany : ∀ line ∈ lines, ∃ _e : Option ρ, True := fun _ _ => ⟨none, trivial⟩
  obtain ⟨st', hsteps, hfinished, -⟩ := exists_steps_ends hany h hn (fun _ => hlimit) fun _ _ => trivial
  exact ⟨st', hsteps, hfinished⟩

/-! ### The run that is computed -/

private theorem filter_concat {ws : List (Int × Pipe ρ)} {w : Int × Pipe ρ} (hn : ((ws ++ [w]).map (·.1)).Nodup) :
    (ws ++ [w]).filter (fun w' => w'.1 ≠ w.1) = ws := by
  rw [List.map_append, List.nodup_append] at hn
  have hall : ∀ w' ∈ ws, decide (w'.1 ≠ w.1) = true := by
    intro w' hw'
    exact decide_eq_true (hn.2.2 _ (List.mem_map_of_mem hw') _ (by simp))
  rw [List.filter_append, List.filter_eq_self.2 hall]
  simp

private theorem visit_withActive {w : Int × Pipe ρ} (ready : w.2.isReady = true) (p : Pool Int ρ)
    (ws : List (Int × Pipe ρ)) :
    Pool.visit w { p with active := ws } = { Pool.visit w { p with active := [] } with active := ws } := by
  obtain ⟨name, pipe⟩ := w
  simp only [Pool.visit, ready, if_true]
  split <;> rfl

theorem steps_sweep {ws : List (Int × Pipe ρ)} (hn : (ws.map (·.1)).Nodup) (ready : ∀ w ∈ ws, w.2.isReady = true)
    (p : Pool Int ρ) :
    Steps limit ⟨waiting, { p with active := ws }, ws.map (·.1), ends⟩
      ⟨waiting, ws.foldr Pool.visit { p with active := [] }, [], ends⟩ := by
  induction ws using List.reverseRecOn generalizing p with
  | nil => exact .refl
  | append_singleton ws w ih =>
    have hw : w.2.isReady = true := ready w (by simp)
    have hws : (ws.map (·.1)).Nodup := by
      rw [List.map_append, List.nodup_append] at hn
      exact hn.1
    have hactive : { Pool.visit w { p with active := [] } with active := [] } = Pool.visit w { p with active := [] } := by
      rw [← visit_withActive hw]
    have htake : Steps limit ⟨waiting, { p with active := ws ++ [w] }, ws.map (·.1) ++ [w.1], ends⟩
        ⟨waiting, { Pool.visit w { p with active := [] } with active := ws }, ws.map (·.1), ends⟩ := by
      rw [← visit_withActive hw]
      have hfilter := filter_concat hn
      have hstep : Step limit ⟨waiting, { p with active := ws ++ [w] }, ws.map (·.1) ++ [w.1], ends⟩
          ⟨waiting, Pool.visit w { p with active := (ws ++ [w]).filter fun w' => w'.1 ≠ w.1 }, ws.map (·.1), ends⟩ :=
        .take (by simp) hw
      rw [hfilter] at hstep
      exact .single hstep
    have hrest := ih hws (fun w' hw' => ready w' (List.mem_append_left _ hw')) (Pool.visit w { p with active := [] })
    rw [hactive] at hrest
    rw [List.map_append, List.foldr_append]
    exact htake.trans hrest

theorem steps_collect (full : waiting = [] ∨ limit ≤ p.active.length) (hn : (p.active.map (·.1)).Nodup)
    (ready : ∀ w ∈ p.active, w.2.isReady = true) :
    Steps limit ⟨waiting, p, [], ends⟩ ⟨waiting, p.collect, [], ends⟩ :=
  .head (.collect full) (steps_sweep hn ready p)

section Computed

open Schedule

variable {answer : Worker → Answer} {p : Pool Int Answer} {done working : List Worker} {ends : List (Int × Option Answer)}

private theorem collect_of_keeps (h : Keeps answer p done working)
    (hn : ((done ++ working).map (·.lineNumber)).Nodup) (full : waiting = [] ∨ limit ≤ p.active.length) :
    Steps limit ⟨waiting, p, [], ends⟩ ⟨waiting, p.collect, [], ends⟩ := by
  have hnames : p.active.map (·.1) = working.map (·.lineNumber) := by
    rw [h.active, List.map_map]
    rfl
  refine steps_collect full ?_ ?_
  · rw [List.map_append, List.nodup_append] at hn
    rw [hnames]
    exact hn.2.1
  · intro w hw
    rw [h.active] at hw
    obtain ⟨worker, -, rfl⟩ := List.mem_map.1 hw
    rfl

private theorem steps_spawn_send (free : p.active.length < limit) (w : Worker) :
    Steps limit ⟨w.lineNumber :: waiting, p, [], ends⟩
      ⟨waiting, (p.spawn w.lineNumber).send w.lineNumber ⟨w.lineNumber, answer w⟩, [],
        ends ++ [(w.lineNumber, some (answer w))]⟩ := by
  have busy : IsBusy w.lineNumber (p.spawn w.lineNumber) := List.mem_append_right _ (List.mem_singleton_self _)
  exact .head (.spawn free) (.single (.send (answer w) busy))

private theorem steps_engage (hlimit : 1 ≤ limit) (h : Keeps answer p done working) {w : Worker}
    (hn : ((done ++ working).map (·.lineNumber)).Nodup) :
    Steps limit ⟨w.lineNumber :: waiting, p, [], ends⟩
      ⟨waiting, engage limit answer p w, [], ends ++ [(w.lineNumber, some (answer w))]⟩ := by
  unfold engage
  split
  · next hfull =>
    have hempty : p.collect.active.length < limit := by
      rw [(h.collect hn).active, List.map_nil]
      exact hlimit
    exact (collect_of_keeps h hn (.inr hfull)).trans (steps_spawn_send hempty w)
  · next hfree => exact steps_spawn_send (Nat.lt_of_not_le hfree) w

private theorem steps_foldl (hlimit : 1 ≤ limit) (h : Keeps answer p done working) {ws : List Worker}
    (hn : ((done ++ working ++ ws).map (·.lineNumber)).Nodup) :
    Steps limit ⟨ws.map (·.lineNumber), p, [], ends⟩
      ⟨[], (ws.foldl (engage limit answer) p).collect, [], ends ++ ws.map fun w => (w.lineNumber, some (answer w))⟩ := by
  induction ws generalizing p done working ends with
  | nil =>
    rw [List.append_nil] at hn
    rw [List.map_nil, List.map_nil, List.append_nil]
    exact collect_of_keeps h hn (.inl rfl)
  | cons w ws ih =>
    have hsplit : done ++ working ++ w :: ws = done ++ working ++ [w] ++ ws := by simp
    rw [hsplit] at hn
    have hfirst : ((done ++ working ++ [w]).map (·.lineNumber)).Nodup := by
      rw [List.map_append] at hn
      exact (List.nodup_append.1 hn).1
    have hbefore : ((done ++ working).map (·.lineNumber)).Nodup := by
      rw [List.map_append] at hfirst
      exact (List.nodup_append.1 hfirst).1
    obtain ⟨done', working', heq, hkeeps⟩ := h.engage limit hfirst
    rw [← heq] at hn
    refine (steps_engage hlimit h hbefore).trans ?_
    have hrest : Steps limit ⟨ws.map (·.lineNumber), engage limit answer p w, [], ends ++ [(w.lineNumber, some (answer w))]⟩
        _ := ih hkeeps hn
    rw [List.append_assoc] at hrest
    exact hrest

theorem reachable_finish (hlimit : 1 ≤ limit) {ws : List Worker} (hn : (ws.map (·.lineNumber)).Nodup) :
    Reachable limit (ws.map (·.lineNumber))
      ⟨[], Schedule.finish limit answer ws, [], ws.map fun w => (w.lineNumber, some (answer w))⟩ := by
  have hstart : Keeps answer {} [] [] := ⟨rfl, by simp⟩
  exact Reachable.start.steps (steps_foldl hlimit hstart hn)

end Computed

/-! ### The answers -/

theorem nodup_lineNumbers (count : Nat) : (lineNumbers count).Nodup :=
  List.Nodup.map (fun _ _ h => Int.ofNat.inj h) List.nodup_range'

/-- At the end of a schedule, what was collected for a line is how its worker ended. -/
theorem Accounted.exists_end (h : Accounted limit lines st) (hfinished : st.IsFinished) {line : Int} (hline : line ∈ lines) :
    ∃ e, st.endsOf line = [e] ∧ Keyed.get? line st.pool.responses = e := by
  obtain ⟨hwaiting, hactive, -⟩ := hfinished
  have hperm := h.lines_perm
  rw [hwaiting, hactive, List.map_nil, List.nil_append, List.nil_append] at hperm
  exact h.joined_ends line (hperm.mem_iff.2 hline)

/-- An answer is what the worker of the line sent, or the generic one if the worker sent nothing. -/
def Answers (st : State Answer) (line : Int) (a : Answer) : Prop :=
  st.endsOf line = [some a] ∨ (st.endsOf line = [none] ∧ a = .generic)

theorem answers_responsesInOrder {st : State Answer} {count : Nat} (h : Accounted limit (lineNumbers count) st)
    (hfinished : st.IsFinished) :
    List.Forall₂ (Answers st) (lineNumbers count) (Schedule.responsesInOrder count st.pool) := by
  rw [lineNumbers, Schedule.responsesInOrder, List.forall₂_map_left_iff, List.forall₂_map_right_iff, List.forall₂_same]
  intro line hline
  obtain ⟨e, hends, hget⟩ := h.exists_end hfinished (List.mem_map_of_mem hline)
  rw [hget]
  cases e with
  | some a => exact .inl hends
  | none => exact .inr ⟨hends, rfl⟩

theorem mem_endsOf {st : State ρ} {line : Int} {e : Option ρ} : e ∈ st.endsOf line ↔ (line, e) ∈ st.ends := by
  simp [State.endsOf]

theorem responses_eq {st st' : State ρ} (h : Accounted limit lines st) (h' : Accounted limit lines st')
    (hfinished : st.IsFinished) (hfinished' : st'.IsFinished)
    (hends : ∀ line r, (line, some r) ∈ st.ends ↔ (line, some r) ∈ st'.ends) {line : Int} (hline : line ∈ lines) :
    Keyed.get? line st.pool.responses = Keyed.get? line st'.pool.responses := by
  obtain ⟨e, he, hget⟩ := h.exists_end hfinished hline
  obtain ⟨e', he', hget'⟩ := h'.exists_end hfinished' hline
  rw [hget, hget']
  have hsent (r : ρ) : e = some r ↔ e' = some r := by
    have hr := hends line r
    rw [← mem_endsOf, ← mem_endsOf, he, he', List.mem_singleton, List.mem_singleton] at hr
    rw [eq_comm, hr, eq_comm]
  exact Option.ext fun r => hsent r

theorem one_le_slots (s : Server) {processors count : Nat} (hprocessors : 1 ≤ processors) (hcount : 1 ≤ count) :
    1 ≤ s.slots processors count := by
  refine le_min ?_ hcount
  cases hmax : s.maxWorkers with
  | none => exact hprocessors
  | some n => exact s.one_le_maxWorkers n hmax

/-- In any order in which workers may end, there are never more at work than places, every line waits, has its worker at
work or has one that is done, and the schedule may come to its end. There each line has the answer that its worker sent,
or the generic one, so that schedules in which the same workers answer give the same answers; and the answers that a
server computes are those of one of them. -/
theorem every_line_answered_once (s : Server) {processors : Nat} (hprocessors : 1 ≤ processors) {requests : List String}
    (hrequests : requests ≠ []) :
    (∀ st : State Answer, Reachable (s.slots processors requests.length) (lineNumbers requests.length) st →
      st.pool.active.length ≤ min (s.maxWorkers.getD processors) requests.length ∧
      (st.waiting ++ st.pool.active.map (·.1) ++ st.pool.joined).Perm (lineNumbers requests.length) ∧
      (st.IsFinished → List.Forall₂ (Answers st) (lineNumbers requests.length)
        (Schedule.responsesInOrder requests.length st.pool)) ∧
      ∃ st', Steps (s.slots processors requests.length) st st' ∧ st'.IsFinished) ∧
    (∀ st st' : State Answer, Reachable (s.slots processors requests.length) (lineNumbers requests.length) st →
      Reachable (s.slots processors requests.length) (lineNumbers requests.length) st' →
      st.IsFinished → st'.IsFinished → (∀ line a, (line, some a) ∈ st.ends ↔ (line, some a) ∈ st'.ends) →
      Schedule.responsesInOrder requests.length st.pool = Schedule.responsesInOrder requests.length st'.pool) ∧
    ∀ ws, Server.workers requests = .ok ws → ∃ st : State Answer,
      Reachable (s.slots processors requests.length) (lineNumbers requests.length) st ∧ st.IsFinished ∧
      st.ends = ws.map (fun w => (w.lineNumber, some w.answer.value)) ∧
      s.answers processors requests = .ok (Schedule.responsesInOrder requests.length st.pool) := by
  have hn := nodup_lineNumbers requests.length
  have hcount : 1 ≤ requests.length := List.length_pos_of_ne_nil hrequests
  have hlimit := one_le_slots s hprocessors hcount
  refine ⟨?_, ?_, ?_⟩
  · intro st h
    have haccounted := h.accounted hn
    refine ⟨haccounted.active_le, haccounted.lines_perm, ?_, exists_steps_isFinished h hn hlimit⟩
    exact answers_responsesInOrder haccounted
  · intro st st' h h' hfinished hfinished' hends
    rw [Schedule.responsesInOrder, Schedule.responsesInOrder]
    apply List.map_congr_left
    intro line hline
    rw [responses_eq (h.accounted hn) (h'.accounted hn) hfinished hfinished' hends (List.mem_map_of_mem hline)]
  · intro ws hws
    have hlines : ws.map (·.lineNumber) = lineNumbers requests.length := Server.map_lineNumber_of_workers hws
    have hlength : ws.length = requests.length := by
      rw [← List.length_map (·.lineNumber), hlines, lineNumbers, List.length_map, List.length_range']
    have hnodup : (ws.map (·.lineNumber)).Nodup := hlines ▸ hn
    have hreach : Reachable (s.slots processors requests.length) (ws.map (·.lineNumber))
        ⟨[], Schedule.finish (s.slots processors requests.length) (fun w => w.answer.value) ws, [],
          ws.map fun w => (w.lineNumber, some w.answer.value)⟩ := reachable_finish hlimit hnodup
    rw [hlines] at hreach
    refine ⟨_, hreach, ⟨rfl, (Schedule.keeps_finish _ hnodup).active, rfl⟩, rfl, ?_⟩
    rw [Server.answers, hws, ← hlength]
    rfl

/-- Two places for three lines: the second worker answers first, the first one closes its pipe without a message. -/
theorem every_line_answered_once_three :
    1 ≤ 4 ∧ ["first", "second", "third"] ≠ [] ∧ ∃ st : State Answer, Reachable 2 (lineNumbers 3) st ∧ st.IsFinished ∧
      st.ends = [(2, some (.result (.int 5))), (1, none), (3, some (.result (.int 7)))] ∧
      List.Forall₂ (Answers st) (lineNumbers 3) (Schedule.responsesInOrder 3 st.pool) ∧
      Schedule.responsesInOrder 3 st.pool = [.generic, .result (.int 5), .result (.int 7)] := by
  have hlimit : Server.slots { maxWorkers := some 2, one_le_maxWorkers := by simp } 4 3 = 2 := rfl
  obtain ⟨hstates, -, -⟩ := every_line_answered_once { maxWorkers := some 2, one_le_maxWorkers := by simp }
    (by decide : 1 ≤ 4) (by simp : ["first", "second", "third"] ≠ [])
  -- The first two lines get the places, and a collection finds only the second worker ready.
  have hhalf : Steps 2 (.start (lineNumbers 3) : State Answer)
      ⟨[3], { active := [(1, {})], joined := [2], responses := [(2, .result (.int 5))] }, [],
        [(2, some (.result (.int 5)))]⟩ := by
    refine .head (.spawn (by decide)) (.head (.spawn (by decide)) ?_)
    refine .head (.send (.result (.int 5)) (List.mem_of_getElem? (i := 1) rfl)) ?_
    refine .head (.collect (.inr (by decide))) ?_
    refine .head (@Step.take _ _ [3] [1] 2 _ _ _ (List.mem_of_getElem? (i := 1) rfl) rfl) ?_
    exact .single (@Step.skip _ _ [3] [] 1 _ _)
  have hrest : Steps 2
      (⟨[3], { active := [(1, {})], joined := [2], responses := [(2, .result (.int 5))] }, [],
        [(2, some (.result (.int 5)))]⟩ : State Answer)
      ⟨[], { joined := [2, 3, 1], silent := [1], responses := [(2, .result (.int 5)), (3, .result (.int 7))] }, [],
        [(2, some (.result (.int 5))), (1, none), (3, some (.result (.int 7)))]⟩ := by
    refine .head (.spawn (by decide)) ?_
    refine .head (.close (List.mem_of_getElem? (i := 0) rfl)) ?_
    refine .head (.send (.result (.int 7)) (List.mem_of_getElem? (i := 1) rfl)) ?_
    refine .head (.collect (.inl rfl)) ?_
    refine .head (@Step.take _ _ [] [1] 3 _ _ _ (List.mem_of_getElem? (i := 1) rfl) rfl) ?_
    exact .single (@Step.take _ _ [] [] 1 _ _ ⟨[], true⟩ (List.mem_of_getElem? (i := 0) rfl) rfl)
  have hreach := Reachable.start.steps (hhalf.trans hrest)
  obtain ⟨-, -, hanswers, -⟩ := hstates _ (hlimit ▸ hreach)
  exact ⟨by decide, by simp, _, hreach, ⟨rfl, rfl, rfl⟩, rfl, hanswers ⟨rfl, rfl, rfl⟩, rfl⟩

end Reckoner.Service.Interleaving
