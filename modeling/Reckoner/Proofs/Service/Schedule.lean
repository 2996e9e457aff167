import Mathlib.Data.List.Nodup
import Mathlib.Tactic.Common
import Reckoner.Service.Schedule

/-!
# Schedules give every worker's answer

At any time a pool has kept the answers of the first workers and has the others at work (`Keeps`). A collection moves
those at work to those that are done, and a new worker comes behind them. At the end all are done, so that the answers
in order are the workers' own, however many work at once.
-/
namespace Reckoner.Service.Schedule

variable (answer : Worker → Answer)

def atWork (w : Worker) : Int × Pipe Answer :=
  (w.lineNumber, { messages := [⟨w.lineNumber, answer w⟩] })

/-- The pool has kept the answers of some workers, and others are at work. -/
structure Keeps (p : Pool Int Answer) (done working : List Worker) : Prop where
  active : p.active = working.map (atWork answer)
  responses : ∀ w ∈ done, Keyed.get? w.lineNumber p.responses = some (answer w)

variable {answer : Worker → Answer} {p : Pool Int Answer} {done working : List Worker}

private theorem keeps_visit {w : Worker} (h : Keeps answer p done []) (hw : w.lineNumber ∉ done.map (·.lineNumber)) :
    Keeps answer (Pool.visit (atWork answer w) p) (w :: done) [] := by
  refine ⟨h.active, ?_⟩
  intro w' hw'
  change Keyed.get? w'.lineNumber (Keyed.assign w.lineNumber (answer w) p.responses) = _
  rcases List.mem_cons.1 hw' with rfl | hw'
  · exact Keyed.get?_assign_self ..
  · have hne : w'.lineNumber ≠ w.lineNumber := by
      intro heq
      exact hw (heq ▸ List.mem_map_of_mem hw')
    rw [Keyed.get?_assign_of_ne hne]
    exact h.responses w' hw'

private theorem keeps_foldr (h : Keeps answer p done []) (hn : ((working ++ done).map (·.lineNumber)).Nodup) :
    Keeps answer ((working.map (atWork answer)).foldr Pool.visit p) (working ++ done) [] := by
  induction working with
  | nil => exact h
  | cons w ws ih =>
    rw [List.cons_append, List.map_cons, List.nodup_cons] at hn
    rw [List.map_cons, List.foldr_cons]
    exact keeps_visit (ih hn.2) hn.1

theorem Keeps.collect (h : Keeps answer p done working) (hn : ((done ++ working).map (·.lineNumber)).Nodup) :
    Keeps answer p.collect (done ++ working) [] := by
  have hempty : Keeps answer { p with active := [] } done [] := ⟨rfl, h.responses⟩
  have hperm : ((working ++ done).map (·.lineNumber)).Nodup := by
    rw [List.map_append] at hn ⊢
    exact List.nodup_append_comm.1 hn
  have hfold := keeps_foldr hempty hperm
  rw [Pool.collect, h.active]
  refine ⟨hfold.active, ?_⟩
  intro w hw
  exact hfold.responses w (List.mem_append.2 (List.mem_append.1 hw).symm)

theorem Keeps.spawn (h : Keeps answer p done working) {w : Worker}
    (hw : w.lineNumber ∉ working.map (·.lineNumber)) :
    Keeps answer ((p.spawn w.lineNumber).send w.lineNumber ⟨w.lineNumber, answer w⟩) done (working ++ [w]) := by
  refine ⟨?_, h.responses⟩
  have hothers : ∀ w' ∈ working, w'.lineNumber ≠ w.lineNumber := by
    intro w' hw' heq
    exact hw (heq ▸ List.mem_map_of_mem hw')
  simp only [Pool.send, Pool.withPipe, Pool.spawn, h.active, List.map_append, List.map_map]
  congr 1
  · apply List.map_congr_left
    intro w' hw'
    exact if_neg (hothers w' hw')
  · simp [atWork, Pipe.send]

theorem Keeps.engage (limit : Nat) (h : Keeps answer p done working) {w : Worker}
    (hn : ((done ++ working ++ [w]).map (·.lineNumber)).Nodup) :
    ∃ done' working', done' ++ working' = done ++ working ++ [w] ∧
      Keeps answer (Schedule.engage limit answer p w) done' working' := by
  have hn' : ((done ++ working).map (·.lineNumber)).Nodup := by
    rw [List.map_append] at hn
    exact (List.nodup_append.1 hn).1
  simp only [Schedule.engage]
  split
  · exact ⟨done ++ working, [w], rfl, (h.collect hn').spawn (by simp)⟩
  · refine ⟨done, working ++ [w], (List.append_assoc ..).symm, h.spawn ?_⟩
    intro hmem
    rw [List.map_append, List.nodup_append] at hn
    have hmem' : w.lineNumber ∈ (done ++ working).map (·.lineNumber) := by
      rw [List.map_append]
      exact List.mem_append_right _ hmem
    exact hn.2.2 _ hmem' _ (by simp) rfl

private theorem exists_keeps_foldl (limit : Nat) (h : Keeps answer p done working) {ws : List Worker}
    (hn : ((done ++ working ++ ws).map (·.lineNumber)).Nodup) :
    ∃ done' working', done' ++ working' = done ++ working ++ ws ∧
      Keeps answer (ws.foldl (Schedule.engage limit answer) p) done' working' := by
  induction ws generalizing p done working with
  | nil => exact ⟨done, working, (List.append_nil _).symm, h⟩
  | cons w ws ih =>
    have hsplit : done ++ working ++ w :: ws = done ++ working ++ [w] ++ ws := by simp
    rw [hsplit] at hn ⊢
    have hfirst : ((done ++ working ++ [w]).map (·.lineNumber)).Nodup := by
      rw [List.map_append] at hn
      exact (List.nodup_append.1 hn).1
    obtain ⟨done', working', heq, hkeeps⟩ := h.engage limit hfirst
    rw [← heq] at hn ⊢
    exact ih hkeeps hn

theorem keeps_finish (limit : Nat) {ws : List Worker} (hn : (ws.map (·.lineNumber)).Nodup) :
    Keeps answer (finish limit answer ws) ws [] := by
  have hstart : Keeps answer {} [] [] := ⟨rfl, by simp⟩
  obtain ⟨done, working, heq, hkeeps⟩ := exists_keeps_foldl limit hstart hn
  have hws : done ++ working = ws := heq
  have hcollect := hkeeps.collect (hws ▸ hn)
  rw [hws] at hcollect
  exact hcollect

theorem answers_eq_map (limit : Nat) {ws : List Worker}
    (hlines : ws.map (·.lineNumber) = (List.range' 1 ws.length).map fun (n : Nat) => (n : Int)) :
    answers limit ws = ws.map fun w => w.answer.value := by
  have hn : (ws.map (·.lineNumber)).Nodup := by
    rw [hlines]
    exact List.Nodup.map (fun a b h => Int.ofNat.inj h) List.nodup_range'
  have hkeeps : Keeps (fun w => w.answer.value) (finish limit (fun w => w.answer.value) ws) ws [] := keeps_finish limit hn
  have hlookup : answers limit ws = (ws.map (·.lineNumber)).map fun line =>
      (Keyed.get? line (finish limit (fun w => w.answer.value) ws).responses).getD .generic := by
    rw [hlines, List.map_map]
    rfl
  rw [hlookup, List.map_map]
  apply List.map_congr_left
  intro w hw
  simp only [Function.comp_apply, hkeeps.responses w hw, Option.getD_some]

end Reckoner.Service.Schedule
