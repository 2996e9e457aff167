import Mathlib.Data.List.Induction
import Mathlib.Tactic.Common
import Reckoner.Service.Collection

/-!
# A collection takes the workers that are ready

The loop over places misses no worker and visits none twice, since the workers in front of a place are all there when its
turn comes (`Collection.visitAt_eq`). So it does what a pass over the workers themselves does, and what a collection
leaves can be read off the workers: those that are not ready stay, and of several messages for one line that of the
first worker counts.
-/
namespace Reckoner.Service

variable {ι ρ : Type}

/-! ### A pass over the workers -/

namespace Pool

theorem visit_busy (name : ι) (p : Pool ι ρ) : visit (name, {}) p = { p with active := (name, {}) :: p.active } := rfl

theorem visit_closed (name : ι) (p : Pool ι ρ) :
    visit (name, ⟨[], true⟩) p = { p with joined := p.joined ++ [name], silent := p.silent ++ [name] } := rfl

theorem visit_message (name : ι) (m : Message ρ) (ms : List (Message ρ)) (closed : Bool) (p : Pool ι ρ) :
    visit (name, ⟨m :: ms, closed⟩) p =
      { p with joined := p.joined ++ [name], responses := Keyed.assign m.line m.response p.responses } := rfl

def IsSilent (w : ι × Pipe ρ) : Bool :=
  w.2.isReady && w.2.messages.isEmpty

/-- The response for a line in the first message of a worker, if it is for that line. -/
def responseFor (line : Int) (w : ι × Pipe ρ) : Option ρ :=
  w.2.messages.head?.bind fun m => if m.line = line then some m.response else none

/-- What the visits to some workers, from the last to the first, change in a pool. -/
structure Visited (ws : List (ι × Pipe ρ)) (p q : Pool ι ρ) : Prop where
  active : q.active = (ws.filter fun w => !w.2.isReady) ++ p.active
  joined : q.joined = p.joined ++ (ws.filter (·.2.isReady)).reverse.map (·.1)
  silent : q.silent = p.silent ++ (ws.filter IsSilent).reverse.map (·.1)
  responses : ∀ line, Keyed.get? line q.responses = (ws.findSome? (responseFor line)).or (Keyed.get? line p.responses)

theorem Visited.visit {ws : List (ι × Pipe ρ)} {p q : Pool ι ρ} (h : Visited ws p q) (w : ι × Pipe ρ) :
    Visited (w :: ws) p (q.visit w) := by
  obtain ⟨hactive, hjoined, hsilent, hresponses⟩ := h
  match w with
  | (name, ⟨[], false⟩) =>
    rw [visit_busy]
    exact ⟨by simp [hactive, Pipe.isReady], by simp [hjoined, Pipe.isReady], by simp [hsilent, IsSilent, Pipe.isReady],
      hresponses⟩
  | (name, ⟨[], true⟩) =>
    rw [visit_closed]
    exact ⟨by simp [hactive, Pipe.isReady], by simp [hjoined, Pipe.isReady], by simp [hsilent, IsSilent, Pipe.isReady],
      hresponses⟩
  | (name, ⟨m :: ms, closed⟩) =>
    rw [visit_message]
    refine ⟨by simp [hactive, Pipe.isReady], by simp [hjoined, Pipe.isReady], by simp [hsilent, IsSilent], ?_⟩
    intro line
    by_cases hline : m.line = line
    · subst hline
      simp [responseFor]
    · rw [Keyed.get?_assign_of_ne (Ne.symm hline), hresponses]
      simp [responseFor, hline]

theorem visited_foldr (ws : List (ι × Pipe ρ)) (p : Pool ι ρ) : Visited ws p (ws.foldr visit p) := by
  induction ws with
  | nil => exact ⟨rfl, by simp, by simp, fun _ => rfl⟩
  | cons w ws ih => exact ih.visit w

end Pool

/-! ### The loop over places -/

namespace Collection

variable [ToString ι]

theorem visitAt_eq {w : ι × Pipe ρ} {kept : List (ι × Pipe ρ)} {p q : Pool ι ρ}
    (hq : Pool.visit w { p with active := kept } = q) (before : List (ι × Pipe ρ)) (deeds : List (Deed ι ρ)) :
    visitAt ⟨{ p with active := before ++ w :: kept }, deeds⟩ before.length =
      some ⟨{ q with active := before ++ q.active }, deeds ++ Deed.allTo w⟩ := by
  subst hq
  have herase : (before ++ w :: kept).eraseIdx before.length = before ++ kept := by
    rw [List.eraseIdx_append_of_length_le (Nat.le_refl _), Nat.sub_self, List.eraseIdx_cons_zero]
  match w with
  | (name, ⟨[], false⟩) => simp [visitAt, note, Deed.allTo, Pool.visit, Pipe.isReady]
  | (name, ⟨[], true⟩) => simp [visitAt, herase, note, read, Deed.allTo, Pool.visit, Pool.silentRecord, Pipe.isReady]
  | (name, ⟨m :: ms, closed⟩) => simp [visitAt, herase, note, read, Deed.allTo, Pool.visit, Pipe.isReady]

theorem foldlM_visitAt (before kept : List (ι × Pipe ρ)) (p : Pool ι ρ) (deeds : List (Deed ι ρ)) :
    (List.range before.length).reverse.foldlM visitAt ⟨{ p with active := before ++ kept }, deeds⟩ =
      some ⟨before.foldr Pool.visit { p with active := kept }, deeds ++ before.reverse.flatMap Deed.allTo⟩ := by
  induction before using List.reverseRecOn generalizing kept p deeds with
  | nil => simp
  | append_singleton before w ih =>
    obtain ⟨q, hq⟩ : ∃ q, Pool.visit w { p with active := kept } = q := ⟨_, rfl⟩
    have hrange : (List.range (before ++ [w]).length).reverse = before.length :: (List.range before.length).reverse := by
      rw [List.length_append, List.length_singleton, List.range_succ, List.reverse_append, List.reverse_singleton,
        List.singleton_append]
    rw [hrange, List.foldlM_cons, List.append_assoc, List.singleton_append, visitAt_eq hq before]
    change (List.range before.length).reverse.foldlM visitAt ⟨{ q with active := before ++ q.active }, _⟩ = _
    rw [ih]
    simp [hq]

/-! ### What a collection leaves -/

theorem record?_allTo (w : ι × Pipe ρ) :
    (Deed.allTo w).filterMap Deed.record? =
      if Pool.IsSilent w then [⟨.error, "👷❌ Worker " ++ toString w.1 ++ " exited without a response"⟩] else [] := by
  match w with
  | (name, ⟨[], false⟩) => rfl
  | (name, ⟨[], true⟩) => rfl
  | (name, ⟨m :: ms, closed⟩) => simp [Deed.allTo, Deed.record?, Pool.IsSilent, Pipe.isReady]

theorem filterMap_record? (ws : List (ι × Pipe ρ)) :
    (ws.flatMap Deed.allTo).filterMap Deed.record? =
      (ws.filter Pool.IsSilent).map fun w => ⟨.error, "👷❌ Worker " ++ toString w.1 ++ " exited without a response"⟩ := by
  induction ws with
  | nil => rfl
  | cons w ws ih =>
    rw [List.flatMap_cons, List.filterMap_append, record?_allTo, ih]
    cases hw : Pool.IsSilent w <;> simp [hw]

/-- The loop finds a worker at each place, and from the last worker to the first does to each what belongs to it, once. It
leaves what a collection leaves: the workers that are not ready, in their order, with those that are ready joined from
the last to the first. The silent ones among these, in that order, are those that an error is reported of. A line has the
response of the first worker with a message for it, or else what it had. -/
theorem sweep_takes_ready (p : Pool ι ρ) :
    sweep p = some ⟨p.collect, p.active.reverse.flatMap Deed.allTo⟩ ∧
      p.collect.active = (p.active.filter fun w => !w.2.isReady) ∧
      p.collect.joined = p.joined ++ (p.active.filter (·.2.isReady)).reverse.map (·.1) ∧
      p.collect.silent = p.silent ++ (p.active.filter Pool.IsSilent).reverse.map (·.1) ∧
      (p.active.reverse.flatMap Deed.allTo).filterMap Deed.record? =
        ((p.active.filter Pool.IsSilent).reverse.map fun w =>
          ⟨.error, "👷❌ Worker " ++ toString w.1 ++ " exited without a response"⟩) ∧
      ∀ line, Keyed.get? line p.collect.responses =
        (p.active.findSome? (Pool.responseFor line)).or (Keyed.get? line p.responses) := by
  have hvisited : Pool.Visited p.active { p with active := [] } p.collect := Pool.visited_foldr _ _
  refine ⟨?_, ?_, hvisited.joined, hvisited.silent, ?_, hvisited.responses⟩
  · have hloop := foldlM_visitAt p.active [] p []
    rw [List.append_nil, List.nil_append] at hloop
    exact hloop
  · rw [hvisited.active, List.append_nil]
  · rw [filterMap_record?, List.filter_reverse]

/-- Of four workers the second and the last are silent, and the last one is reported first. -/
example :
    let p : Pool String Nat := { active := [("a", {}), ("b", ⟨[], true⟩), ("c", ⟨[⟨2, 5⟩], false⟩), ("d", ⟨[], true⟩)] }
    (sweep p).map (fun c => c.deeds.filterMap Deed.record?) =
      some [⟨.error, "👷❌ Worker d exited without a response"⟩, ⟨.error, "👷❌ Worker b exited without a response"⟩] := by
  decide

end Collection
end Reckoner.Service
