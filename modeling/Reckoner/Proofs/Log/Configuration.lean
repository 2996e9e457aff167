import Mathlib.Data.List.Induction
import Mathlib.Tactic.Common
import Reckoner.Log.Registry

/-!
# Loggers over many calls

What a registry holds for a name after any calls, for this name and for others. The first call for a name attaches the
handler, whether its level is known or not, and no call after it sets the level. So the first known level configures a logger
exactly if the first call has it (`configured_by_first_known_iff`).
-/
namespace Reckoner.Log.Registry

/-- A call for the logger of a name, with what the environment says at that time. -/
structure Call where
  name : String
  environment : Option String
  deriving DecidableEq, Repr

def levelIn (environment : Option String) : Except UnknownLevel Nat :=
  levelOf (environment.getD defaultLevelName)

/-- The logger of a name, which is a fresh one if it was never asked for. -/
def logger (r : Registry) (name : String) : Logger :=
  (Keyed.get? name r).getD fresh

def after (r : Registry) (calls : List Call) : Registry :=
  calls.foldl (fun r c => (r.getLogger c.name c.environment).1) r

def environments (name : String) (calls : List Call) : List (Option String) :=
  (calls.filter (·.name = name)).map (·.environment)

/-! ### One call -/

section

variable {r : Registry} {name other : String} {environment : Option String}

theorem getLogger_of_handlers_ne (h : (r.logger name).handlers ≠ 0) :
    r.getLogger name environment = (r, .ok (r.logger name)) :=
  if_pos h

theorem getLogger_of_handlers_eq (h : (r.logger name).handlers = 0) (environment : Option String) :
    (r.getLogger name environment).2 = (levelIn environment).map (fun level => ⟨level, 1⟩) ∧
      (r.getLogger name environment).1.logger name =
        ⟨(levelIn environment).toOption.getD (r.logger name).level, 1⟩ := by
  have hattach : ¬((Keyed.get? name r).getD fresh).handlers ≠ 0 := not_not.2 h
  rw [getLogger, if_neg hattach, levelIn]
  cases levelOf (environment.getD defaultLevelName) with
  | error e => simp [logger, Except.map, Except.toOption]
  | ok level => simp [logger, Except.map, Except.toOption]

theorem logger_of_getLogger_eq_ok {l : Logger} (h : (r.getLogger name environment).2 = .ok l) :
    (r.getLogger name environment).1.logger name = l := by
  by_cases hbare : (r.logger name).handlers = 0
  · obtain ⟨houtcome, hlogger⟩ := getLogger_of_handlers_eq hbare environment
    rw [houtcome] at h
    rw [hlogger]
    cases hlevel : levelIn environment with
    | error e => rw [hlevel] at h; cases h
    | ok level => rw [hlevel] at h; exact Except.ok.inj h
  · rw [getLogger_of_handlers_ne hbare] at h ⊢
    exact Except.ok.inj h

theorem logger_getLogger_of_ne (h : other ≠ name) : (r.getLogger name environment).1.logger other = r.logger other := by
  rw [getLogger]
  dsimp only
  split
  · rfl
  · split <;> simp only [logger, Keyed.get?_assign_of_ne h]

end

/-! ### Calls in a row -/

/-- The logger after calls with these environments. The first of them decides. -/
def settled : List (Option String) → Logger
  | [] => fresh
  | first :: _ => ⟨(levelIn first).toOption.getD fresh.level, 1⟩

theorem handlers_settled {es : List (Option String)} (h : es ≠ []) : (settled es).handlers = 1 := by
  cases es with
  | nil => exact absurd rfl h
  | cons e es => rfl

theorem after_concat (r : Registry) (calls : List Call) (c : Call) :
    r.after (calls ++ [c]) = ((r.after calls).getLogger c.name c.environment).1 := by
  simp only [after, List.foldl_append, List.foldl_cons, List.foldl_nil]

theorem environments_concat (name : String) (calls : List Call) (c : Call) : environments name (calls ++ [c]) =
    if c.name = name then environments name calls ++ [c.environment] else environments name calls := by
  simp only [environments, List.filter_append, List.map_append]
  split <;> simp [*]

theorem getLogger_of_settled {r : Registry} {name : String} {es : List (Option String)} (h : r.logger name = settled es)
    (environment : Option String) :
    (r.getLogger name environment).2 =
        (if es = [] then (levelIn environment).map (fun level => ⟨level, 1⟩) else .ok (settled es)) ∧
      (r.getLogger name environment).1.logger name = settled (es ++ [environment]) := by
  cases es with
  | nil =>
    have hbare : (r.logger name).handlers = 0 := by rw [h]; rfl
    obtain ⟨houtcome, hlogger⟩ := getLogger_of_handlers_eq hbare environment
    rw [h] at hlogger
    exact ⟨houtcome, hlogger⟩
  | cons e es =>
    have hhandled : (r.logger name).handlers ≠ 0 := by rw [h, handlers_settled (List.cons_ne_nil _ _)]; decide
    rw [getLogger_of_handlers_ne hhandled]
    exact ⟨congrArg Except.ok h, h⟩

/-- After any calls the logger of a name is as the first call for it has left it. -/
theorem logger_after {r : Registry} {name : String} (hfresh : r.logger name = fresh) (calls : List Call) :
    (r.after calls).logger name = settled (environments name calls) := by
  induction calls using List.reverseRecOn with
  | nil => exact hfresh
  | append_singleton calls c ih =>
    rw [after_concat, environments_concat]
    split
    · next hname =>
      subst hname
      exact (getLogger_of_settled ih c.environment).2
    · next hname => rw [logger_getLogger_of_ne (Ne.symm hname), ih]

/-! ### Configured by the first known level -/

def firstKnown? (es : List (Option String)) : Option Nat :=
  es.findSome? fun e => (levelIn e).toOption

/-- What a call ought to lead to after others for the same name with these environments: a failure that leaves no handler
as long as no level is known, and from the first known level on the logger that it configures. -/
structure IsConfigured (earlier : List (Option String)) (environment : Option String)
    (outcome : Except UnknownLevel Logger) (left : Logger) : Prop where
  refused : firstKnown? (earlier ++ [environment]) = none → (∃ e, levelIn environment = .error e ∧ outcome = .error e) ∧
    left.handlers = 0
  returned : ∀ level, firstKnown? (earlier ++ [environment]) = some level → outcome = .ok ⟨level, 1⟩ ∧ left = ⟨level, 1⟩

theorem firstKnown?_cons_of_ok {first : Option String} {level : Nat} (h : levelIn first = .ok level)
    (es : List (Option String)) : firstKnown? (first :: es) = some level := by
  rw [firstKnown?, List.findSome?_cons, h]
  rfl

theorem settled_cons_of_ok {first : Option String} {level : Nat} (h : levelIn first = .ok level)
    (es : List (Option String)) : settled (first :: es) = ⟨level, 1⟩ := by
  rw [settled, h]
  rfl

theorem firstKnown?_singleton_of_error {first : Option String} {e : UnknownLevel} (h : levelIn first = .error e) :
    firstKnown? [first] = none := by
  rw [firstKnown?, List.findSome?_singleton, h]
  rfl

theorem isConfigured_of_known {r : Registry} {name : String} {es : List (Option String)} (h : r.logger name = settled es)
    {environment : Option String} (hknown : ∀ first ∈ (es ++ [environment]).head?, ∃ level, levelIn first = .ok level) :
    IsConfigured es environment (r.getLogger name environment).2 ((r.getLogger name environment).1.logger name) := by
  obtain ⟨houtcome, hleft⟩ := getLogger_of_settled h environment
  obtain ⟨first, rest, hcons⟩ := List.exists_cons_of_ne_nil (by simp : es ++ [environment] ≠ [])
  obtain ⟨level, hlevel⟩ := hknown first (by rw [hcons]; rfl)
  have hreturned : (r.getLogger name environment).2 = .ok ⟨level, 1⟩ := by
    rw [houtcome]
    cases es with
    | nil =>
      cases hcons
      rw [if_pos rfl, hlevel]
      rfl
    | cons e es =>
      cases hcons
      rw [if_neg (List.cons_ne_nil _ _), settled_cons_of_ok hlevel]
  rw [hreturned, hleft, hcons, settled_cons_of_ok hlevel]
  refine ⟨fun hnone => ?_, fun l hl => ?_⟩
  · rw [hcons, firstKnown?_cons_of_ok hlevel] at hnone
    cases hnone
  · rw [hcons, firstKnown?_cons_of_ok hlevel] at hl
    obtain rfl := Option.some.inj hl
    exact ⟨rfl, rfl⟩

theorem known_of_isConfigured {r : Registry} {name : String} (h : r.logger name = fresh) {environment : Option String}
    (hconfigured : IsConfigured [] environment (r.getLogger name environment).2
      ((r.getLogger name environment).1.logger name)) : ∃ level, levelIn environment = .ok level := by
  cases hlevel : levelIn environment with
  | ok level => exact ⟨level, rfl⟩
  | error e =>
    obtain ⟨-, hbare⟩ := hconfigured.refused (firstKnown?_singleton_of_error hlevel)
    have hsettled : r.logger name = settled [] := h
    rw [(getLogger_of_settled hsettled environment).2] at hbare
    cases hbare

theorem environments_append_cons (before after : List Call) (c : Call) :
    environments c.name (before ++ c :: after) = environments c.name before ++ c.environment :: environments c.name after := by
  simp [environments]

theorem exists_first_call {name : String} {calls : List Call} {first : Option String}
    (h : first ∈ (environments name calls).head?) :
    ∃ before c after, calls = before ++ c :: after ∧ c.name = name ∧ environments name before = [] ∧ c.environment = first := by
  induction calls with
  | nil => cases h
  | cons c calls ih =>
    by_cases hname : c.name = name
    · refine ⟨[], c, calls, rfl, hname, rfl, ?_⟩
      subst hname
      rw [← List.nil_append (c :: calls), environments_append_cons] at h
      exact Option.some.inj h
    · have hskip (cs : List Call) : environments name (c :: cs) = environments name cs := by simp [environments, hname]
      rw [hskip] at h
      obtain ⟨before, d, after, rfl, hd, hbefore, hfirst⟩ := ih h
      exact ⟨c :: before, d, after, rfl, hd, (hskip before).trans hbefore, hfirst⟩

/-- Calls for a fresh logger, among calls for other ones. The first call settles the logger, every call leaves it with one
handler, and every call that returns gives it. So failures leave nothing behind and the first known level configures the
logger exactly if the first call has a known level. -/
theorem configured_by_first_known_iff {r : Registry} {name : String} (hfresh : r.logger name = fresh) (calls : List Call) :
    (∀ before c after, calls = before ++ c :: after → c.name = name →
      let call := (r.after before).getLogger name c.environment
      let earlier := environments name before
      call.2 = (if earlier = [] then (levelIn c.environment).map (fun level => ⟨level, 1⟩) else .ok (settled earlier)) ∧
        call.1.logger name = settled (earlier ++ [c.environment]) ∧ (call.1.logger name).handlers = 1 ∧
        ∀ l, call.2 = .ok l → call.1.logger name = l) ∧
      ((∀ before c after, calls = before ++ c :: after → c.name = name →
          let call := (r.after before).getLogger name c.environment
          IsConfigured (environments name before) c.environment call.2 (call.1.logger name)) ↔
        ∀ first ∈ (environments name calls).head?, ∃ level, levelIn first = .ok level) := by
  have hbefore (before : List Call) := logger_after hfresh before
  refine ⟨?_, ?_, ?_⟩
  · rintro before c after - -
    obtain ⟨houtcome, hleft⟩ := getLogger_of_settled (hbefore before) c.environment
    exact ⟨houtcome, hleft, hleft ▸ handlers_settled (by simp), fun l hl => logger_of_getLogger_eq_ok hl⟩
  · intro h first hfirst
    obtain ⟨before, c, after, hcalls, hname, hnone, rfl⟩ := exists_first_call hfirst
    have hconfigured := h before c after hcalls hname
    rw [hnone] at hconfigured
    exact known_of_isConfigured ((hbefore before).trans (congrArg settled hnone)) hconfigured
  · rintro h before c after rfl rfl
    refine isConfigured_of_known (hbefore before) fun first hfirst => h first ?_
    rw [environments_append_cons]
    cases henvironments : environments c.name before with
    | nil => simpa [henvironments] using hfirst
    | cons e es => simpa [henvironments] using hfirst

/-- The level of the second call is not even known, and a call for another logger comes between the two. -/
theorem configured_by_first_known_iff_debug :
    let calls : List Call := [⟨"demo", some "debug"⟩, ⟨"other", none⟩, ⟨"demo", some "LOUD"⟩]
    let last := (after [] (calls.take 2)).getLogger "demo" (some "LOUD")
    logger [] "demo" = fresh ∧ (∀ first ∈ (environments "demo" calls).head?, ∃ level, levelIn first = .ok level) ∧
      IsConfigured [some "debug"] (some "LOUD") last.2 (last.1.logger "demo") ∧ last.2 = .ok ⟨10, 1⟩ := by
  intro calls last
  have hknown : ∀ first ∈ (environments "demo" calls).head?, ∃ level, levelIn first = .ok level := by
    rintro first ⟨⟩
    exact ⟨10, by decide +kernel⟩
  have hconfigured := (configured_by_first_known_iff (r := []) rfl calls).2.2 hknown (calls.take 2)
    ⟨"demo", some "LOUD"⟩ [] rfl rfl
  exact ⟨rfl, hknown, hconfigured, by decide +kernel⟩

/-- A failed call leaves a handler, so that the next call returns a logger without a level, whatever level it asks for. -/
theorem unconfigured_after_failure :
    let failed := getLogger [] "demo" (some "LOUD")
    failed.2 = .error ⟨"LOUD"⟩ ∧ (failed.1.logger "demo").handlers = 1 ∧ levelIn none = .ok 20 ∧
      (failed.1.getLogger "demo" none).2 = .ok ⟨0, 1⟩ := by
  decide +kernel

end Reckoner.Log.Registry
