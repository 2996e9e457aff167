import Mathlib.Tactic.Common
import Reckoner.Expr.Symbols
import Reckoner.Proofs.Expr.Passes

/-!
# The signs that wait bind more and more tightly

A sign is put behind others only if it binds more tightly than the latest of them, so the signs that wait are ordered by
precedence, and with two levels of precedence there are never more than two. A round of a pass over given tokens is a step
of the pass over what they are, or stops with its outcome (`Point.next_ofSigns`). So no round looks up a text that is not a
sign or takes a sign from an empty stack, and the number of rounds is bounded.
-/
namespace Reckoner

open Outcome

namespace Sign

def text (s : Sign) : String :=
  String.singleton s.symbol

@[simp] theorem toList_text (s : Sign) : s.text.toList = [s.symbol] :=
  String.toList_singleton _

theorem front_text (s : Sign) : s.text.front = s.symbol := by
  rw [String.front_eq, String.front?_eq, toList_text]
  rfl

@[simp] theorem ofText_text (s : Sign) : ofText s.text = .ok s := by
  simp only [ofText, toList_text, ofChar?_symbol]
  rfl

theorem eq_text_of_ofText {text : String} {s : Sign} (h : ofText text = .ok s) : text = s.text := by
  rw [← String.toList_inj, toList_text]
  unfold ofText at h
  split at h
  · next c hc =>
    cases hs : ofChar? c with
    | none =>
      rw [hs] at h
      cases h
    | some s' =>
      rw [hs] at h
      cases h
      rw [hc, eq_symbol_of_ofChar? hs]
  · cases h

theorem precedence_mem (s : Sign) : s.precedence = 1 ∨ s.precedence = 2 := by
  rw [precedence_eq]
  split <;> simp

end Sign

namespace Token

variable {α : Type}

@[simp] theorem ofText_text (s : Sign) : (ofText s.text : Token α) = .sign s := by
  simp only [ofText, Sign.toList_text]
  cases s <;> rfl

end Token

namespace Flat

variable {α : Type}

/-! ### What waits at a point of a pass -/

/-- Signs of which each binds more tightly than those that wait longer. -/
def Tightening (ss : List Sign) : Prop :=
  ss.Pairwise fun later earlier => earlier.precedence < later.precedence

theorem Tightening.cons {s : Sign} {ss : List Sign} (h : Tightening ss)
    (looser : ∀ top ∈ ss.head?, top.precedence < s.precedence) : Tightening (s :: ss) := by
  refine List.pairwise_cons.2 ⟨?_, h⟩
  cases ss with
  | nil => simp
  | cons top ss =>
    have htop : top.precedence < s.precedence := looser top rfl
    exact List.forall_mem_cons.2 ⟨htop, fun t ht => Nat.lt_trans (List.rel_of_pairwise_cons h ht) htop⟩

theorem Tightening.length_le {ss : List Sign} (h : Tightening ss) : ss.length ≤ 2 := by
  match ss, h with
  | [], _ | [_], _ | [_, _], _ => simp
  | s :: t :: u :: _, h =>
    obtain ⟨hs, h⟩ := List.pairwise_cons.1 h
    have hst : t.precedence < s.precedence := hs t List.mem_cons_self
    have htu : u.precedence < t.precedence := List.rel_of_pairwise_cons h List.mem_cons_self
    have := s.precedence_mem
    have := u.precedence_mem
    omega

theorem single_eq_ok {vs : List α} {v : α} (h : single vs = .ok v) : vs = [v] := by
  match vs, h with
  | [_], rfl => rfl

/-- The operands of a pass: those that wait, those used up so far, and those to come. -/
def Moment.operandTotal (m : Moment α) : Nat :=
  m.waiting.operands.length + m.applied + m.rest.countP Token.isOperand

def Moment.signTotal (m : Moment α) : Nat :=
  m.waiting.signs.length + m.applied + m.rest.countP Token.isSign

variable [Operand α] {ts : List (Token α)} {m m' : Moment α}

theorem Step.tightening (h : Step m m') (hm : Tightening m.waiting.signs) : Tightening m'.waiting.signs := by
  cases h with
  | operand => exact hm
  | apply due result => exact (List.pairwise_cons.1 hm).2
  | sign looser => exact hm.cons looser

theorem Step.operandTotal_eq (h : Step m m') : m'.operandTotal = m.operandTotal := by
  cases h with
  | operand =>
    simp only [Moment.operandTotal, List.length_cons, List.countP_cons, Token.isOperand, if_true]
    omega
  | apply due result =>
    have hlength := length_applyTop result
    simp only [Moment.operandTotal, hlength]
    omega
  | sign looser => simp [Moment.operandTotal, Token.isOperand]

theorem Step.signTotal_eq (h : Step m m') : m'.signTotal = m.signTotal := by
  cases h with
  | operand => simp [Moment.signTotal, Token.isSign]
  | apply due result =>
    simp only [Moment.signTotal, List.length_cons]
    omega
  | sign looser =>
    simp only [Moment.signTotal, List.length_cons, List.countP_cons, Token.isSign, if_true]
    omega

theorem Step.progress (h : Step m m') : m'.rest.length + m.applied + 1 = m.rest.length + m'.applied := by
  cases h <;> simp only [List.length_cons] <;> omega

theorem Reaches.tightening (h : Reaches ts m) : Tightening m.waiting.signs := by
  induction h with
  | start => exact List.Pairwise.nil
  | step _ hstep ih => exact hstep.tightening ih

theorem Reaches.totals_eq (h : Reaches ts m) :
    m.operandTotal = ts.countP Token.isOperand ∧ m.signTotal = ts.countP Token.isSign := by
  induction h with
  | start => simp [Moment.operandTotal, Moment.signTotal, Moment.start, Stacks.empty]
  | step _ hstep ih => exact ⟨hstep.operandTotal_eq.trans ih.1, hstep.signTotal_eq.trans ih.2⟩

/-! ### Rounds over given tokens -/

theorem step_ofText {text : String} {e : UnknownSign} (h : Sign.ofText text = .error e) (st : Stacks α) :
    step st (Token.ofText text) = .error (.evaluation (.invalidCharacter text)) := by
  have hsign (s : Sign) : text ≠ s.text := by
    rintro rfl
    rw [Sign.ofText_text] at h
    cases h
  unfold Token.ofText
  split
  · next c hc =>
    have htext : text = String.singleton c := by rw [← String.toList_inj, hc, String.toList_singleton]
    unfold Token.ofChar
    split
    · rw [htext]; rfl
    · rw [htext]; rfl
    · split
      · next s hs =>
        rw [Sign.eq_symbol_of_ofChar? hs] at htext
        exact absurd htext (hsign s)
      · rw [htext]; rfl
  · rfl

def Point.ofSigns (os : List α) (ss : List Sign) (n : Nat) (rest : List (α ⊕ String)) : Point α :=
  ⟨os, ss.map Sign.text, n, rest⟩

def Moment.ofSigns (os : List α) (ss : List Sign) (n : Nat) (rest : List (α ⊕ String)) : Moment α :=
  ⟨⟨os, ss⟩, n, rest.map .ofGiven⟩

namespace Point

variable {os : List α} {s : Sign} {ss : List Sign} {n : Nat} {rest : List (α ⊕ String)}

omit [Operand α] in
theorem lookUp_text (s : Sign) : (lookUp s.text : Except (Stop α) Sign) = .ok s := by
  simp [lookUp, Except.mapError]

theorem applyLatest_ofSigns (os : List α) (s : Sign) (ss : List Sign) (n : Nat) (rest : List (α ⊕ String)) :
    (ofSigns os (s :: ss) n rest).applyLatest =
      (applyTop s os).mapError .failure >>= fun os' => .ok (ofSigns os' ss (n + 1) rest) := by
  match os with
  | [] | [_] => simp only [applyLatest, ofSigns, List.map_cons, Sign.front_text, applyTop, Except.mapError, error_bind]
  | right :: left :: os =>
    simp only [applyLatest, ofSigns, List.map_cons, lookUp_text, ok_bind, pure_eq_ok, applyTop]
    cases Operand.apply s left right <;> rfl

/-- What a round does where signs wait: a step that takes at most one token, or the end with the outcome of the pass,
which is a value only if nothing else is left. -/
inductive Round (os : List α) (ss : List Sign) (n : Nat) (rest : List (α ⊕ String)) : Except (Stop α) (Point α) → Prop where
  | step {os' : List α} {ss' : List Sign} {n' : Nat} {rest' : List (α ⊕ String)}
      (step : Step (.ofSigns os ss n rest) (.ofSigns os' ss' n' rest')) (suffix : rest' <:+ rest) :
      Round os ss n rest (.ok (ofSigns os' ss' n' rest'))
  | stop {result : Except Failure α} (outcome : outcome (.ofSigns os ss n rest) = result)
      (done : ∀ v, result = .ok v → os = [v] ∧ ss = [] ∧ rest = []) : Round os ss n rest (.error (.ofOutcome result))

theorem round_of_due (due : IsDue s (rest.map Token.ofGiven)) :
    Round os (s :: ss) n rest (ofSigns os (s :: ss) n rest).applyLatest := by
  rw [applyLatest_ofSigns]
  cases happly : applyTop s os with
  | ok os' => exact .step (.apply due happly) List.suffix_rfl
  | error e =>
    have houtcome : outcome (.ofSigns os (s :: ss) n rest) = .error e := by
      rw [Moment.ofSigns, outcome_of_due due, happly, error_bind]
    refine .stop houtcome fun v hv => ?_
    cases hv

theorem round_of_unknown {text : String} {e : UnknownSign} (h : Sign.ofText text = .error e) :
    Round os ss n (.inr text :: rest) (ofSigns os ss n (.inr text :: rest)).next := by
  have hnext : (ofSigns os ss n (.inr text :: rest)).next = .error (.failure (.evaluation (.invalidCharacter text))) := by
    simp only [next, ofSigns, h]
  have houtcome : outcome (.ofSigns os ss n (.inr text :: rest)) = .error (.evaluation (.invalidCharacter text)) := by
    simp only [outcome, Moment.ofSigns, List.map_cons, scan_cons, Token.ofGiven, step_ofText h, error_bind]
  rw [hnext]
  refine .stop houtcome fun v hv => ?_
  cases hv

theorem round_of_sign (s : Sign) :
    Round os ss n (.inr s.text :: rest) (ofSigns os ss n (.inr s.text :: rest)).next := by
  have htoken : (Token.ofGiven (.inr s.text) : Token α) = .sign s := Token.ofText_text s
  have hpush (looser : ∀ top ∈ ss.head?, top.precedence < s.precedence) :
      Round os ss n (.inr s.text :: rest) (.ok (ofSigns os (s :: ss) n rest)) := by
    refine .step ?_ (List.suffix_cons ..)
    rw [Moment.ofSigns, List.map_cons, htoken]
    exact .sign looser
  cases ss with
  | nil =>
    have hnext : (ofSigns os [] n (.inr s.text :: rest)).next = .ok (ofSigns os [s] n rest) := by
      simp only [next, ofSigns, Sign.ofText_text, List.map_nil, List.map_cons]
    rw [hnext]
    exact hpush (by simp)
  | cons top ss =>
    by_cases hle : s.precedence ≤ top.precedence
    · have hnext : (ofSigns os (top :: ss) n (.inr s.text :: rest)).next =
          (ofSigns os (top :: ss) n (.inr s.text :: rest)).applyLatest := by
        simp only [next, ofSigns, Sign.ofText_text, List.map_cons, lookUp_text, ok_bind, if_pos hle]
      rw [hnext]
      refine round_of_due ?_
      rw [List.map_cons, htoken]
      exact hle
    · have hnext : (ofSigns os (top :: ss) n (.inr s.text :: rest)).next = .ok (ofSigns os (s :: top :: ss) n rest) := by
        simp only [next, ofSigns, Sign.ofText_text, List.map_cons, lookUp_text, ok_bind, if_neg hle, pure_eq_ok]
      rw [hnext]
      exact hpush (by simpa using Nat.lt_of_not_le hle)

theorem next_ofSigns (os : List α) (ss : List Sign) (n : Nat) (rest : List (α ⊕ String)) :
    Round os ss n rest (ofSigns os ss n rest).next := by
  match rest, ss with
  | [], [] => exact .stop rfl fun v hv => ⟨single_eq_ok hv, rfl, rfl⟩
  | [], s :: ss => exact round_of_due trivial
  | .inl v :: rest, ss => exact .step .operand (List.suffix_cons ..)
  | .inr text :: rest, ss =>
    cases htext : Sign.ofText text with
    | error e => exact round_of_unknown htext
    | ok s =>
      obtain rfl := Sign.eq_text_of_ofText htext
      exact round_of_sign s

theorem next_of_pending {p : Point α} (h : p.pending = ss.map Sign.text) :
    Round p.operands ss p.applied p.rest p.next := by
  obtain ⟨os, pending, n, rest⟩ := p
  obtain rfl : pending = ss.map Sign.text := h
  exact next_ofSigns os ss n rest

end Point

/-! ### Passes over given tokens -/

def valueCount (ts : List (α ⊕ String)) : Nat :=
  (ts.map Token.ofGiven).countP Token.isOperand

def signCount (ts : List (α ⊕ String)) : Nat :=
  (ts.map Token.ofGiven).countP Token.isSign

/-- How a point of a pass stands to the tokens taken before it, to the signs whose texts wait, and to the rounds. -/
structure Point.Balanced (given scanned : List (α ⊕ String)) (ss : List Sign) (n : Nat) (p : Point α) : Prop where
  split : given = scanned ++ p.rest
  pending : p.pending.map Sign.ofText = ss.map .ok
  tightening : Tightening ss
  operands : p.operands.length + p.applied = valueCount scanned
  signs : p.pending.length + p.applied = signCount scanned
  rounds : n = scanned.length + p.applied

variable {given : List (α ⊕ String)} {n : Nat} {p : Point α}

/-- The pass over what the tokens are comes to the same points. Every round takes a token or applies a sign. -/
theorem Visits.simulated (h : Visits given n p) :
    ∃ ss, p.pending = ss.map Sign.text ∧ Reaches (given.map .ofGiven) (.ofSigns p.operands ss p.applied p.rest) ∧
      p.rest <:+ given ∧ n + p.rest.length = given.length + p.applied := by
  induction h with
  | start => exact ⟨[], rfl, .start, List.suffix_rfl, Nat.add_comm ..⟩
  | round _ hnext ih =>
    obtain ⟨ss, hpending, hreaches, hsuffix, hrounds⟩ := ih
    have hround := Point.next_of_pending hpending
    rw [hnext] at hround
    cases hround with
    | step hstep hrest =>
      have hprogress := hstep.progress
      simp only [Moment.ofSigns, List.length_map] at hprogress
      refine ⟨_, rfl, hreaches.step hstep, hrest.trans hsuffix, ?_⟩
      simp only [Point.ofSigns]
      omega

theorem Visits.rounds_le (h : Visits given n p) : n ≤ 2 * given.length := by
  obtain ⟨ss, -, hreaches, -, hrounds⟩ := h.simulated
  have htotal := hreaches.totals_eq.2
  have hcount := List.countP_le_length (p := Token.isSign) (l := given.map (.ofGiven : α ⊕ String → Token α))
  simp only [Moment.signTotal, Moment.ofSigns, List.length_map] at htotal hcount
  omega

/-- A pass stops with the outcome of the pass over what its tokens are, and with a value only if nothing else is left. -/
theorem Visits.of_stop {stop : Stop α} (h : Visits given n p) (hstop : p.next = .error stop) :
    stop = .ofOutcome (value (given.map .ofGiven)) ∧
      ∀ v, value (given.map .ofGiven) = .ok v → p.operands = [v] ∧ p.pending = [] ∧ p.rest = [] := by
  obtain ⟨ss, hpending, hreaches, -⟩ := h.simulated
  have hround := Point.next_of_pending hpending
  rw [hstop] at hround
  cases hround with
  | stop houtcome hdone =>
    have hvalue := hreaches.outcome_eq.symm.trans houtcome
    refine ⟨by rw [hvalue], fun v hv => ?_⟩
    obtain ⟨hoperands, rfl, hrest⟩ := hdone v (hvalue.symm.trans hv)
    exact ⟨hoperands, hpending, hrest⟩

theorem Visits.exists_stop {n : Nat} {p : Point α} (h : Visits given n p) :
    ∃ n' p' stop, Visits given n' p' ∧ p'.next = .error stop := by
  cases hnext : p.next with
  | error stop => exact ⟨n, p, stop, h, hnext⟩
  | ok p' =>
    have := (h.round hnext).rounds_le
    exact (h.round hnext).exists_stop
termination_by 2 * given.length - n

/-- Behind the tokens taken so far, the stacks hold what these brought and applications did not use up. -/
theorem Visits.balanced (h : Visits given n p) : ∃ scanned ss, p.Balanced given scanned ss n := by
  obtain ⟨ss, hpending, hreaches, ⟨scanned, hscanned⟩, hrounds⟩ := h.simulated
  obtain ⟨hoperands, hsigns⟩ := hreaches.totals_eq
  simp only [← hscanned, Moment.operandTotal, Moment.signTotal, Moment.ofSigns, List.map_append, List.countP_append,
    List.length_append] at hoperands hsigns hrounds
  refine ⟨scanned, ss, hscanned.symm, ?_, hreaches.tightening, ?_, ?_, ?_⟩
  · simp [hpending]
  · rw [valueCount]
    omega
  · rw [hpending, List.length_map, signCount]
    omega
  · omega

/-- Whatever tokens a pass is given, at each of its points the texts that wait are those of signs, and each binds more
tightly than the one below it, so that there are at most two. There are as many values as were taken less the signs applied,
and as many signs. A pass takes at most two rounds a token, never looks for a sign on an empty stack or for a text that the
table does not have, and ends like the pass over what its tokens are. When it ends with a value, nothing else is left, and
there was one value more than signs. -/
theorem pending_tightening (given : List (α ⊕ String)) :
    (∀ n p, Visits given n p →
      (∃ scanned ss, p.Balanced given scanned ss n ∧ ss.length ≤ 2) ∧ n ≤ 2 * given.length ∧
      p.next ≠ .error .nothingPending ∧ (∀ e, p.next ≠ .error (.unknownSign e)) ∧
      ∀ v, p.next = .error (.value v) →
        p.operands = [v] ∧ p.pending = [] ∧ p.rest = [] ∧ valueCount given = signCount given + 1) ∧
    ∃ n p, Visits given n p ∧ p.next = .error (.ofOutcome (value (given.map .ofGiven))) := by
  constructor
  · intro n p h
    obtain ⟨scanned, ss, hbalanced⟩ := h.balanced
    refine ⟨⟨scanned, ss, hbalanced, hbalanced.tightening.length_le⟩, h.rounds_le, ?_, ?_, ?_⟩
    · intro hnext
      exact Stop.ofOutcome_ne_nothingPending (h.of_stop hnext).1.symm
    · intro e hnext
      exact Stop.ofOutcome_ne_unknownSign (h.of_stop hnext).1.symm
    · intro v hnext
      obtain ⟨hstop, hdone⟩ := h.of_stop hnext
      have hvalue := Stop.ofOutcome_eq_value hstop.symm
      obtain ⟨hoperands, hpending, hrest⟩ := hdone v hvalue
      exact ⟨hoperands, hpending, hrest, (counts_of_value hvalue).2⟩
  · obtain ⟨n, p, stop, h, hstop⟩ := (Visits.start : Visits given 0 (.start given)).exists_stop
    exact ⟨n, p, h, by rw [hstop, (h.of_stop hstop).1]⟩

end Flat
end Reckoner
