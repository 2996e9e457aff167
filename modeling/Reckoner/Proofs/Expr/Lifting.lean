import Mathlib.Tactic.Common
import Reckoner.Proofs.Expr.Flow

/-!
# Evaluation of other operands

Evaluation never looks into its operands. If a map takes operands of one type to those of another, and every result of a
sign between images is the image of a result, then the value of tokens with images as operands is the image of the value that
the tokens themselves have (`Group.lifts_resolve`). Each step of evaluation is lifted, and steps in a row then are.
-/
namespace Reckoner

open Outcome

/-- A value of one step, if it has any, is the image of a value of the other one that has a property. -/
def Lifts {α β : Type} (f : α → β) (P : α → Prop) (x : Except Failure β) (y : Except Failure α) : Prop :=
  ∀ b, x = .ok b → ∃ a, y = .ok a ∧ P a ∧ f a = b

namespace Lifts

variable {α β γ δ : Type} {f : α → β} {P : α → Prop} {g : γ → δ} {Q : γ → Prop}

theorem ok {a : α} {b : β} (ha : P a) (hb : f a = b) : Lifts f P (.ok b) (.ok a) := by
  rintro b' ⟨⟩
  exact ⟨a, rfl, ha, hb⟩

theorem error (e : Failure) (y : Except Failure α) : Lifts f P (.error e) y := by
  rintro b ⟨⟩

theorem bind {x : Except Failure β} {y : Except Failure α} (h : Lifts f P x y) {k : β → Except Failure δ}
    {l : α → Except Failure γ} (hk : ∀ a, P a → Lifts g Q (k (f a)) (l a)) : Lifts g Q (x >>= k) (y >>= l) := by
  intro d hd
  obtain ⟨b, hb, hd⟩ := bind_eq_ok_iff.1 hd
  obtain ⟨a, rfl, ha, rfl⟩ := h b hb
  exact hk a ha d hd

end Lifts

variable {α β : Type}

namespace Token

def map (f : α → β) : Token α → Token β
  | .operand v => .operand (f v)
  | .sign s => .sign s
  | .opening => .opening
  | .closing => .closing
  | .other text => .other text

theorem map_map {γ : Type} (g : β → γ) (f : α → β) (t : Token α) : (t.map f).map g = t.map (g ∘ f) := by
  cases t <;> rfl

end Token

def Flat.Stacks.map (f : α → β) (st : Flat.Stacks α) : Flat.Stacks β :=
  ⟨st.operands.map f, st.signs⟩

variable [Operand α] [Operand β] {f : α → β} {P : α → Prop} {S : Sign → Prop}
  (hf : ∀ s a b, S s → P a → P b → Lifts f P (Operand.apply s (f a) (f b)) (Operand.apply s a b))

namespace Flat

include hf

theorem lifts_applyTop {s : Sign} (hs : S s) {os : List α} (hos : ∀ v ∈ os, P v) :
    Lifts (List.map f) (∀ v ∈ ·, P v) (applyTop s (os.map f)) (applyTop s os) := by
  rcases os with - | ⟨b, - | ⟨a, os⟩⟩
  · exact .error _ _
  · exact .error _ _
  · obtain ⟨hb, ha, hos⟩ : P b ∧ P a ∧ ∀ v ∈ os, P v := by simpa using hos
    exact (hf s a b hs ha hb).bind fun v hv => .ok (List.forall_mem_cons.2 ⟨hv, hos⟩) rfl

theorem lifts_release (bar : Nat) {os : List α} (hos : ∀ v ∈ os, P v) {ss : List Sign} (hss : ∀ s ∈ ss, S s) :
    Lifts (Stacks.map f) (Stacks.Suits P S) (release bar (os.map f) ss) (release bar os ss) := by
  induction ss generalizing os with
  | nil => exact .ok ⟨hos, hss⟩ rfl
  | cons s ss ih =>
    obtain ⟨hs, hrest⟩ := List.forall_mem_cons.1 hss
    rw [release, release]
    split
    · exact (lifts_applyTop hf hs hos).bind fun os' hos' => ih hos' hrest
    · exact .ok ⟨hos, hss⟩ rfl

theorem lifts_step {st : Stacks α} (hst : st.Suits P S) {t : Token α} (ht : t.Suits P S) :
    Lifts (Stacks.map f) (Stacks.Suits P S) (step (st.map f) (t.map f)) (step st t) := by
  obtain ⟨hos, hss⟩ := hst
  cases t with
  | operand v => exact .ok ⟨List.forall_mem_cons.2 ⟨ht, hos⟩, hss⟩ rfl
  | sign s =>
    refine (lifts_release hf s.precedence hos hss).bind fun st' hst' => ?_
    exact .ok ⟨hst'.1, List.forall_mem_cons.2 ⟨ht, hst'.2⟩⟩ rfl
  | opening => exact .error _ _
  | closing => exact .error _ _
  | other text => exact .error _ _

theorem lifts_scan {st : Stacks α} (hst : st.Suits P S) {ts : List (Token α)} (hts : ∀ t ∈ ts, t.Suits P S) :
    Lifts (Stacks.map f) (Stacks.Suits P S) (scan (st.map f) (ts.map (Token.map f))) (scan st ts) := by
  induction ts generalizing st with
  | nil => exact .ok hst rfl
  | cons t ts ih =>
    obtain ⟨ht, hts⟩ := List.forall_mem_cons.1 hts
    rw [List.map_cons, scan_cons, scan_cons]
    exact (lifts_step hf hst ht).bind fun st' hst' => ih hst' hts

omit hf [Operand α] [Operand β] in
private theorem lifts_single {os : List α} (hos : ∀ v ∈ os, P v) : Lifts f P (single (os.map f)) (single os) := by
  rcases os with - | ⟨v, - | ⟨w, os⟩⟩
  · exact .error _ _
  · exact .ok (hos v (List.mem_singleton_self v)) rfl
  · exact .error _ _

theorem lifts_value {ts : List (Token α)} (hts : ∀ t ∈ ts, t.Suits P S) :
    Lifts f P (value (ts.map (Token.map f))) (value ts) := by
  have hempty : (Stacks.empty : Stacks α).Suits P S := by simp [Stacks.Suits, Stacks.empty]
  refine (lifts_scan hf hempty hts).bind fun st hst => ?_
  exact (lifts_release hf 0 hst.1 hst.2).bind fun st' hst' => lifts_single hst'.1

end Flat

namespace Group

omit [Operand α] [Operand β] in
theorem splitAtClosing_map (ts : List (Token α)) :
    splitAtClosing (ts.map (Token.map f)) =
      (splitAtClosing ts).map fun p => (p.1.map (Token.map f), p.2.map (Token.map f)) := by
  induction ts with
  | nil => rfl
  | cons t ts ih =>
    cases t with
    | closing => rfl
    | _ => simp [splitAtClosing, Token.map, ih, Function.comp_def]

include hf

variable (hw : ∀ v, P v → Operand.isWritable v = true)

include hw

theorem lifts_groupValue {ts : List (Token α)} (hts : ∀ t ∈ ts, t.Suits P S) :
    Lifts f P (groupValue (ts.map (Token.map f))) (groupValue ts) := by
  refine (Flat.lifts_value hf hts).bind fun v hv => ?_
  rw [if_pos (hw v hv)]
  split
  · exact .ok hv rfl
  · exact .error _ _

theorem lifts_close {ts : List (Token α)} (hts : ∀ t ∈ ts, t.Suits P S) :
    Lifts (fun p => (f p.1, p.2.map (Token.map f))) (fun p => P p.1 ∧ ∀ t ∈ p.2, t.Suits P S)
      (close (ts.map (Token.map f))) (close ts) := by
  rw [close, close, splitAtClosing_map]
  cases hsplit : splitAtClosing ts with
  | none => exact .error _ _
  | some p =>
    obtain ⟨rfl, -⟩ := eq_append_of_splitAtClosing hsplit
    obtain ⟨hinside, -, hafter⟩ : (∀ t ∈ p.1, t.Suits P S) ∧ _ ∧ ∀ t ∈ p.2, t.Suits P S := by
      rwa [List.forall_mem_append, List.forall_mem_cons] at hts
    exact (lifts_groupValue hf hw hinside).bind fun v hv => .ok ⟨hv, hafter⟩ rfl

theorem lifts_absorb {t : Token α} (ht : t.Suits P S) {rest : List (Token α)} (hrest : ∀ t ∈ rest, t.Suits P S) :
    Lifts (List.map (Token.map f)) (∀ t ∈ ·, t.Suits P S) (absorb (t.map f) (rest.map (Token.map f))) (absorb t rest) := by
  cases t with
  | opening => exact (lifts_close hf hw hrest).bind fun p hp => .ok (List.forall_mem_cons.2 hp) rfl
  | _ => exact .ok (List.forall_mem_cons.2 ⟨ht, hrest⟩) rfl

theorem lifts_remaining {ts rest : List (Token α)} (hts : ∀ t ∈ ts, t.Suits P S) (hrest : ∀ t ∈ rest, t.Suits P S) :
    Lifts (List.map (Token.map f)) (∀ t ∈ ·, t.Suits P S) (remaining (ts.map (Token.map f)) (rest.map (Token.map f)))
      (remaining ts rest) := by
  induction ts with
  | nil => exact .ok hrest rfl
  | cons t ts ih =>
    obtain ⟨ht, hts⟩ := List.forall_mem_cons.1 hts
    rw [List.map_cons, remaining_cons, remaining_cons]
    exact (ih hts).bind fun us hus => lifts_absorb hf hw ht hus

/-- A value of the images of some tokens is the image of the value that the tokens have. -/
theorem lifts_resolve {ts : List (Token α)} (hts : ∀ t ∈ ts, t.Suits P S) :
    Lifts f P (resolve (ts.map (Token.map f))) (resolve ts) := by
  rw [resolve_eq, resolve_eq]
  have hnil : ∀ t ∈ ([] : List (Token α)), t.Suits P S := by simp
  exact (lifts_remaining hf hw hts hnil).bind fun us hus => Flat.lifts_value hf hus

end Group
end Reckoner
