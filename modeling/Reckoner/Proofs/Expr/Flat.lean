import Mathlib.Tactic.Common
import Reckoner.Expr.Flat
import Reckoner.Expr.Formula
import Reckoner.Proofs.Outcome

/-!
# The flat pass computes trees

The two stacks applied to the tokens of a flat tree give the value of the tree: the pending signs bind more loosely than
anything still to come, so that a part of the tree leaves exactly its value on top of the operands (`scan_tokens`). The
failures agree too, since the signs are applied in the order in which the tree is evaluated.
-/
namespace Reckoner

namespace FlatTree

def level : FlatTree → Nat
  | .number _ => 3
  | .join s _ _ => s.precedence

/-- Whether the tree is the one that precedence and association to the left give its tokens. -/
def WellFormed : FlatTree → Prop
  | .number _ => True
  | .join s l r => l.WellFormed ∧ r.WellFormed ∧ s.precedence ≤ l.level ∧ s.precedence < r.level

def tokens : FlatTree → List (Token Number)
  | .number n => [.operand n]
  | .join s l r => l.tokens ++ .sign s :: r.tokens

end FlatTree

namespace Flat

open Outcome

variable {α : Type} [Operand α]

theorem applyTop_eq_ok {s : Sign} {os os' : List α} (h : applyTop s os = .ok os') :
    ∃ a b v rest, os = b :: a :: rest ∧ Operand.apply s a b = .ok v ∧ os' = v :: rest := by
  rcases os with - | ⟨b, - | ⟨a, rest⟩⟩
  · cases h
  · cases h
  · obtain ⟨v, hv, h⟩ := bind_eq_ok_iff.1 h
    cases h
    exact ⟨a, b, v, rest, rfl, hv, rfl⟩

theorem release_of_lt {bar : Nat} {ss : List Sign} (h : ∀ s ∈ ss, s.precedence < bar) (os : List α) :
    release bar os ss = .ok ⟨os, ss⟩ := by
  cases ss with
  | nil => rfl
  | cons s ss =>
    have hs : ¬bar ≤ s.precedence := by
      have := h s (by simp)
      omega
    simp [release, hs]

theorem release_release {β : Type} {low high : Nat} (h : low ≤ high) (os : List α) (ss : List Sign)
    (k : Stacks α → Except Failure β) :
    (release high os ss >>= fun st => release low st.operands st.signs >>= k) = release low os ss >>= k := by
  induction ss generalizing os with
  | nil => rfl
  | cons s ss ih =>
    by_cases hs : high ≤ s.precedence
    · have hlow : low ≤ s.precedence := Nat.le_trans h hs
      simp only [release, hs, hlow, if_true, bind_assoc, ih]
    · simp [release, hs]

theorem scan_append (st : Stacks α) (xs ys : List (Token α)) :
    scan st (xs ++ ys) = scan st xs >>= fun st => scan st ys :=
  List.foldlM_append

@[simp] theorem scan_cons (st : Stacks α) (t : Token α) (ts : List (Token α)) :
    scan st (t :: ts) = step st t >>= fun st => scan st ts :=
  List.foldlM_cons

/-- Above signs that bind more loosely, the tokens of a tree leave its value, whatever is done next. -/
theorem scan_tokens {β : Type} {t : FlatTree} (hw : t.WellFormed) {bar : Nat} (hbar : bar ≤ t.level)
    (os : List Number) {ss : List Sign} (hs : ∀ s ∈ ss, s.precedence < bar)
    (k : Stacks Number → Except Failure β) :
    (scan ⟨os, ss⟩ t.tokens >>= fun st => release bar st.operands st.signs >>= k) =
      t.value >>= fun v => k ⟨v :: os, ss⟩ := by
  induction t generalizing β bar os ss with
  | number n =>
    change release bar (n :: os) ss >>= k = _
    rw [release_of_lt hs]
    rfl
  | join s l r ihl ihr =>
    obtain ⟨hwl, hwr, hl, hr⟩ := hw
    change bar ≤ s.precedence at hbar
    have hss : ∀ s' ∈ ss, s'.precedence < s.precedence := fun s' h => Nat.lt_of_lt_of_le (hs s' h) hbar
    have hright : ∀ s' ∈ s :: ss, s'.precedence < s.precedence + 1 := by
      intro s' h
      rcases List.mem_cons.1 h with rfl | h
      · exact Nat.lt_succ_self _
      · exact Nat.lt_succ_of_lt (hss s' h)
    -- After the right part, the signs from `bar` on are just its own and `s`.
    have hrest (a : Number) : (scan ⟨a :: os, s :: ss⟩ r.tokens >>= fun st =>
        release bar st.operands st.signs >>= k) = r.value >>= fun b => s.apply a b >>= fun v => k ⟨v :: os, ss⟩ := by
      have h := ihr hwr hr (a :: os) hright fun st => release bar st.operands st.signs >>= k
      simp only [release_release (Nat.le_succ_of_le hbar)] at h
      rw [h]
      congr 1
      funext b
      simp only [release, hbar, if_true, applyTop, bind_assoc, pure_eq_ok, ok_bind, release_of_lt hs]
      rfl
    calc (scan ⟨os, ss⟩ (l.tokens ++ .sign s :: r.tokens) >>= fun st => release bar st.operands st.signs >>= k)
        = scan ⟨os, ss⟩ l.tokens >>= fun st => release s.precedence st.operands st.signs >>= fun st =>
            scan ⟨st.operands, s :: st.signs⟩ r.tokens >>= fun st => release bar st.operands st.signs >>= k := by
          simp only [scan_append, scan_cons, step, bind_assoc, pure_eq_ok, ok_bind]
      _ = l.value >>= fun a => r.value >>= fun b => s.apply a b >>= fun v => k ⟨v :: os, ss⟩ := by
          rw [ihl hwl hl os hss]
          simp only [hrest]
      _ = (FlatTree.join s l r).value >>= fun v => k ⟨v :: os, ss⟩ := by
          simp only [FlatTree.value, bind_assoc]

/-- The flat pass over the tokens of a tree gives its value, or its first failure. -/
theorem value_tokens {t : FlatTree} (hw : t.WellFormed) : value t.tokens = t.value := by
  have hnone : ∀ s ∈ ([] : List Sign), s.precedence < 0 := by simp
  calc value t.tokens = t.value >>= fun v => single [v] :=
        scan_tokens hw (Nat.zero_le _) [] hnone fun st => single st.operands
    _ = t.value := by cases t.value <;> rfl

end Flat
end Reckoner
