import Mathlib
import Reckoner.Expr.Formula
import Reckoner.Proofs.Expr.Bounds
import Reckoner.Proofs.Expr.Flat
import Reckoner.Proofs.Expr.Group
import Reckoner.Proofs.Expr.Tokens

/-!
# Renderings of trees

A formula renders the tree that is left when its parentheses are taken away, and blanks may stand anywhere in its text.
The value of the text is the value of the tree. A text whose tree has no value fails as the group does that opens
furthest to the right among those that fail by themselves.
-/
namespace Reckoner

open Outcome

/-- An expression by its shape, which says what the parentheses of a text say. -/
inductive Tree where
  | literal (cs : List Char)
  | join (s : Sign) (left right : Tree)

namespace Tree

def value : Tree → Except Failure Number
  | .literal cs => Literal.value cs
  | .join s l r => do
    let a ← l.value
    let b ← r.value
    s.apply a b

def Accepted : Tree → Prop
  | .literal cs => ∃ n, Literal.value cs = .ok n
  | .join _ l r => l.Accepted ∧ r.Accepted

end Tree

namespace FlatTree

def Bounded : FlatTree → Prop
  | .number n => n.Bounded
  | .join _ l r => l.Bounded ∧ r.Bounded

theorem bounded_value {t : FlatTree} (ht : t.Bounded) {n : Number} (h : t.value = .ok n) : n.Bounded := by
  induction t generalizing n with
  | number m =>
    cases h
    exact ht
  | join s l r ihl ihr =>
    obtain ⟨a, ha, h⟩ := bind_eq_ok_iff.1 h
    obtain ⟨b, hb, h⟩ := bind_eq_ok_iff.1 h
    exact Sign.bounded_apply (ihl ht.1 ha) (ihr ht.2 hb) h

theorem closing_notMem_tokens (t : FlatTree) : Token.closing ∉ t.tokens := by
  induction t with
  | number n => simp [tokens]
  | join s l r ihl ihr => simp [tokens, ihl, ihr]

theorem groupValue_tokens {t : FlatTree} (hw : t.WellFormed) (hb : t.Bounded) :
    Group.groupValue t.tokens = t.value := by
  rw [Group.groupValue, Flat.value_tokens hw]
  cases hv : t.value with
  | error e => rfl
  | ok n =>
    have hn : Operand.isWritable n = true := (bounded_value hb hv).isWritable
    simp [hn]

end FlatTree

namespace Formula

def tree : Formula → Tree
  | .literal cs => .literal cs
  | .group f => f.tree
  | .join s l r => .join s l.tree r.tree

theorem value_eq_tree_value (f : Formula) : f.value = f.tree.value := by
  induction f with
  | literal cs => rfl
  | group f ih => exact ih
  | join s l r ihl ihr => simp only [value, tree, Tree.value, ihl, ihr]

/-! ### Groups first -/

theorem value_eq_of_flatten {f : Formula} {t : FlatTree} (h : f.flatten = .ok t) : f.value = t.value := by
  induction f generalizing t with
  | literal cs =>
    obtain ⟨n, hn, ht⟩ := bind_eq_ok_iff.1 h
    cases ht
    exact hn
  | group f ih =>
    obtain ⟨u, hu, h⟩ := bind_eq_ok_iff.1 h
    obtain ⟨n, hn, ht⟩ := bind_eq_ok_iff.1 h
    cases ht
    rw [value, ih hu, hn, FlatTree.value]
  | join s l r ihl ihr =>
    obtain ⟨u, hu, h⟩ := bind_eq_ok_iff.1 h
    obtain ⟨v, hv, ht⟩ := bind_eq_ok_iff.1 h
    cases ht
    rw [value, ihl hv, ihr hu, FlatTree.value]

theorem exists_flatten_of_value {f : Formula} {n : Number} (h : f.value = .ok n) : ∃ t, f.flatten = .ok t := by
  induction f generalizing n with
  | literal cs => exact ⟨.number n, bind_eq_ok_iff.2 ⟨n, h, rfl⟩⟩
  | group f ih =>
    obtain ⟨t, ht⟩ := ih h
    exact ⟨.number n, bind_eq_ok_iff.2 ⟨t, ht, bind_eq_ok_iff.2 ⟨n, value_eq_of_flatten ht ▸ h, rfl⟩⟩⟩
  | join s l r ihl ihr =>
    obtain ⟨a, ha, h⟩ := bind_eq_ok_iff.1 h
    obtain ⟨b, hb, -⟩ := bind_eq_ok_iff.1 h
    obtain ⟨t, ht⟩ := ihl ha
    obtain ⟨u, hu⟩ := ihr hb
    exact ⟨.join s t u, bind_eq_ok_iff.2 ⟨u, hu, bind_eq_ok_iff.2 ⟨t, ht, rfl⟩⟩⟩

/-- The order in which groups are replaced does not matter for the value. -/
theorem resolved_eq_ok_iff {f : Formula} {n : Number} : f.resolved = .ok n ↔ f.value = .ok n := by
  constructor
  · intro h
    obtain ⟨t, ht, hn⟩ := bind_eq_ok_iff.1 h
    rw [value_eq_of_flatten ht, hn]
  · intro h
    obtain ⟨t, ht⟩ := exists_flatten_of_value h
    exact bind_eq_ok_iff.2 ⟨t, ht, value_eq_of_flatten ht ▸ h⟩

/-! ### The groups of a text -/

/-- The contents of all parentheses, each with the place of the opening one, in a text that begins at `start`. -/
def groupsFrom (start : Nat) : Formula → List (Nat × Formula)
  | .literal _ => []
  | .group f => (start, f) :: f.groupsFrom (start + 1)
  | .join _ l r => l.groupsFrom start ++ r.groupsFrom (start + l.text.length + 1)

def groups (f : Formula) : List (Nat × Formula) :=
  f.groupsFrom 0

/-- The groups inside have values, but what is left when these stand for them has none. -/
def Fails (f : Formula) (e : Failure) : Prop :=
  ∃ t, f.flatten = .ok t ∧ t.value = .error e

/-- The failure of the group that opens furthest to the right among those that fail. The whole formula counts as a group
that opens to the left of all others. -/
def LastFailure (f : Formula) (e : Failure) : Prop :=
  (∃ p g, (p, g) ∈ f.groups ∧ g.Fails e ∧ ∀ q h, (q, h) ∈ f.groups → p < q → ∀ e', ¬h.Fails e') ∨
    (f.Fails e ∧ ∀ q h, (q, h) ∈ f.groups → ∀ e', ¬h.Fails e')

theorem text_of_mem_groupsFrom {f g : Formula} {start p : Nat} (h : (p, g) ∈ f.groupsFrom start) :
    ∃ before after, f.text = before ++ ('(' :: g.text ++ ')' :: after) ∧ p = start + before.length := by
  induction f generalizing start with
  | literal cs => cases h
  | group f ih =>
    rcases List.mem_cons.1 h with h | h
    · cases h
      exact ⟨[], [], by simp [text], rfl⟩
    · obtain ⟨before, after, ht, rfl⟩ := ih h
      refine ⟨'(' :: before, after ++ [')'], by simp [text, ht], ?_⟩
      rw [List.length_cons]
      omega
  | join s l r ihl ihr =>
    rcases List.mem_append.1 h with h | h
    · obtain ⟨before, after, ht, rfl⟩ := ihl h
      exact ⟨before, after ++ s.symbol :: r.text, by simp [text, ht], rfl⟩
    · obtain ⟨before, after, ht, rfl⟩ := ihr h
      refine ⟨l.text ++ s.symbol :: before, after, by simp [text, ht], ?_⟩
      rw [List.length_append, List.length_cons]
      omega

private theorem le_of_mem_groupsFrom {f g : Formula} {start p : Nat} (h : (p, g) ∈ f.groupsFrom start) :
    start ≤ p ∧ p < start + f.text.length := by
  obtain ⟨before, after, ht, rfl⟩ := text_of_mem_groupsFrom h
  rw [ht, List.length_append, List.length_append, List.length_cons]
  omega

private theorem eq_of_mem_groupsFrom {f g g' : Formula} {start p : Nat} (h : (p, g) ∈ f.groupsFrom start)
    (h' : (p, g') ∈ f.groupsFrom start) : g = g' := by
  induction f generalizing start with
  | literal cs => cases h
  | group f ih =>
    rcases List.mem_cons.1 h with h | h <;> rcases List.mem_cons.1 h' with h' | h'
    · cases h
      cases h'
      rfl
    · cases h
      have := (le_of_mem_groupsFrom h').1
      omega
    · cases h'
      have := (le_of_mem_groupsFrom h).1
      omega
    · exact ih h h'
  | join s l r ihl ihr =>
    rcases List.mem_append.1 h with h | h <;> rcases List.mem_append.1 h' with h' | h'
    · exact ihl h h'
    · have := (le_of_mem_groupsFrom h).2
      have := (le_of_mem_groupsFrom h').1
      omega
    · have := (le_of_mem_groupsFrom h).1
      have := (le_of_mem_groupsFrom h').2
      omega
    · exact ihr h h'

theorem Fails.eq {f : Formula} {e e' : Failure} (h : f.Fails e) (h' : f.Fails e') : e = e' := by
  obtain ⟨t, ht, hv⟩ := h
  obtain ⟨t', ht', hv'⟩ := h'
  rw [ht] at ht'
  cases ht'
  rw [hv] at hv'
  cases hv'
  rfl

theorem LastFailure.eq {f : Formula} {e e' : Failure} (h : f.LastFailure e) (h' : f.LastFailure e') : e = e' := by
  rcases h with ⟨p, g, hm, hg, hlast⟩ | ⟨hf, hnone⟩ <;> rcases h' with ⟨p', g', hm', hg', hlast'⟩ | ⟨hf', hnone'⟩
  · rcases Nat.lt_trichotomy p p' with hlt | rfl | hlt
    · exact absurd hg' (hlast p' g' hm' hlt e')
    · cases eq_of_mem_groupsFrom hm hm'
      exact hg.eq hg'
    · exact absurd hg (hlast' p g hm hlt e)
  · exact absurd hg (hnone' p g hm e)
  · exact absurd hg' (hnone p' g' hm' e')
  · exact hf.eq hf'

theorem not_fails_of_flatten {f : Formula} {t : FlatTree} (ht : f.flatten = .ok t) {start q : Nat} {h : Formula}
    (hm : (q, h) ∈ f.groupsFrom start) (e : Failure) : ¬h.Fails e := by
  induction f generalizing t start with
  | literal cs => cases hm
  | group f ih =>
    obtain ⟨u, hu, ht⟩ := bind_eq_ok_iff.1 ht
    obtain ⟨n, hn, -⟩ := bind_eq_ok_iff.1 ht
    rcases List.mem_cons.1 hm with hm | hm
    · cases hm
      rintro ⟨u', hu', he⟩
      rw [hu] at hu'
      cases hu'
      rw [hn] at he
      cases he
    · exact ih hu hm
  | join s l r ihl ihr =>
    obtain ⟨u, hu, ht⟩ := bind_eq_ok_iff.1 ht
    obtain ⟨v, hv, -⟩ := bind_eq_ok_iff.1 ht
    rcases List.mem_append.1 hm with hm | hm
    · exact ihl hv hm
    · exact ihr hu hm

/-- Replacing the groups from the right stops at the last one that fails. -/
theorem flatten_eq_error {f : Formula} (ha : f.tree.Accepted) {e : Failure} (h : f.flatten = .error e)
    (start : Nat) : ∃ p g, (p, g) ∈ f.groupsFrom start ∧ g.Fails e ∧
      ∀ q h, (q, h) ∈ f.groupsFrom start → p < q → ∀ e', ¬h.Fails e' := by
  induction f generalizing start with
  | literal cs =>
    obtain ⟨n, hn⟩ := ha
    rw [flatten, hn] at h
    cases h
  | group f ih =>
    rcases bind_eq_error_iff.1 h with h | ⟨t, ht, h⟩
    · obtain ⟨p, g, hm, hg, hlast⟩ := ih ha h (start + 1)
      refine ⟨p, g, List.mem_cons_of_mem _ hm, hg, ?_⟩
      intro q h' hq hpq
      rcases List.mem_cons.1 hq with hq | hq
      · cases hq
        have := (le_of_mem_groupsFrom hm).1
        omega
      · exact hlast q h' hq hpq
    · have hv : t.value = .error e := eq_error_of_bind_ok h
      refine ⟨start, f, List.mem_cons_self, ⟨t, ht, hv⟩, ?_⟩
      intro q h' hq hpq
      rcases List.mem_cons.1 hq with hq | hq
      · cases hq
        exact absurd hpq (Nat.lt_irrefl _)
      · exact not_fails_of_flatten ht hq
  | join s l r ihl ihr =>
    rcases bind_eq_error_iff.1 h with h | ⟨u, hu, h⟩
    · obtain ⟨p, g, hm, hg, hlast⟩ := ihr ha.2 h (start + l.text.length + 1)
      refine ⟨p, g, List.mem_append_right _ hm, hg, ?_⟩
      intro q h' hq hpq
      rcases List.mem_append.1 hq with hq | hq
      · have := (le_of_mem_groupsFrom hm).1
        have := (le_of_mem_groupsFrom hq).2
        omega
      · exact hlast q h' hq hpq
    · have hl : l.flatten = .error e := eq_error_of_bind_ok h
      obtain ⟨p, g, hm, hg, hlast⟩ := ihl ha.1 hl start
      refine ⟨p, g, List.mem_append_left _ hm, hg, ?_⟩
      intro q h' hq hpq
      rcases List.mem_append.1 hq with hq | hq
      · exact hlast q h' hq hpq
      · exact not_fails_of_flatten hu hq

theorem lastFailure_of_resolved {f : Formula} (ha : f.tree.Accepted) {e : Failure} (h : f.resolved = .error e) :
    f.LastFailure e := by
  rcases bind_eq_error_iff.1 h with h | ⟨t, ht, h⟩
  · exact .inl (flatten_eq_error ha h 0)
  · exact .inr ⟨⟨t, ht, h⟩, fun q h' hm => not_fails_of_flatten ht hm⟩

/-! ### The tokens of a text -/

theorem flatten_wellFormed {f : Formula} (hw : f.WellFormed) {t : FlatTree} (h : f.flatten = .ok t) :
    t.WellFormed ∧ f.level ≤ t.level := by
  induction f generalizing t with
  | literal cs =>
    obtain ⟨n, -, h⟩ := bind_eq_ok_iff.1 h
    cases h
    exact ⟨trivial, Nat.le_refl _⟩
  | group f ih =>
    obtain ⟨u, -, h⟩ := bind_eq_ok_iff.1 h
    obtain ⟨n, -, h⟩ := bind_eq_ok_iff.1 h
    cases h
    exact ⟨trivial, Nat.le_refl _⟩
  | join s l r ihl ihr =>
    obtain ⟨u, hu, h⟩ := bind_eq_ok_iff.1 h
    obtain ⟨v, hv, h⟩ := bind_eq_ok_iff.1 h
    cases h
    obtain ⟨hwl, hwr, hl, hr⟩ := hw
    have hl' := ihl hwl hv
    have hr' := ihr hwr hu
    exact ⟨⟨hl'.1, hr'.1, hl.trans hl'.2, hr.trans_le hr'.2⟩, Nat.le_refl _⟩

theorem flatten_bounded {f : Formula} (hw : f.WellFormed) {t : FlatTree} (h : f.flatten = .ok t) : t.Bounded := by
  induction f generalizing t with
  | literal cs =>
    obtain ⟨n, hn, h⟩ := bind_eq_ok_iff.1 h
    cases h
    exact Literal.bounded_value hw.2 hn
  | group f ih =>
    obtain ⟨u, hu, h⟩ := bind_eq_ok_iff.1 h
    obtain ⟨n, hn, h⟩ := bind_eq_ok_iff.1 h
    cases h
    exact FlatTree.bounded_value (ih hw hu) hn
  | join s l r ihl ihr =>
    obtain ⟨u, hu, h⟩ := bind_eq_ok_iff.1 h
    obtain ⟨v, hv, h⟩ := bind_eq_ok_iff.1 h
    cases h
    exact ⟨ihl hw.1 hv, ihr hw.2.1 hu⟩

theorem tokenize_text {f : Formula} (hw : f.WellFormed) (ha : f.tree.Accepted) : ∃ ts, tokenize f.text = .ok ts := by
  induction f with
  | literal cs =>
    obtain ⟨n, hn⟩ := ha
    exact ⟨[.operand n], by rw [text, tokenize_literal hw.1 hw.2, hn, ok_bind]⟩
  | group f ih =>
    obtain ⟨ts, ht⟩ := ih hw ha
    refine ⟨.opening :: (ts ++ [.closing]), ?_⟩
    rw [text, tokenize_group, ht]
    rfl
  | join s l r ihl ihr =>
    obtain ⟨ts, hl⟩ := ihl hw.1 ha.1
    obtain ⟨us, hr⟩ := ihr hw.2.1 ha.2
    refine ⟨ts ++ .sign s :: us, ?_⟩
    rw [text, tokenize_append_sign, hl, hr]
    rfl

/-- Behind a formula's text, resolution leaves the tokens of its flat tree. -/
theorem remaining_tokens {f : Formula} (hw : f.WellFormed) {ts : List (Token Number)} (h : tokenize f.text = .ok ts)
    (rest : List (Token Number)) :
    Group.remaining ts rest = f.flatten >>= fun t => .ok (t.tokens ++ rest) := by
  induction f generalizing ts rest with
  | literal cs =>
    rw [text, tokenize_literal hw.1 hw.2] at h
    obtain ⟨n, hn, h⟩ := bind_eq_ok_iff.1 h
    cases h
    rw [flatten, hn]
    rfl
  | group f ih =>
    rw [text, tokenize_group] at h
    obtain ⟨us, hu, h⟩ := bind_eq_ok_iff.1 h
    cases h
    have hclosing : Group.remaining [.closing] rest = .ok (.closing :: rest) := rfl
    rw [Group.remaining_cons, Group.remaining_append, hclosing, ok_bind, ih hw hu, flatten]
    cases ht : f.flatten with
    | error e => rfl
    | ok t =>
      have hwf : f.WellFormed := hw
      have hvalue := t.groupValue_tokens (flatten_wellFormed hwf ht).1 (flatten_bounded hwf ht)
      rw [ok_bind, ok_bind, ok_bind, Group.absorb_opening t.closing_notMem_tokens, hvalue, bind_assoc]
      rfl
  | join s l r ihl ihr =>
    rw [text, tokenize_append_sign] at h
    obtain ⟨us, hl, h⟩ := bind_eq_ok_iff.1 h
    obtain ⟨vs, hr, h⟩ := bind_eq_ok_iff.1 h
    cases h
    have hsign (rest : List (Token Number)) : Group.absorb (.sign s) rest = .ok (.sign s :: rest) := rfl
    rw [Group.remaining_append, Group.remaining_cons, ihr hw.2.1 hr rest, flatten]
    cases hu : r.flatten with
    | error e => rfl
    | ok u =>
      rw [ok_bind, ok_bind, ok_bind, hsign, ok_bind, ihl hw.1 hl, bind_assoc]
      simp only [pure_eq_ok, ok_bind, FlatTree.tokens, List.append_assoc, List.cons_append]

theorem evaluate_text {f : Formula} (hw : f.WellFormed) (ha : f.tree.Accepted) {s : String}
    (hs : Text.dropBlanks s.toList = f.text) : evaluate s = f.resolved := by
  obtain ⟨ts, ht⟩ := tokenize_text hw ha
  rw [evaluate_eq, hs, ht, ok_bind, Group.resolve_eq, remaining_tokens hw ht, resolved]
  cases hf : f.flatten with
  | error e => rfl
  | ok t => simp only [ok_bind, List.append_nil, Flat.value_tokens (flatten_wellFormed hw hf).1]

end Formula

/-- A rendering of a tree has the tree's value. Where the tree has none, the rendering fails as the last of its failing
groups does. -/
theorem evaluate_rendering {t : Tree} (ht : t.Accepted) {f : Formula} (hw : f.WellFormed) (hf : f.tree = t)
    {s : String} (hs : Text.dropBlanks s.toList = f.text) :
    (∀ v, evaluate s = .ok v ↔ t.value = .ok v) ∧
      ∀ e, t.value = .error e → ∃ e', evaluate s = .error e' ∧ ∀ e'', f.LastFailure e'' ↔ e'' = e' := by
  subst hf
  have hvalue (v : Number) : evaluate s = .ok v ↔ f.tree.value = .ok v := by
    rw [Formula.evaluate_text hw ht hs, Formula.resolved_eq_ok_iff, Formula.value_eq_tree_value]
  refine ⟨hvalue, ?_⟩
  intro e he
  cases hs' : evaluate s with
  | ok v =>
    rw [(hvalue v).1 hs'] at he
    cases he
  | error e' =>
    rw [Formula.evaluate_text hw ht hs] at hs'
    have hlast := Formula.lastFailure_of_resolved ht hs'
    refine ⟨e', rfl, fun e'' => ⟨fun h => h.eq hlast, ?_⟩⟩
    rintro rfl
    exact hlast

def blankFormula : Formula :=
  .join .minus (.literal ['7']) (.join .dividedBy (.group (.group (.literal ['1', '2'])))
    (.group (.join .minus (.literal ['1']) (.literal ['1']))))

theorem evaluate_rendering_blanks :
    ∃ e, evaluate "7 - ((1 2)) / (1 - 1)" = .error e ∧ ∀ e', blankFormula.LastFailure e' ↔ e' = e := by
  have ha : blankFormula.tree.Accepted := ⟨⟨_, rfl⟩, ⟨_, rfl⟩, ⟨_, rfl⟩, ⟨_, rfl⟩⟩
  have hw : blankFormula.WellFormed := by
    simp [blankFormula, Formula.WellFormed, Formula.level, Literal.isLiteralChar, Text.isAsciiDigit, Sign.precedence,
      Sign.operator]
  have ht : Text.dropBlanks "7 - ((1 2)) / (1 - 1)".toList = blankFormula.text := by decide
  have hv : blankFormula.tree.value = .error (.evaluation .divisionByZero) := rfl
  exact (evaluate_rendering ha hw rfl ht).2 _ hv

end Reckoner
