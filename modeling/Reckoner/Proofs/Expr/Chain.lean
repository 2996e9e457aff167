import Mathlib.Tactic.Common
import Reckoner.Expr.Evaluate
import Reckoner.Proofs.Expr.Counting
import Reckoner.Proofs.Expr.Tokens

/-!
# The flat pass reads chains

A text without blanks and parentheses has a value exactly if it is a chain of literals whose two-level reading has that
value (`evaluateFlat_iff_chain`). The flat pass does not look for chains. It gets none but them because a text has no two
operands side by side, and then the counts of the pass leave no other arrangement.
-/
namespace Reckoner

open Outcome

/-! ### The first failure -/

namespace FlatTree

theorem exists_value_of_mem_joins {t u : FlatTree} {v : Number} (h : t.value = .ok v) (hu : u ∈ t.joins) :
    ∃ w, u.value = .ok w := by
  induction t generalizing v with
  | number n => cases hu
  | join s l r ihl ihr =>
    obtain ⟨a, ha, h'⟩ := bind_eq_ok_iff.1 h
    obtain ⟨b, hb, -⟩ := bind_eq_ok_iff.1 h'
    simp only [joins, List.mem_append, List.mem_singleton] at hu
    rcases hu with (hu | hu) | rfl
    · exact ihl ha hu
    · exact ihr hb hu
    · exact ⟨v, h⟩

theorem Refuses.value_eq {u : FlatTree} {e : Failure} (h : u.Refuses e) : u.value = .error e := by
  cases u with
  | number n => cases h
  | join s l r =>
    obtain ⟨a, b, ha, hb, he⟩ := h
    simp [value, ha, hb, he]

theorem FirstFailure.eq {t : FlatTree} {e e' : Failure} (h : t.FirstFailure e) (h' : t.FirstFailure e') : e = e' := by
  have hfirst {e : Failure} (h : t.FirstFailure e) : t.joins.mapM value = .error e := by
    obtain ⟨before, u, after, hjoins, hbefore, hu⟩ := h
    exact mapM_eq_error_iff.2 ⟨before, u, after, hjoins, hbefore, hu.value_eq⟩
  have heq := (hfirst h).symm.trans (hfirst h')
  simpa using heq

theorem firstFailure_of_value {t : FlatTree} {e : Failure} (h : t.value = .error e) : t.FirstFailure e := by
  induction t with
  | number n => cases h
  | join s l r ihl ihr =>
    rcases bind_eq_error_iff.1 h with hl | ⟨a, ha, h⟩
    · obtain ⟨before, u, after, hjoins, hbefore, hu⟩ := ihl hl
      exact ⟨before, u, after ++ r.joins ++ [.join s l r], by simp [joins, hjoins], hbefore, hu⟩
    · have hleft : ∀ w ∈ l.joins, ∃ v, w.value = .ok v := fun w hw => exists_value_of_mem_joins ha hw
      rcases bind_eq_error_iff.1 h with hr | ⟨b, hb, he⟩
      · obtain ⟨before, u, after, hjoins, hbefore, hu⟩ := ihr hr
        refine ⟨l.joins ++ before, u, after ++ [.join s l r], by simp [joins, hjoins], ?_, hu⟩
        intro w hw
        exact (List.mem_append.1 hw).elim (hleft w) (hbefore w)
      · refine ⟨l.joins ++ r.joins, .join s l r, [], rfl, ?_, a, b, ha, hb, he⟩
        intro w hw
        exact (List.mem_append.1 hw).elim (hleft w) fun hw => exists_value_of_mem_joins hb hw

theorem value_eq_error_iff {t : FlatTree} {e : Failure} : t.value = .error e ↔ t.FirstFailure e := by
  refine ⟨firstFailure_of_value, ?_⟩
  intro h
  cases hv : t.value with
  | error e' => rw [h.eq (firstFailure_of_value hv)]
  | ok v =>
    obtain ⟨before, u, after, hjoins, -, hu⟩ := h
    obtain ⟨w, hw⟩ := exists_value_of_mem_joins hv (u := u) (by simp [hjoins])
    rw [hu.value_eq] at hw
    cases hw

end FlatTree

/-! ### The tree of a chain -/

namespace Chain

section Splitting

variable {α : Type}

theorem precedence_of_mem_splitTerms (rest : List (Sign × α)) :
    (∀ p ∈ (splitTerms rest).1, p.1.precedence = 2) ∧
      ∀ p ∈ (splitTerms rest).2, p.1.precedence = 1 ∧ ∀ q ∈ p.2.rest, q.1.precedence = 2 := by
  induction rest with
  | nil => simp [splitTerms]
  | cons p rest ih =>
    obtain ⟨s, v⟩ := p
    obtain ⟨hfactors, hterms⟩ := ih
    have hprecedence := s.precedence_eq
    by_cases hs : s = .plus ∨ s = .minus
    · rw [if_pos hs] at hprecedence
      simp only [splitTerms, if_pos hs, List.forall_mem_cons, List.not_mem_nil, false_imp_iff, implies_true, true_and]
      exact ⟨⟨hprecedence, hfactors⟩, hterms⟩
    · rw [if_neg hs] at hprecedence
      simp only [splitTerms, if_neg hs, List.forall_mem_cons]
      exact ⟨⟨hprecedence, hfactors⟩, hterms⟩

theorem tokens_splitTerms (rest : List (Sign × α)) :
    (rest.flatMap fun p => [Token.sign p.1, .operand p.2]) =
      ((splitTerms rest).1.flatMap fun p => [Token.sign p.1, .operand p.2]) ++
        (splitTerms rest).2.flatMap fun p => .sign p.1 :: p.2.tokens := by
  induction rest with
  | nil => rfl
  | cons p rest ih =>
    obtain ⟨s, v⟩ := p
    cases s <;> simp [splitTerms, tokens, ih]

end Splitting

theorem tokens_joined (t : FlatTree) (ps : List (Sign × FlatTree)) :
    (joined ⟨t, ps⟩).tokens = t.tokens ++ ps.flatMap fun p => .sign p.1 :: p.2.tokens := by
  induction ps generalizing t with
  | nil => simp [joined]
  | cons p ps ih =>
    change (joined ⟨.join p.1 t p.2, ps⟩).tokens = _
    simp [ih, FlatTree.tokens]

theorem tokens_joined_numbers (c : Chain Number) : (c.map FlatTree.number).joined.tokens = c.tokens := by
  simp [map, tokens_joined, tokens, FlatTree.tokens, List.flatMap_map]

theorem tokens_tree (c : Chain Number) : c.tree.tokens = c.tokens := by
  have hterms := tokens_splitTerms c.rest
  rw [tree, map, tokens_joined]
  simp only [products, tokens_joined_numbers, List.flatMap_map]
  simp [tokens, hterms]

theorem wellFormed_joined {k : Nat} {t : FlatTree} (ht : t.WellFormed) (hk : k ≤ t.level) {ps : List (Sign × FlatTree)}
    (hps : ∀ p ∈ ps, p.1.precedence = k ∧ p.2.WellFormed ∧ k < p.2.level) :
    (joined ⟨t, ps⟩).WellFormed ∧ k ≤ (joined ⟨t, ps⟩).level := by
  induction ps generalizing t with
  | nil => exact ⟨ht, hk⟩
  | cons p ps ih =>
    obtain ⟨⟨hs, hp, hlevel⟩, hps⟩ := List.forall_mem_cons.1 hps
    change (joined ⟨.join p.1 t p.2, ps⟩).WellFormed ∧ k ≤ (joined ⟨.join p.1 t p.2, ps⟩).level
    apply ih _ _ hps
    · exact ⟨ht, hp, hs ▸ hk, hs ▸ hlevel⟩
    · exact hs.ge

theorem wellFormed_joined_numbers {c : Chain Number} (h : ∀ p ∈ c.rest, p.1.precedence = 2) :
    (c.map FlatTree.number).joined.WellFormed ∧ 2 ≤ (c.map FlatTree.number).joined.level := by
  apply wellFormed_joined
  · trivial
  · simp [FlatTree.level]
  · intro p hp
    obtain ⟨q, hq, rfl⟩ := List.mem_map.1 hp
    exact ⟨h q hq, trivial, by simp [FlatTree.level]⟩

theorem wellFormed_tree (c : Chain Number) : c.tree.WellFormed := by
  obtain ⟨hfirst, hrest⟩ := precedence_of_mem_splitTerms c.rest
  obtain ⟨hw, hlevel⟩ := wellFormed_joined_numbers (c := ⟨c.first, (splitTerms c.rest).1⟩) hfirst
  refine (wellFormed_joined (k := 1) hw (by omega) ?_).1
  intro p hp
  obtain ⟨q, hq, rfl⟩ := List.mem_map.1 hp
  obtain ⟨hs, hfactors⟩ := hrest q hq
  exact ⟨hs, wellFormed_joined_numbers hfactors⟩

theorem value_joined (t : FlatTree) (ps : List (Sign × FlatTree)) :
    (joined ⟨t, ps⟩).value =
      t.value >>= fun v => ps.foldlM (fun v p => do p.1.apply v (← p.2.value)) v := by
  induction ps generalizing t with
  | nil =>
    change t.value = t.value >>= fun v => .ok v
    cases t.value <;> rfl
  | cons p ps ih =>
    change (joined ⟨.join p.1 t p.2, ps⟩).value = _
    simp only [ih, FlatTree.value, List.foldlM_cons, bind_assoc]

theorem value_joined_numbers (c : Chain Number) : (c.map FlatTree.number).joined.value = c.product := by
  simp [map, value_joined, product, FlatTree.value, List.foldlM_map]

theorem value_tree (c : Chain Number) : c.tree.value = c.value := by
  rw [tree, map, value_joined]
  simp only [value_joined_numbers, List.foldlM_map]
  rfl

/-! ### The text of a chain -/

theorem text_cons (l m : List Char) (s : Sign) (rest : List (Sign × List Char)) :
    text ⟨l, (s, m) :: rest⟩ = l ++ s.symbol :: text ⟨m, rest⟩ := by
  simp [text]

theorem numbers_cons (l m : List Char) (s : Sign) (rest : List (Sign × List Char)) :
    numbers ⟨l, (s, m) :: rest⟩ =
      Literal.value l >>= fun v => numbers ⟨m, rest⟩ >>= fun n => .ok ⟨v, (s, n.first) :: n.rest⟩ := by
  simp [numbers]

theorem tokenize_text {c : Chain (List Char)} (h : ∀ l ∈ c.operands, Literal.IsRun l) :
    tokenize c.text = c.numbers >>= fun n => .ok n.tokens := by
  obtain ⟨l, rest⟩ := c
  induction rest generalizing l with
  | nil =>
    obtain ⟨hne, hl⟩ := h l List.mem_cons_self
    simp [text, tokenize_literal hne hl, numbers, tokens]
  | cons p rest ih =>
    obtain ⟨s, m⟩ := p
    obtain ⟨⟨hne, hl⟩, hrest⟩ := List.forall_mem_cons.1 h
    rw [text_cons, tokenize_append_sign, tokenize_literal hne hl, ih m hrest, numbers_cons]
    simp [bind_assoc, tokens]

theorem exists_text_of_alternates {ts : List (Token Number)} (ha : Flat.Alternates ts) {cs : List Char}
    (h : tokenize cs = .ok ts) :
    ∃ c n, cs = text c ∧ (∀ l ∈ c.operands, Literal.IsRun l) ∧ c.numbers = .ok n ∧ n.tokens = ts := by
  induction ha generalizing cs with
  | operand v =>
    obtain ⟨l, rest, rfl, hl, hv, hrest⟩ := tokenize_eq_operand_cons h
    obtain rfl := eq_nil_of_tokenize hrest
    refine ⟨⟨l, []⟩, ⟨v, []⟩, by simp [text], ?_, by simp [numbers, hv], rfl⟩
    simpa [operands] using hl
  | join v s _ ih =>
    obtain ⟨l, rest, rfl, hl, hv, hsign⟩ := tokenize_eq_operand_cons h
    obtain ⟨rest, rfl, hrest⟩ := tokenize_eq_sign_cons hsign
    obtain ⟨c, n, rfl, hc, hn, rfl⟩ := ih hrest
    refine ⟨⟨l, (s, c.first) :: c.rest⟩, ⟨v, (s, n.first) :: n.rest⟩, (text_cons ..).symm, ?_, ?_, rfl⟩
    · exact List.forall_mem_cons.2 ⟨hl, hc⟩
    · rw [numbers_cons, hv, ok_bind, hn, ok_bind]

theorem evaluateFlat_text {c : Chain (List Char)} (h : ∀ l ∈ c.operands, Literal.IsRun l) {n : Chain Number}
    (hn : c.numbers = .ok n) {s : String} (hs : s.toList = c.text) : evaluateFlat s = n.tree.value := by
  rw [evaluateFlat, hs, tokenize_text h, hn, ok_bind, ok_bind, ← tokens_tree, Flat.value_tokens (wellFormed_tree n)]

end Chain

/-! ### Texts that are no chains -/

theorem Literal.isBlank_of_isLiteralChar {c : Char} (h : isLiteralChar c = true) : Text.isBlank c = false := by
  have hrange : 46 ≤ c.toNat ∧ c.toNat ≤ 57 := by
    simp only [isLiteralChar, Text.isAsciiDigit, Bool.or_eq_true, Bool.and_eq_true, decide_eq_true_eq, Char.le_def,
      UInt32.le_iff_toNat_le, beq_iff_eq] at h
    rcases h with ⟨hlow, hhigh⟩ | rfl
    · exact ⟨Nat.le_trans (by decide) hlow, hhigh⟩
    · decide
  simp only [Text.isBlank, Text.isWhiteSpace, Text.isRecordSeparator, Bool.or_eq_false_iff,
    Bool.and_eq_false_iff, decide_eq_false_iff_not, beq_eq_false_iff_ne]
  omega

namespace Chain

theorem isLiteralChar_symbol (s : Sign) : Literal.isLiteralChar s.symbol = false := by
  cases s <;> decide

theorem of_mem_text {c : Chain (List Char)} (h : ∀ l ∈ c.operands, Literal.IsRun l) {x : Char} (hx : x ∈ c.text) :
    Literal.isLiteralChar x = true ∨ ∃ s : Sign, x = s.symbol := by
  obtain ⟨l, rest⟩ := c
  induction rest generalizing l with
  | nil =>
    obtain ⟨-, hl⟩ := h l List.mem_cons_self
    exact .inl (hl x (by simpa [text] using hx))
  | cons p rest ih =>
    obtain ⟨⟨-, hl⟩, hrest⟩ := List.forall_mem_cons.1 h
    rw [text_cons, List.mem_append, List.mem_cons] at hx
    rcases hx with hx | hx | hx
    · exact .inl (hl x hx)
    · exact .inr ⟨p.1, hx⟩
    · exact ih p.2 hrest hx

theorem isLiteralChar_head {c : Chain (List Char)} (h : ∀ l ∈ c.operands, Literal.IsRun l) :
    ∃ x xs, c.text = x :: xs ∧ Literal.isLiteralChar x = true := by
  obtain ⟨⟨hne, hl⟩, -⟩ := List.forall_mem_cons.1 h
  obtain ⟨x, xs, hx⟩ := List.exists_cons_of_ne_nil hne
  exact ⟨x, _, by rw [text, hx, List.cons_append], hl x (by simp [hx])⟩

theorem isLiteralChar_getLast {c : Chain (List Char)} (h : ∀ l ∈ c.operands, Literal.IsRun l) :
    ∃ xs x, c.text = xs ++ [x] ∧ Literal.isLiteralChar x = true := by
  obtain ⟨l, rest⟩ := c
  induction rest generalizing l with
  | nil =>
    obtain ⟨hne, hl⟩ := h l List.mem_cons_self
    refine ⟨l.dropLast, l.getLast hne, ?_, hl _ (List.getLast_mem hne)⟩
    simp [text, List.dropLast_append_getLast]
  | cons p rest ih =>
    obtain ⟨xs, x, htext, hx⟩ := ih p.2 (List.forall_mem_cons.1 h).2
    refine ⟨l ++ p.1.symbol :: xs, x, ?_, hx⟩
    rw [text_cons, htext, List.append_assoc, List.cons_append]

theorem isChain_text {c : Chain (List Char)} (h : ∀ l ∈ c.operands, Literal.IsRun l) :
    c.text.IsChain fun a b => Literal.isLiteralChar a = true ∨ Literal.isLiteralChar b = true := by
  obtain ⟨l, rest⟩ := c
  have hchain {l : List Char} (hl : Literal.IsRun l) :
      l.IsChain fun a b => Literal.isLiteralChar a = true ∨ Literal.isLiteralChar b = true := by
    apply List.Pairwise.isChain
    exact List.pairwise_of_forall_mem_list fun a ha b _ => .inl (hl.2 a ha)
  induction rest generalizing l with
  | nil => simpa [text] using hchain (h l List.mem_cons_self)
  | cons p rest ih =>
    obtain ⟨hl, hrest⟩ := List.forall_mem_cons.1 h
    obtain ⟨x, xs, htext, hx⟩ := isLiteralChar_head (c := ⟨p.2, rest⟩) hrest
    rw [text_cons, List.isChain_append, List.isChain_cons]
    refine ⟨hchain hl, ⟨?_, ih p.2 hrest⟩, ?_⟩
    · intro b hb
      rw [htext] at hb
      cases hb
      exact .inr hx
    · intro a ha b _
      exact .inl (hl.2 a (List.mem_of_getLast? ha))

theorem not_broken_text {c : Chain (List Char)} (h : ∀ l ∈ c.operands, Literal.IsRun l) : ¬Broken c.text := by
  intro hb
  generalize htext : c.text = cs at hb
  have hforeign {x : Char} (hx : x ∈ cs) : ¬(Text.isBlank x = true ∨ x = '(' ∨ x = ')') := by
    rcases of_mem_text h (htext ▸ hx) with hlit | ⟨s, rfl⟩
    · rintro (hblank | rfl | rfl)
      · rw [Literal.isBlank_of_isLiteralChar hlit] at hblank
        cases hblank
      · simp [Literal.isLiteralChar, Text.isAsciiDigit] at hlit
      · simp [Literal.isLiteralChar, Text.isAsciiDigit] at hlit
    · cases s <;> decide
  cases hb with
  | empty =>
    obtain ⟨x, xs, hx, -⟩ := isLiteralChar_head h
    simp [hx] at htext
  | blank mem blank => exact hforeign mem (.inl blank)
  | parenthesis mem parenthesis => exact hforeign mem (.inr parenthesis)
  | @unsigned xs x ys apart unsigned =>
    rcases of_mem_text h (x := x) (by simp [htext]) with hx | ⟨s, rfl⟩
    · rw [apart] at hx
      cases hx
    · rw [Sign.ofChar?_symbol] at unsigned
      cases unsigned
  | leading s cs =>
    obtain ⟨x, xs, hx, hlit⟩ := isLiteralChar_head h
    rw [hx] at htext
    cases htext
    simp [isLiteralChar_symbol] at hlit
  | trailing cs s =>
    obtain ⟨xs, x, hx, hlit⟩ := isLiteralChar_getLast h
    rw [hx] at htext
    obtain ⟨-, rfl⟩ := List.append_inj' htext rfl |>.imp id List.singleton_inj.1
    simp [isLiteralChar_symbol] at hlit
  | doubled xs s t ys =>
    have hchain := isChain_text h
    rw [htext, List.isChain_append, List.isChain_cons_cons] at hchain
    simp [isLiteralChar_symbol] at hchain

end Chain

/-- No two operands of a text are neighbours before groups are replaced. -/
theorem apart_of_tokenize {cs : List Char} {ts : List (Token Number)} (h : tokenize cs = .ok ts) : Flat.Apart ts := by
  induction ts generalizing cs with
  | nil => exact .nil
  | cons t ts ih =>
    rcases tokenize_eq_cons h with ⟨l, rest, n, -, -, -, rfl, hrest, hhead⟩ | ⟨c, rest, -, -, rfl, hrest⟩
    · refine List.isChain_cons.2 ⟨?_, ih hrest⟩
      rintro u hu ⟨-, hu'⟩
      obtain ⟨m, rfl⟩ := Token.isOperand_iff.1 hu'
      obtain ⟨us, rfl⟩ := List.head?_eq_some_iff.1 hu
      obtain ⟨l', rest', rfl, ⟨hne, hl'⟩, -, -⟩ := tokenize_eq_operand_cons hrest
      cases l' with
      | nil => exact hne rfl
      | cons a l' =>
        have hno := hhead a rfl
        rw [hl' a List.mem_cons_self] at hno
        cases hno
    · refine List.isChain_cons.2 ⟨?_, ih hrest⟩
      rintro u - ⟨ht, -⟩
      obtain ⟨m, hm⟩ := Token.isOperand_iff.1 ht
      exact Token.ofChar_ne_operand c m hm

/-- A text has a value in the flat pass exactly if it is a chain of literals and its reading as a sum of products has the
value. A chain without a value fails as the first of its signs that is applied without success. -/
theorem evaluateFlat_iff_chain (s : String) :
    (∀ v, evaluateFlat s = .ok v ↔
        ∃ c n, s.toList = Chain.text c ∧ (∀ l ∈ c.operands, Literal.IsRun l) ∧ c.numbers = .ok n ∧ n.value = .ok v) ∧
      (∀ c n, s.toList = Chain.text c → (∀ l ∈ c.operands, Literal.IsRun l) → c.numbers = .ok n →
        evaluateFlat s = n.value ∧ ∀ e, evaluateFlat s = .error e ↔ n.tree.FirstFailure e) ∧
      (Broken s.toList → ∀ v, evaluateFlat s ≠ .ok v) := by
  have hform {v : Number} (h : evaluateFlat s = .ok v) :
      ∃ c n, s.toList = Chain.text c ∧ (∀ l ∈ c.operands, Literal.IsRun l) ∧ c.numbers = .ok n := by
    obtain ⟨ts, ht, hv⟩ := bind_eq_ok_iff.1 h
    obtain ⟨c, n, hs, hc, hn, -⟩ := Chain.exists_text_of_alternates (Flat.alternates_of_apart hv (apart_of_tokenize ht)) ht
    exact ⟨c, n, hs, hc, hn⟩
  have hvalue {c : Chain (List Char)} {n : Chain Number} (hs : s.toList = c.text)
      (hc : ∀ l ∈ c.operands, Literal.IsRun l) (hn : c.numbers = .ok n) : evaluateFlat s = n.tree.value :=
    Chain.evaluateFlat_text hc hn hs
  refine ⟨?_, ?_, ?_⟩
  · intro v
    constructor
    · intro h
      obtain ⟨c, n, hs, hc, hn⟩ := hform h
      rw [hvalue hs hc hn, Chain.value_tree] at h
      exact ⟨c, n, hs, hc, hn, h⟩
    · rintro ⟨c, n, hs, hc, hn, h⟩
      rw [hvalue hs hc hn, Chain.value_tree, h]
  · intro c n hs hc hn
    refine ⟨by rw [hvalue hs hc hn, Chain.value_tree], ?_⟩
    intro e
    rw [hvalue hs hc hn, FlatTree.value_eq_error_iff]
  · intro hbroken v h
    obtain ⟨c, n, hs, hc, -⟩ := hform h
    rw [hs] at hbroken
    exact Chain.not_broken_text hc hbroken

/-- `7-2*3+1/0` is read as `(7-2*3)+(1/0)`, whose first sign that has no result is the last but one to be applied. -/
theorem evaluateFlat_iff_chain_quotient :
    let c : Chain (List Char) := ⟨['7'], [(.minus, ['2']), (.times, ['3']), (.plus, ['1']), (.dividedBy, ['0'])]⟩
    let n : Chain Number := ⟨.int 7, [(.minus, .int 2), (.times, .int 3), (.plus, .int 1), (.dividedBy, .int 0)]⟩
    "7-2*3+1/0".toList = c.text ∧ (∀ l ∈ c.operands, Literal.IsRun l) ∧ c.numbers = .ok n ∧
      evaluateFlat "7-2*3+1/0" = n.value ∧ n.tree.FirstFailure (.evaluation .divisionByZero) ∧
      Broken "7--2".toList ∧ evaluateFlat "7--2" ≠ .ok (.int 9) := by
  intro c n
  have hs : "7-2*3+1/0".toList = c.text := by decide
  have hc : ∀ l ∈ c.operands, Literal.IsRun l := by
    simp [c, Chain.operands, Literal.IsRun, Literal.isLiteralChar, Text.isAsciiDigit]
  have hn : c.numbers = .ok n := by decide
  obtain ⟨hvalue, hfailure⟩ := (evaluateFlat_iff_chain "7-2*3+1/0").2.1 c n hs hc hn
  have hbroken : Broken "7--2".toList := .doubled ['7'] .minus .minus ['2']
  exact ⟨hs, hc, hn, hvalue, (hfailure _).1 (by decide +kernel), hbroken, (evaluateFlat_iff_chain "7--2").2.2 hbroken _⟩

end Reckoner
