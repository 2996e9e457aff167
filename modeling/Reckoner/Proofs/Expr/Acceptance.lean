import Mathlib
import Reckoner.Expr.Grammar
import Reckoner.Proofs.Expr.Counting
import Reckoner.Proofs.Expr.Group
import Reckoner.Proofs.Expr.Tokens

/-!
# Accepted texts

Which texts have values. A group that is replaced leaves one operand, and so do literals; read off the text again, the
tokens that are left spell it (`Spells`). Where no two operands of a text are neighbours the counts of the flat pass make
operands and signs alternate, so the text is a sum. Neighbours, which only groups can bring about, are the one thing
that is accepted beyond the grammar.
-/
namespace Reckoner

open Outcome

/-! ### Neighbouring operands -/

/-- Whether an operand may begin with a character: a literal or a group. -/
def opensOperand (c : Char) : Bool :=
  Literal.isLiteralChar c || c == '('

def closesOperand (c : Char) : Bool :=
  Literal.isLiteralChar c || c == ')'

/-- Two characters in a row where an operand ends and another begins. -/
def Juxtaposed (c d : Char) : Prop :=
  closesOperand c = true ∧ opensOperand d = true ∧ ¬(Literal.isLiteralChar c = true ∧ Literal.isLiteralChar d = true)

instance (c d : Char) : Decidable (Juxtaposed c d) :=
  inferInstanceAs (Decidable (_ ∧ _ ∧ _))

/-- No operand of the text begins right where another ends. -/
def OperandsApart (cs : List Char) : Prop :=
  cs.IsChain fun c d => ¬Juxtaposed c d

instance (cs : List Char) : Decidable (OperandsApart cs) :=
  inferInstanceAs (Decidable (List.IsChain _ _))

theorem operandsApart_append_left {xs ys : List Char} (h : OperandsApart (xs ++ ys)) : OperandsApart xs :=
  (List.isChain_append.1 h).1

theorem operandsApart_append_right {xs ys : List Char} (h : OperandsApart (xs ++ ys)) : OperandsApart ys :=
  (List.isChain_append.1 h).2.1

theorem operandsApart_of_cons {c : Char} {cs : List Char} (h : OperandsApart (c :: cs)) : OperandsApart cs :=
  (List.isChain_cons.1 h).2

theorem operandsApart_append_cons {c : Char} (hcloses : closesOperand c = false) (hopens : opensOperand c = false)
    {xs ys : List Char} (hx : OperandsApart xs) (hy : OperandsApart ys) : OperandsApart (xs ++ c :: ys) := by
  apply List.isChain_append.2
  refine ⟨hx, List.isChain_cons.2 ⟨?_, hy⟩, ?_⟩
  · intro d _ h
    rw [h.1] at hcloses
    cases hcloses
  · intro d _ e he h
    cases he
    rw [h.2.1] at hopens
    cases hopens

theorem operandsApart_group {cs : List Char} (h : OperandsApart cs) : OperandsApart ('(' :: cs ++ [')']) := by
  apply List.isChain_append.2
  refine ⟨List.isChain_cons.2 ⟨?_, h⟩, List.isChain_singleton _, ?_⟩
  · rintro d _ ⟨hd, -⟩
    exact absurd hd (by decide)
  · intro c _ d hd
    cases hd
    rintro ⟨-, hd, -⟩
    exact absurd hd (by decide)

theorem operandsApart_literal {cs : List Char} (h : ∀ c ∈ cs, Literal.isLiteralChar c = true) : OperandsApart cs := by
  apply List.Pairwise.isChain
  exact List.pairwise_of_forall_mem_list fun a ha b hb hj => hj.2.2 ⟨h a ha, h b hb⟩

namespace Grammar

mutual

theorem operandsApart_of_isSum {cs : List Char} : IsSum cs → OperandsApart cs
  | .product ht => operandsApart_of_isProduct ht
  | .add he ht =>
    operandsApart_append_cons (by decide) (by decide) (operandsApart_of_isSum he) (operandsApart_of_isProduct ht)
  | .subtract he ht =>
    operandsApart_append_cons (by decide) (by decide) (operandsApart_of_isSum he) (operandsApart_of_isProduct ht)

theorem operandsApart_of_isProduct {cs : List Char} : IsProduct cs → OperandsApart cs
  | .factor hf => operandsApart_of_isFactor hf
  | .multiply ht hf =>
    operandsApart_append_cons (by decide) (by decide) (operandsApart_of_isProduct ht) (operandsApart_of_isFactor hf)
  | .divide ht hf =>
    operandsApart_append_cons (by decide) (by decide) (operandsApart_of_isProduct ht) (operandsApart_of_isFactor hf)

theorem operandsApart_of_isFactor {cs : List Char} : IsFactor cs → OperandsApart cs
  | .literal hl => operandsApart_literal hl.1
  | .group he => operandsApart_group (operandsApart_of_isSum he)

end

/-- A product, or a sum and a product that is added or subtracted: what one more factor can extend. -/
def IsOpen (cs : List Char) : Prop :=
  IsProduct cs ∨ ∃ e s t, s.precedence = 1 ∧ IsSum e ∧ IsProduct t ∧ cs = e ++ Sign.symbol s :: t

theorem isSum_of_isOpen {cs : List Char} (h : IsOpen cs) : IsSum cs := by
  rcases h with h | ⟨e, s, t, hs, he, ht, rfl⟩
  · exact .product h
  · cases s with
    | plus => exact .add he ht
    | minus => exact .subtract he ht
    | times => cases hs
    | dividedBy => cases hs

private theorem isProduct_extend {s : Sign} (hs : s.precedence ≠ 1) {t f : List Char} (ht : IsProduct t)
    (hf : IsFactor f) : IsProduct (t ++ s.symbol :: f) := by
  cases s with
  | plus => exact absurd rfl hs
  | minus => exact absurd rfl hs
  | times => exact .multiply ht hf
  | dividedBy => exact .divide ht hf

theorem isOpen_extend {cs f : List Char} (h : IsOpen cs) (s : Sign) (hf : IsFactor f) :
    IsOpen (cs ++ s.symbol :: f) := by
  by_cases hs : s.precedence = 1
  · exact .inr ⟨cs, s, f, hs, isSum_of_isOpen h, .factor hf, rfl⟩
  · rcases h with h | ⟨e, s', t, hs', he, ht, rfl⟩
    · exact .inl (isProduct_extend hs h hf)
    · refine .inr ⟨e, s', t ++ s.symbol :: f, hs', he, isProduct_extend hs ht hf, ?_⟩
      simp

end Grammar

/-! ### Texts of tokens -/

private theorem isLiteral_of_ofFixed? {l : List Char} (h : ∀ c ∈ l, Literal.isLiteralChar c = true) (hp : '.' ∈ l)
    {d : Decimal} (hd : Decimal.ofFixed? l = some d) : Grammar.IsLiteral l := by
  obtain ⟨fraction, hrest⟩ : ∃ fraction, l.dropWhile (· != '.') = '.' :: fraction := by
    cases hdrop : l.dropWhile (· != '.') with
    | nil =>
      have := List.dropWhile_eq_nil_iff.1 hdrop '.' hp
      cases this
    | cons c cs =>
      have hhead := List.head?_dropWhile_not (· != '.') l
      rw [hdrop] at hhead
      exact ⟨cs, by simpa using hhead⟩
  have hsplit : l.takeWhile (· != '.') ++ '.' :: fraction = l := by rw [← hrest, List.takeWhile_append_dropWhile]
  simp only [Decimal.ofFixed?, hrest, List.drop_one, List.tail_cons] at hd
  split at hd
  · cases hd
  · next hds =>
    obtain ⟨hne, hall⟩ := not_or.1 (Bool.or_eq_true .. ▸ hds)
    have hne : l.takeWhile (· != '.') ++ fraction ≠ [] := fun h => hne (List.isEmpty_iff.2 h)
    have hall : ∀ c ∈ l.takeWhile (· != '.') ++ fraction, Text.isAsciiDigit c = true := by
      simpa only [Bool.not_eq_true', Bool.not_eq_false, List.all_eq_true] using hall
    have hpoint : ¬Text.isAsciiDigit '.' = true := by decide
    have hwhole : '.' ∉ l.takeWhile (· != '.') := fun hm => hpoint (hall _ (List.mem_append_left _ hm))
    have hfraction : '.' ∉ fraction := fun hm => hpoint (hall _ (List.mem_append_right _ hm))
    refine ⟨h, ?_, ?_⟩
    · rw [← hsplit, List.count_append, List.count_cons_self, List.count_eq_zero_of_not_mem hwhole,
        List.count_eq_zero_of_not_mem hfraction]
    · obtain ⟨c, hc⟩ := List.exists_mem_of_ne_nil _ hne
      refine ⟨c, ?_, hall c hc⟩
      rw [← hsplit]
      rcases List.mem_append.1 hc with hc | hc
      · exact List.mem_append_left _ hc
      · exact List.mem_append_right _ (List.mem_cons_of_mem _ hc)

theorem Literal.isLiteral_of_value {l : List Char} (hl : l ≠ []) (h : ∀ c ∈ l, isLiteralChar c = true) {n : Number}
    (hv : value l = .ok n) : Grammar.IsLiteral l := by
  by_cases hp : '.' ∈ l
  · have hc : l.contains '.' = true := by simpa using hp
    simp only [value, hc, Bool.not_true, Bool.false_eq_true, if_false] at hv
    split at hv
    · cases hv
    · split at hv
      · cases hv
      · next d hd => exact isLiteral_of_ofFixed? h hp hd
  · obtain ⟨c, hc⟩ := List.exists_mem_of_ne_nil _ hl
    have hne : c ≠ '.' := fun heq => hp (heq ▸ hc)
    refine ⟨h, ?_, c, hc, ?_⟩
    · rw [List.count_eq_zero_of_not_mem hp]
      exact Nat.zero_le _
    · simpa [isLiteralChar, hne] using h c hc

/-- The text that tokens stand for when every operand is a literal or a group of the grammar. -/
inductive Spells : List (Token Number) → List Char → Prop where
  | nil : Spells [] []
  | literal (n : Number) {l : List Char} {ts : List (Token Number)} {cs : List Char} :
      Grammar.IsLiteral l → IsCut l cs → Spells ts cs → Spells (.operand n :: ts) (l ++ cs)
  | group (n : Number) {e : List Char} {ts : List (Token Number)} {cs : List Char} :
      Grammar.IsSum e → Spells ts cs → Spells (.operand n :: ts) ('(' :: e ++ [')'] ++ cs)
  | char {c : Char} {t : Token Number} {ts : List (Token Number)} {cs : List Char} :
      t = .ofChar c → Spells ts cs → Spells (t :: ts) (c :: cs)

namespace Spells

private theorem isCut_of_append {l xs ys : List Char} (h : IsCut l (xs ++ ys)) : IsCut l xs := by
  intro a ha b hb
  cases xs with
  | nil => cases hb
  | cons x xs => exact h a ha b hb

theorem append {ts us : List (Token Number)} {cs : List Char} (h : Spells (ts ++ us) cs) :
    ∃ xs ys, cs = xs ++ ys ∧ Spells ts xs ∧ Spells us ys := by
  induction ts generalizing cs with
  | nil => exact ⟨[], cs, rfl, .nil, h⟩
  | cons t ts ih =>
    cases h with
    | literal n hl hcut h =>
      obtain ⟨xs, ys, rfl, hx, hy⟩ := ih h
      exact ⟨_, ys, (List.append_assoc ..).symm, .literal n hl (isCut_of_append hcut) hx, hy⟩
    | group n he h =>
      obtain ⟨xs, ys, rfl, hx, hy⟩ := ih h
      exact ⟨_, ys, (List.append_assoc ..).symm, .group n he hx, hy⟩
    | char ht h =>
      obtain ⟨xs, ys, rfl, hx, hy⟩ := ih h
      exact ⟨_, ys, rfl, .char ht hx, hy⟩

theorem operand_cons {n : Number} {ts : List (Token Number)} {cs : List Char} (h : Spells (.operand n :: ts) cs) :
    ∃ f cs', cs = f ++ cs' ∧ Grammar.IsFactor f ∧ Spells ts cs' := by
  cases h with
  | literal _ hl _ h => exact ⟨_, _, rfl, .literal hl, h⟩
  | group _ he h => exact ⟨_, _, rfl, .group he, h⟩
  | char ht h => exact absurd ht.symm (Token.ofChar_ne_operand _ n)

theorem sign_cons {s : Sign} {ts : List (Token Number)} {cs : List Char} (h : Spells (.sign s :: ts) cs) :
    ∃ cs', cs = s.symbol :: cs' ∧ Spells ts cs' := by
  cases h with
  | char ht h => exact ⟨_, by rw [Token.eq_of_ofChar_eq_sign ht.symm], h⟩

theorem closing_cons {ts : List (Token Number)} {cs : List Char} (h : Spells (.closing :: ts) cs) :
    ∃ cs', cs = ')' :: cs' ∧ Spells ts cs' := by
  cases h with
  | char ht h => exact ⟨_, by rw [Token.eq_of_ofChar_eq_closing ht.symm], h⟩

theorem eq_nil {cs : List Char} (h : Spells [] cs) : cs = [] := by
  cases h
  rfl

private theorem isOpen {ts : List (Token Number)} (ha : Flat.Alternates ts) {cs : List Char} (h : Spells ts cs)
    {q : List Char} (hq : Grammar.IsOpen q) (s : Sign) : Grammar.IsOpen (q ++ s.symbol :: cs) := by
  induction ha generalizing cs q s with
  | operand n =>
    obtain ⟨f, cs, rfl, hf, h⟩ := h.operand_cons
    rw [h.eq_nil, List.append_nil]
    exact Grammar.isOpen_extend hq s hf
  | join n s' _ ih =>
    obtain ⟨f, cs₁, rfl, hf, h₁⟩ := h.operand_cons
    obtain ⟨cs₂, rfl, h₂⟩ := h₁.sign_cons
    have := ih h₂ (Grammar.isOpen_extend hq s hf) s'
    rwa [List.append_assoc, List.cons_append] at this

theorem isSum_of_alternates {ts : List (Token Number)} (ha : Flat.Alternates ts) {cs : List Char} (h : Spells ts cs) :
    Grammar.IsSum cs := by
  cases ha with
  | operand n =>
    obtain ⟨f, cs, rfl, hf, h⟩ := h.operand_cons
    rw [h.eq_nil, List.append_nil]
    exact .product (.factor hf)
  | join n s ha =>
    obtain ⟨f, cs₁, rfl, hf, h₁⟩ := h.operand_cons
    obtain ⟨cs₂, rfl, h₂⟩ := h₁.sign_cons
    exact Grammar.isSum_of_isOpen (isOpen ha h₂ (.inl (.factor hf)) s)

private theorem opensOperand_head {t : Token Number} {ts : List (Token Number)} {cs : List Char} (h : Spells (t :: ts) cs)
    (ht : t.isOperand = true) : ∃ d ∈ cs.head?, opensOperand d = true := by
  cases h with
  | literal n hl _ h =>
    obtain ⟨hchars, -, c, hc, -⟩ := hl
    obtain ⟨d, l, rfl⟩ := List.exists_cons_of_ne_nil (List.ne_nil_of_mem hc)
    exact ⟨d, rfl, by simp [opensOperand, hchars d]⟩
  | group n _ h => exact ⟨'(', rfl, by decide⟩
  | char hc h =>
    obtain ⟨n, rfl⟩ := Token.isOperand_iff.1 ht
    exact absurd hc.symm (Token.ofChar_ne_operand _ n)

theorem apart {ts : List (Token Number)} {cs : List Char} (h : Spells ts cs) (ha : OperandsApart cs) :
    Flat.Apart ts := by
  induction h with
  | nil => exact .nil
  | @literal n l ts cs hl hcut h ih =>
    refine List.isChain_cons.2 ⟨?_, ih (operandsApart_append_right ha)⟩
    rintro u hu ⟨-, hu'⟩
    obtain ⟨ts', rfl⟩ := List.head?_eq_some_iff.1 hu
    obtain ⟨d, hd, hopens⟩ := h.opensOperand_head hu'
    obtain ⟨c, hc⟩ : ∃ c, l.getLast? = some c := by
      obtain ⟨-, -, c, hc, -⟩ := hl
      exact ⟨_, List.getLast?_eq_some_getLast (List.ne_nil_of_mem hc)⟩
    have hlit : Literal.isLiteralChar c = true := hl.1 c (List.mem_of_getLast? hc)
    have hnot := hcut c hc d hd
    rw [hlit, Bool.true_and] at hnot
    refine (List.isChain_append.1 ha).2.2 c hc d hd ⟨by simp [closesOperand, hlit], hopens, ?_⟩
    simp [hnot]
  | @group n e ts cs he h ih =>
    refine List.isChain_cons.2 ⟨?_, ih (operandsApart_append_right ha)⟩
    rintro u hu ⟨-, hu'⟩
    obtain ⟨ts', rfl⟩ := List.head?_eq_some_iff.1 hu
    obtain ⟨d, hd, hopens⟩ := h.opensOperand_head hu'
    refine (List.isChain_append.1 ha).2.2 ')' List.getLast?_concat d hd ⟨by decide, hopens, ?_⟩
    rintro ⟨h, -⟩
    exact absurd h (by decide)
  | @char c t ts cs ht h ih =>
    refine List.isChain_cons.2 ⟨?_, ih (operandsApart_of_cons ha)⟩
    rintro u - ⟨ht', -⟩
    obtain ⟨n, rfl⟩ := Token.isOperand_iff.1 ht'
    exact Token.ofChar_ne_operand c n ht.symm

theorem isSum {ts : List (Token Number)} {cs : List Char} (h : Spells ts cs) (ha : OperandsApart cs) {v : Number}
    (hv : Flat.value ts = .ok v) : Grammar.IsSum cs :=
  h.isSum_of_alternates (Flat.alternates_of_apart hv (h.apart ha))

end Spells

theorem spells_remaining {cs : List Char} {ts rest : List (Token Number)} (ht : tokenize cs = .ok ts)
    (ha : OperandsApart cs) (hr : Group.remaining ts [] = .ok rest) : Spells rest cs := by
  fun_induction tokenize cs generalizing ts rest with
  | case1 =>
    cases ht
    cases hr
    exact .nil
  | case2 c cs hc ih =>
    obtain ⟨n, hn, ht⟩ := bind_eq_ok_iff.1 ht
    obtain ⟨us, hu, ht⟩ := bind_eq_ok_iff.1 ht
    cases ht
    rw [Group.remaining_cons] at hr
    obtain ⟨vs, hv, hr⟩ := bind_eq_ok_iff.1 hr
    cases hr
    have hcs : c :: cs.takeWhile Literal.isLiteralChar ++ cs.dropWhile Literal.isLiteralChar = c :: cs := by
      rw [List.cons_append, List.takeWhile_append_dropWhile]
    rw [← hcs] at ha ⊢
    have hl := Literal.isLiteral_of_value (List.cons_ne_nil _ _) (fun a => isLiteralChar_of_mem_run hc) hn
    exact .literal n hl (isCut_takeWhile_dropWhile c cs) (ih hu (operandsApart_append_right ha) hv)
  | case3 c cs hc ih =>
    obtain ⟨us, hu, ht⟩ := bind_eq_ok_iff.1 ht
    cases ht
    rw [Group.remaining_cons] at hr
    obtain ⟨vs, hv, hr⟩ := bind_eq_ok_iff.1 hr
    have ha' : OperandsApart cs := operandsApart_of_cons ha
    have hspells := ih hu ha' hv
    by_cases ho : (Token.ofChar c : Token Number) = .opening
    · obtain rfl := Token.eq_of_ofChar_eq_opening ho
      obtain ⟨inside, after, v, rfl, hvalue, rfl⟩ := Group.absorb_opening_eq_ok hr
      obtain ⟨xs, ys, rfl, hx, hclosing⟩ := hspells.append
      obtain ⟨ys, rfl, hy⟩ := hclosing.closing_cons
      have hsum := hx.isSum (operandsApart_append_left ha') (Group.value_of_groupValue hvalue)
      have := Spells.group v hsum hy
      rwa [List.append_assoc, List.singleton_append] at this
    · rw [Group.absorb_of_ne_opening ho] at hr
      cases hr
      exact .char rfl hspells

theorem not_isInfix_of_evaluate {s : String} {v : Number} (h : evaluate s = .ok v) :
    ¬['(', ')'] <:+: Text.dropBlanks s.toList := by
  rintro ⟨xs, ys, hcs⟩
  have hopen : Literal.isLiteralChar '(' = false := by decide
  have hclose : Literal.isLiteralChar ')' = false := by decide
  rw [evaluate_eq, ← hcs, List.append_assoc, List.cons_append, List.singleton_append, tokenize_append_cons hopen,
    tokenize_cons hclose] at h
  obtain ⟨ts, ht, h⟩ := bind_eq_ok_iff.1 h
  obtain ⟨us, -, ht⟩ := bind_eq_ok_iff.1 ht
  obtain ⟨vs, hv, ht⟩ := bind_eq_ok_iff.1 ht
  obtain ⟨ws, -, hv⟩ := bind_eq_ok_iff.1 hv
  cases hv
  cases ht
  rw [Group.resolve_eq] at h
  obtain ⟨rest, hr, -⟩ := bind_eq_ok_iff.1 h
  rw [Group.remaining_append, Group.remaining_cons, Group.remaining_cons] at hr
  obtain ⟨ts, ht, -⟩ := bind_eq_ok_iff.1 hr
  obtain ⟨us, hu, ht⟩ := bind_eq_ok_iff.1 ht
  obtain ⟨vs, -, hv⟩ := bind_eq_ok_iff.1 hu
  cases hv
  cases ht

/-- A text that has a value is an expression exactly if no two of its operands are neighbours, and it has no empty
group. -/
theorem isSum_iff_operandsApart {s : String} {v : Number} (h : evaluate s = .ok v) :
    (Grammar.IsSum (Text.dropBlanks s.toList) ↔ OperandsApart (Text.dropBlanks s.toList)) ∧
      ¬['(', ')'] <:+: Text.dropBlanks s.toList := by
  refine ⟨⟨Grammar.operandsApart_of_isSum, ?_⟩, not_isInfix_of_evaluate h⟩
  intro ha
  rw [evaluate_eq] at h
  obtain ⟨ts, ht, h⟩ := bind_eq_ok_iff.1 h
  rw [Group.resolve_eq] at h
  obtain ⟨rest, hr, hv⟩ := bind_eq_ok_iff.1 h
  exact (spells_remaining ht ha hr).isSum ha hv

theorem isSum_iff_operandsApart_group :
    evaluate "2 * (3 - 1)" = .ok (.int 4) ∧
      (Grammar.IsSum (Text.dropBlanks "2 * (3 - 1)".toList) ↔ OperandsApart (Text.dropBlanks "2 * (3 - 1)".toList)) ∧
        ¬['(', ')'] <:+: Text.dropBlanks "2 * (3 - 1)".toList := by
  have hv : evaluate "2 * (3 - 1)" = .ok (.int 4) := by decide +kernel
  exact ⟨hv, isSum_iff_operandsApart hv⟩

/-- A sign behind two neighbours joins them. -/
theorem evaluate_neighbours :
    evaluate "(1)2+" = .ok (.int 3) ∧ ¬Grammar.IsSum (Text.dropBlanks "(1)2+".toList) := by
  have hv : evaluate "(1)2+" = .ok (.int 3) := by decide +kernel
  refine ⟨hv, fun h => ?_⟩
  have ha := Grammar.operandsApart_of_isSum h
  exact absurd ha (by decide)

end Reckoner
