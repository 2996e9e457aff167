import Reckoner.Expr.Formula

/-!
# The grammar

The texts that are expressions, by the usual three levels: sums of products of factors. Literals have at least one digit
and at most one point. The text of every well-formed formula whose literals are such is a sum (`isSum_text`).
-/
namespace Reckoner.Grammar

/-- Digits with a point among them or not, and at least one digit. -/
def IsLiteral (cs : List Char) : Prop :=
  (∀ c ∈ cs, Literal.isLiteralChar c = true) ∧ cs.count '.' ≤ 1 ∧ ∃ c ∈ cs, Text.isAsciiDigit c = true

mutual

/-- A product, or a sum with one more product added or subtracted. -/
inductive IsSum : List Char → Prop where
  | product {t : List Char} : IsProduct t → IsSum t
  | add {e t : List Char} : IsSum e → IsProduct t → IsSum (e ++ '+' :: t)
  | subtract {e t : List Char} : IsSum e → IsProduct t → IsSum (e ++ '-' :: t)

/-- A factor, or a product multiplied or divided by one more factor. -/
inductive IsProduct : List Char → Prop where
  | factor {f : List Char} : IsFactor f → IsProduct f
  | multiply {t f : List Char} : IsProduct t → IsFactor f → IsProduct (t ++ '*' :: f)
  | divide {t f : List Char} : IsProduct t → IsFactor f → IsProduct (t ++ '/' :: f)

/-- A literal, or a sum in parentheses. -/
inductive IsFactor : List Char → Prop where
  | literal {l : List Char} : IsLiteral l → IsFactor l
  | group {e : List Char} : IsSum e → IsFactor ('(' :: e ++ [')'])

end

/-- Whether all literals of a formula have a digit and at most one point. -/
def LiteralsValid : Formula → Prop
  | .literal cs => IsLiteral cs
  | .group f => LiteralsValid f
  | .join _ l r => LiteralsValid l ∧ LiteralsValid r

private theorem classify_text (f : Formula) (hw : f.WellFormed) (hl : LiteralsValid f) :
    (3 ≤ f.level → IsFactor f.text) ∧ (2 ≤ f.level → IsProduct f.text) ∧ IsSum f.text := by
  induction f with
  | literal cs =>
    have h : IsFactor cs := .literal hl
    exact ⟨fun _ => h, fun _ => .factor h, .product (.factor h)⟩
  | group f ih =>
    have h : IsFactor ('(' :: f.text ++ [')']) := .group (ih hw hl).2.2
    exact ⟨fun _ => h, fun _ => .factor h, .product (.factor h)⟩
  | join s l r ihl ihr =>
    obtain ⟨hwl, hwr, hpl, hpr⟩ := hw
    have hl' := ihl hwl hl.1
    have hr' := ihr hwr hl.2
    have hlevel : (Formula.join s l r).level = if s = .plus ∨ s = .minus then 1 else 2 := s.precedence_eq
    have hfactor : ¬3 ≤ (Formula.join s l r).level := by
      rw [hlevel]
      split <;> decide
    cases s with
    | plus =>
      have hproduct : ¬2 ≤ (Formula.join .plus l r).level := by simp [hlevel]
      exact ⟨fun h => absurd h hfactor, fun h => absurd h hproduct, .add hl'.2.2 (hr'.2.1 hpr)⟩
    | minus =>
      have hproduct : ¬2 ≤ (Formula.join .minus l r).level := by simp [hlevel]
      exact ⟨fun h => absurd h hfactor, fun h => absurd h hproduct, .subtract hl'.2.2 (hr'.2.1 hpr)⟩
    | times =>
      have h : IsProduct (l.text ++ '*' :: r.text) := .multiply (hl'.2.1 hpl) (hr'.1 hpr)
      exact ⟨fun h => absurd h hfactor, fun _ => h, .product h⟩
    | dividedBy =>
      have h : IsProduct (l.text ++ '/' :: r.text) := .divide (hl'.2.1 hpl) (hr'.1 hpr)
      exact ⟨fun h => absurd h hfactor, fun _ => h, .product h⟩

theorem isSum_text {f : Formula} (hw : f.WellFormed) (hl : LiteralsValid f) : IsSum f.text :=
  (classify_text f hw hl).2.2

end Reckoner.Grammar
