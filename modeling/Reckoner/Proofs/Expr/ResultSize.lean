import Mathlib
import Reckoner.Proofs.Expr.Bounds

/-!
# How large a result may be

The limit of results is meant in digits and looked at in bits. No whole number of bits is a limit in digits: the largest
numbers with `Operator.maxDigits` digits have one bit more than `Operator.maxBits`, and are refused as if they had more
digits. Literals are looked at in digits, so that such a number can be written and not be added to zero.
-/
namespace Reckoner

open Outcome

/-- Whole numbers with few enough digits and too many bits. -/
def Number.IsWithheld (n : Int) : Prop :=
  2 ^ Operator.maxBits ≤ n.natAbs ∧ n.natAbs < 10 ^ Operator.maxDigits

theorem Operator.maxDigits_lt_digitCount_iff {n : Nat} : maxDigits < Text.digitCount n ↔ 10 ^ maxDigits ≤ n := by
  rw [← Nat.not_le, Text.digitCount, Text.length_decimal_le_iff (by decide), Nat.not_lt]

namespace Sign

/-- The exact result of a sign between whole numbers, if that is always a whole number. -/
def whole? : Sign → Int → Int → Option Int
  | .plus, a, b => some (a + b)
  | .minus, a, b => some (a - b)
  | .times, a, b => some (a * b)
  | .dividedBy, _, _ => none

variable {s : Sign} {a b r : Int}

theorem compute_whole (h : s.whole? a b = some r) : s.operator.compute (.int a) (.int b) = .ok (.int r) := by
  cases s with
  | dividedBy => cases h
  | _ =>
    cases h
    rfl

theorem apply_whole (h : s.whole? a b = some r) :
    s.apply (.int a) (.int b) =
      if 2 ^ Operator.maxBits ≤ r.natAbs then .error (.evaluation (.resultTooLong s.symbol Operator.maxDigits))
      else .ok (.int r) := by
  have hbits : Operator.maxBits < Number.bitLength r ↔ 2 ^ Operator.maxBits ≤ r.natAbs := by
    rw [← Nat.not_le, Number.bitLength_le_iff, Nat.not_lt]
  rw [apply, Operator.apply, compute_whole h, ok_bind, Operator.checkSize]
  simp only [hbits]
  rfl

/-- A sign refuses two numbers because what it makes of them is too large. -/
def Overflows (s : Sign) (a b : Number) : Prop :=
  ∃ e, s.apply a b = .error (.evaluation e) ∧ e.kind = .numericOverflow

theorem overflows_iff (h : s.whole? a b = some r) :
    s.Overflows (.int a) (.int b) ↔ 2 ^ Operator.maxBits ≤ r.natAbs := by
  rw [Overflows, apply_whole h]
  constructor
  · rintro ⟨e, he, -⟩
    by_contra hlt
    rw [if_neg hlt] at he
    cases he
  · intro hle
    exact ⟨_, if_pos hle, rfl⟩

theorem apply_whole_eq_ok_iff (h : s.whole? a b = some r) :
    s.apply (.int a) (.int b) = .ok (.int r) ↔ ¬2 ^ Operator.maxBits ≤ r.natAbs := by
  rw [apply_whole h]
  constructor
  · intro heq hle
    rw [if_pos hle] at heq
    cases heq
  · exact fun hlt => if_neg hlt

theorem apply_literal_zero_iff {l : List Char} {n : Int} (hl : ∀ c ∈ l, Literal.isLiteralChar c = true)
    (h : Literal.value l = .ok (.int n)) : plus.apply (.int n) (.int 0) = .ok (.int n) ↔ ¬Number.IsWithheld n := by
  have hsum : plus.whole? n 0 = some n := by rw [whole?, Int.add_zero]
  have hbounded : n.natAbs < 10 ^ Operator.maxDigits := Literal.bounded_value hl h
  rw [apply_whole_eq_ok_iff hsum, Number.IsWithheld, not_and]
  exact ⟨fun hlt hle => absurd hle hlt, fun hnot hle => hnot hle hbounded⟩

/-- A sum, a difference or a product of whole numbers is refused for having too many digits, and is exact otherwise, if and
only if it is not one of those that are withheld. These are refused as too long, although they are not. In the same way a
literal is the sum of itself and zero exactly if it is not withheld. -/
theorem overflows_iff_digits_iff (h : s.whole? a b = some r) :
    (((s.Overflows (.int a) (.int b) ↔ Operator.maxDigits < Text.digitCount r.natAbs) ∧
        (Text.digitCount r.natAbs ≤ Operator.maxDigits → s.apply (.int a) (.int b) = .ok (.int r))) ↔
      ¬Number.IsWithheld r) ∧
      (Number.IsWithheld r →
        s.apply (.int a) (.int b) = .error (.evaluation (.resultTooLong s.symbol Operator.maxDigits))) ∧
      ∀ l n, (∀ c ∈ l, Literal.isLiteralChar c = true) → Literal.value l = .ok (.int n) →
        (plus.apply (.int n) (.int 0) = .ok (.int n) ↔ ¬Number.IsWithheld n) := by
  have hlimits : 2 ^ Operator.maxBits ≤ 10 ^ Operator.maxDigits := Number.two_pow_maxBits_lt.le
  refine ⟨?_, ?_, fun l n => apply_literal_zero_iff⟩
  · rw [← Nat.not_lt, overflows_iff h, apply_whole_eq_ok_iff h, Operator.maxDigits_lt_digitCount_iff, Number.IsWithheld]
    constructor
    · rintro ⟨hiff, -⟩ ⟨hle, hlt⟩
      exact absurd (hiff.1 hle) (Nat.not_le.2 hlt)
    · intro hnot
      -- With the numbers between them left out, the two limits are one.
      have hiff : 2 ^ Operator.maxBits ≤ r.natAbs ↔ 10 ^ Operator.maxDigits ≤ r.natAbs := by
        refine ⟨fun hle => ?_, hlimits.trans⟩
        by_contra hlt
        exact hnot ⟨hle, Nat.not_le.1 hlt⟩
      exact ⟨hiff, mt hiff.1⟩
  · rintro ⟨hle, -⟩
    rw [apply_whole h, if_pos hle]

/-- The square of a number of 2001 digits has 4001 of them. -/
theorem overflows_iff_digits_iff_square :
    times.whole? ((10 ^ 2000 : Nat) : Int) ((10 ^ 2000 : Nat) : Int) = some ((10 ^ Operator.maxDigits : Nat) : Int) ∧
      Operator.maxDigits < Text.digitCount (10 ^ Operator.maxDigits) ∧
      times.Overflows (.int ((10 ^ 2000 : Nat) : Int)) (.int ((10 ^ 2000 : Nat) : Int)) := by
  have hsquare : times.whole? ((10 ^ 2000 : Nat) : Int) ((10 ^ 2000 : Nat) : Int) =
      some ((10 ^ Operator.maxDigits : Nat) : Int) := by
    have hmul (n : Nat) : times.whole? n n = some ((n * n : Nat) : Int) := by rw [Nat.cast_mul, whole?]
    have hdigits : Operator.maxDigits = 2000 + 2000 := rfl
    rw [hmul, hdigits, Nat.pow_add]
  have hdigits := Operator.maxDigits_lt_digitCount_iff.2 (Nat.le_refl (10 ^ Operator.maxDigits))
  have hnot : ¬Number.IsWithheld ((10 ^ Operator.maxDigits : Nat) : Int) := fun h => absurd h.2 (Nat.lt_irrefl _)
  obtain ⟨hiff, -⟩ := (overflows_iff_digits_iff hsquare).1.2 hnot
  exact ⟨hsquare, hdigits, hiff.2 hdigits⟩

/-- The largest number of 4000 digits is a literal, and its sum with zero is refused as longer than that. -/
theorem overflows_nines :
    Literal.value (List.replicate 4000 '9') = .ok (.int ((10 ^ 4000 - 1 : Nat) : Int)) ∧
      Text.digitCount (10 ^ 4000 - 1) = 4000 ∧
      ¬(plus.Overflows (.int ((10 ^ 4000 - 1 : Nat) : Int)) (.int 0) ↔ 4000 < Text.digitCount (10 ^ 4000 - 1)) ∧
      plus.apply (.int ((10 ^ 4000 - 1 : Nat) : Int)) (.int 0) = .error (.evaluation (.resultTooLong '+' 4000)) := by
  have hcount : Text.digitCount (10 ^ 4000 - 1) = 4000 := by decide +kernel
  have hrefused : plus.apply (.int ((10 ^ 4000 - 1 : Nat) : Int)) (.int 0) =
      .error (.evaluation (.resultTooLong '+' 4000)) := by decide +kernel
  refine ⟨by decide +kernel, hcount, ?_, hrefused⟩
  intro hiff
  have hlt := hiff.1 ⟨_, hrefused, rfl⟩
  rw [hcount] at hlt
  exact absurd hlt (Nat.lt_irrefl _)

end Sign
end Reckoner
