import Mathlib
import Reckoner.Text.Digit

/-!
# Digits and the numbers they write

A run of digits writes a number below the power of ten of its length, zeros in front change nothing, and the decimal
digits of a number write it again.
-/
namespace Reckoner.Text

theorem isAsciiDigit_eq_isDigit (c : Char) : isAsciiDigit c = c.isDigit := by
  simp only [isAsciiDigit, Char.isDigit, Char.le_def, ge_iff_le]

theorem ofAsciiDigits_eq (cs : List Char) : ofAsciiDigits cs = Nat.ofDigitChars 10 cs 0 := by
  simp only [ofAsciiDigits, ofDigitValues, Nat.ofDigitChars_eq_foldl, List.foldl_map, Nat.mul_comm]

@[simp] theorem ofAsciiDigits_nil : ofAsciiDigits [] = 0 := rfl

theorem ofAsciiDigits_append (xs ys : List Char) :
    ofAsciiDigits (xs ++ ys) = ofAsciiDigits xs * 10 ^ ys.length + ofAsciiDigits ys := by
  rw [ofAsciiDigits_eq, Nat.ofDigitChars_append, Nat.ofDigitChars_eq_ofDigitChars_zero, ← ofAsciiDigits_eq,
    ← ofAsciiDigits_eq, Nat.mul_comm]

theorem ofAsciiDigits_cons (c : Char) (cs : List Char) :
    ofAsciiDigits (c :: cs) = (c.toNat - '0'.toNat) * 10 ^ cs.length + ofAsciiDigits cs := by
  rw [← List.singleton_append, ofAsciiDigits_append]
  simp [ofAsciiDigits, ofDigitValues]

@[simp] theorem ofAsciiDigits_zeros_append (n : Nat) (cs : List Char) :
    ofAsciiDigits (List.replicate n '0' ++ cs) = ofAsciiDigits cs := by
  simp [ofAsciiDigits_append, ofAsciiDigits_eq (List.replicate n '0')]

theorem ofAsciiDigits_append_zeros (cs : List Char) (n : Nat) :
    ofAsciiDigits (cs ++ List.replicate n '0') = ofAsciiDigits cs * 10 ^ n := by
  simp [ofAsciiDigits_append, ofAsciiDigits_eq (List.replicate n '0')]

theorem toNat_sub_lt_ten {c : Char} (h : isAsciiDigit c = true) : c.toNat - '0'.toNat < 10 := by
  simp only [isAsciiDigit, Bool.and_eq_true, decide_eq_true_eq, Char.le_def, UInt32.le_iff_toNat_le] at h
  have hc : c.toNat ≤ '9'.toNat := h.2
  have h0 : '0'.toNat = 48 := rfl
  have h9 : '9'.toNat = 57 := rfl
  omega

theorem ofAsciiDigits_lt {cs : List Char} (h : ∀ c ∈ cs, isAsciiDigit c = true) :
    ofAsciiDigits cs < 10 ^ cs.length := by
  induction cs with
  | nil => simp
  | cons c cs ih =>
    obtain ⟨hc, hcs⟩ := List.forall_mem_cons.1 h
    have hrest := ih hcs
    have hd : c.toNat - '0'.toNat + 1 ≤ 10 := toNat_sub_lt_ten hc
    calc ofAsciiDigits (c :: cs) = (c.toNat - '0'.toNat) * 10 ^ cs.length + ofAsciiDigits cs :=
          ofAsciiDigits_cons c cs
      _ < (c.toNat - '0'.toNat) * 10 ^ cs.length + 10 ^ cs.length := Nat.add_lt_add_left hrest _
      _ = (c.toNat - '0'.toNat + 1) * 10 ^ cs.length := by ring
      _ ≤ 10 * 10 ^ cs.length := Nat.mul_le_mul_right _ hd
      _ = 10 ^ (c :: cs).length := by rw [List.length_cons, pow_succ]; ring

theorem ofAsciiDigits_dropWhile_zero (cs : List Char) :
    ofAsciiDigits (cs.dropWhile (· == '0')) = ofAsciiDigits cs := by
  induction cs with
  | nil => rfl
  | cons c cs ih =>
    by_cases hc : c = '0'
    · subst hc
      simpa [ofAsciiDigits_cons] using ih
    · simp [hc]

@[simp] theorem ofAsciiDigits_decimal (n : Nat) : ofAsciiDigits (decimal n) = n := by
  rw [ofAsciiDigits_eq, decimal, Nat.ofDigitChars_ten_toDigits]

theorem isAsciiDigit_of_mem_decimal {n : Nat} {c : Char} (h : c ∈ decimal n) : isAsciiDigit c = true := by
  rw [isAsciiDigit_eq_isDigit]
  exact Nat.isDigit_of_mem_toDigits (by decide) (by decide) h

theorem decimal_ne_nil (n : Nat) : decimal n ≠ [] :=
  Nat.toDigits_ne_nil

theorem length_decimal_le_iff {n k : Nat} (hk : 0 < k) : (decimal n).length ≤ k ↔ n < 10 ^ k :=
  Nat.length_toDigits_le_iff (by decide) hk

theorem signed_natAbs (k : Int) : signed (decide (k < 0)) k.natAbs = k := by
  by_cases hk : k < 0
  · simp only [signed, hk, decide_true, if_true]
    omega
  · simp only [signed, hk, decide_false, Bool.false_eq_true, if_false]
    omega

end Reckoner.Text
