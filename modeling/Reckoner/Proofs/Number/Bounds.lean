import Mathlib
import Reckoner.Expr.Operand
import Reckoner.Proofs.Number.Rounding
import Reckoner.Proofs.Outcome

/-!
# Bounded numbers

A number is bounded when it is a whole one of at most `Operator.maxDigits` digits or a finite binary64 one. The limit of
results in bits lies below the limit in digits, bounded numbers can be written, and their sums, differences, products and
quotients are numbers: the only fault is to be out of range, once a zero divisor is excluded.
-/
namespace Reckoner

open Outcome

namespace Binary64

theorem isFinite_of_ne_nan {x : Binary64} (hn : x ≠ .nan) (hi : x.isInfinite = false) : x.isFinite = true := by
  cases x with
  | finite => rfl
  | infinite s => cases hi
  | nan => exact absurd rfl hn

theorem nearest_ne_nan (s : Bool) (num den : Nat) : nearest s num den ≠ .nan := by
  intro h
  rcases isFinite_nearest_or s num den with hn | hn <;> rw [h] at hn <;> cases hn

theorem add_ne_nan {x y : Binary64} (hx : x.isFinite = true) (hy : y.isFinite = true) : add x y ≠ .nan := by
  cases x with
  | finite s m k h =>
    cases y with
    | finite t n l h' =>
      simp only [add]
      split
      · simp [zero]
      · exact nearest_ne_nan _ _ _
    | _ => cases hy
  | _ => cases hx

theorem isFinite_neg (x : Binary64) : x.neg.isFinite = x.isFinite := by
  cases x <;> rfl

theorem sub_ne_nan {x y : Binary64} (hx : x.isFinite = true) (hy : y.isFinite = true) : sub x y ≠ .nan :=
  add_ne_nan hx ((isFinite_neg y).trans hy)

theorem mul_ne_nan {x y : Binary64} (hx : x.isFinite = true) (hy : y.isFinite = true) : mul x y ≠ .nan := by
  cases x with
  | finite s m k h =>
    cases y with
    | finite t n l h' => exact nearest_ne_nan _ _ _
    | _ => cases hy
  | _ => cases hx

theorem div_ne_nan {x y : Binary64} (hx : x.isFinite = true) (hy : y.isFinite = true) (h0 : y.isZero = false) :
    div x y ≠ .nan := by
  cases x with
  | finite s m k h =>
    cases y with
    | finite t n l h' =>
      have hn : n ≠ 0 := by simpa [isZero] using h0
      simp only [div, hn, if_false]
      exact nearest_ne_nan _ _ _
    | _ => cases hy
  | _ => cases hx

theorem ofInt_isZero {n : Int} (h : n ≠ 0) : (ofInt n).isZero = false := by
  apply nearest_isZero Nat.one_pos
  have hn : 0 < n.natAbs := Int.natAbs_pos.2 h
  exact Nat.mul_pos hn unitsPerOne_pos

end Binary64

namespace Number

/-- A whole number of at most `Operator.maxDigits` digits, or a finite binary64 number. -/
def Bounded : Number → Prop
  | .int n => n.natAbs < 10 ^ Operator.maxDigits
  | .double x => x.isFinite = true

/-- Any binary64 number, or a whole number of at most `Operator.maxDigits` digits. -/
def IsShort : Number → Prop
  | .int n => n.natAbs < 10 ^ Operator.maxDigits
  | .double _ => True

theorem Bounded.isShort {n : Number} (h : n.Bounded) : n.IsShort := by
  cases n with
  | int n => exact h
  | double x => trivial

theorem IsShort.isWritable {n : Number} (h : n.IsShort) : n.isWritable = true := by
  cases n with
  | int n =>
    have hle : 10 ^ Operator.maxDigits ≤ 10 ^ DigitLimit.maxDigits := Nat.pow_le_pow_right (by decide) (by decide)
    have hlt : n.natAbs < 10 ^ DigitLimit.maxDigits := Nat.lt_of_lt_of_le h hle
    simp only [Number.isWritable, DigitLimit.isWritable, decide_eq_true_eq]
    generalize DigitLimit.maxDigits = k at hlt ⊢
    exact hlt
  | double x => rfl

theorem Bounded.isWritable {n : Number} (h : n.Bounded) : n.isWritable = true :=
  h.isShort.isWritable

theorem two_pow_maxBits_lt : 2 ^ Operator.maxBits < 10 ^ Operator.maxDigits := by decide +kernel

theorem bitLength_le_iff {n : Int} {k : Nat} : bitLength n ≤ k ↔ n.natAbs < 2 ^ k := by
  by_cases h0 : n = 0
  · subst h0
    simp [bitLength]
  · rw [bitLength, if_neg h0, Nat.succ_le_iff]
    exact Nat.log2_lt (Int.natAbs_ne_zero.2 h0)

theorem bounded_of_bitLength_le {n : Int} (h : bitLength n ≤ Operator.maxBits) : (Number.int n).Bounded :=
  (bitLength_le_iff.1 h).trans two_pow_maxBits_lt

theorem toBinary64_eq_error {a : Number} {f : Fault} (h : a.toBinary64 = .error f) : f = .outOfRange := by
  cases a with
  | int n =>
    simp only [toBinary64] at h
    split at h <;> cases h
    rfl
  | double x => cases h

private theorem eq_outOfRange_of_bind {a b : Number} {g : Binary64 → Binary64 → Except Fault Number} {f : Fault}
    (hg : ∀ x y, b.toBinary64 = .ok y → g x y ≠ .error f)
    (h : (a.toBinary64 >>= fun x => b.toBinary64 >>= g x) = .error f) : f = .outOfRange := by
  rcases bind_eq_error_iff.1 h with h | ⟨x, -, h⟩
  · exact toBinary64_eq_error h
  · rcases bind_eq_error_iff.1 h with h | ⟨y, hy, h⟩
    · exact toBinary64_eq_error h
    · exact absurd h (hg x y hy)

theorem isFinite_of_toBinary64 {a : Number} (ha : a.Bounded) {x : Binary64} (h : a.toBinary64 = .ok x) :
    x.isFinite = true := by
  cases a with
  | int n =>
    simp only [toBinary64] at h
    split at h
    · cases h
    · next hi =>
      cases h
      exact Binary64.isFinite_nearest_of_not_infinite (Bool.eq_false_iff.2 hi)
  | double y =>
    cases h
    exact ha

theorem isZero_of_toBinary64 {a : Number} (ha : a.isZero = false) {x : Binary64} (h : a.toBinary64 = .ok x) :
    x.isZero = false := by
  cases a with
  | int n =>
    simp only [toBinary64] at h
    split at h
    · cases h
    · cases h
      exact Binary64.ofInt_isZero (by simpa [isZero] using ha)
  | double y =>
    cases h
    exact ha

theorem combine_eq (exact : Int → Int → Int) (rounded : Binary64 → Binary64 → Binary64) (a b : Number) :
    (∃ m n, a = .int m ∧ b = .int n ∧ combine exact rounded a b = .ok (.int (exact m n))) ∨
      combine exact rounded a b =
        a.toBinary64 >>= fun x => b.toBinary64 >>= fun y => .ok (.double (rounded x y)) := by
  cases a with
  | int m =>
    cases b with
    | int n => exact .inl ⟨m, n, rfl, rfl, rfl⟩
    | double y => exact .inr rfl
  | double x => exact .inr rfl

theorem combine_eq_error {exact : Int → Int → Int} {rounded : Binary64 → Binary64 → Binary64} {a b : Number}
    {f : Fault} (h : combine exact rounded a b = .error f) : f = .outOfRange := by
  rcases combine_eq exact rounded a b with ⟨m, n, rfl, rfl, hc⟩ | hc
  · rw [hc] at h
    cases h
  · rw [hc] at h
    apply eq_outOfRange_of_bind _ h
    intro x y _ hxy
    cases hxy

theorem ne_nan_of_combine {exact : Int → Int → Int} {rounded : Binary64 → Binary64 → Binary64}
    (hr : ∀ x y, x.isFinite = true → y.isFinite = true → rounded x y ≠ .nan) {a b : Number} (ha : a.Bounded)
    (hb : b.Bounded) {z : Binary64} (h : combine exact rounded a b = .ok (.double z)) : z ≠ .nan := by
  rcases combine_eq exact rounded a b with ⟨m, n, rfl, rfl, hc⟩ | hc
  · rw [hc] at h
    cases h
  · rw [hc] at h
    obtain ⟨x, hx, h⟩ := bind_eq_ok_iff.1 h
    obtain ⟨y, hy, h⟩ := bind_eq_ok_iff.1 h
    cases h
    exact hr x y (isFinite_of_toBinary64 ha hx) (isFinite_of_toBinary64 hb hy)

theorem div_eq (a b : Number) :
    (∃ m n, a = .int m ∧ b = .int n) ∨
      a.div b = a.toBinary64 >>= fun x => b.toBinary64 >>= fun y =>
        if y.isZero then .error (.zeroDivisor false) else .ok (.double (Binary64.div x y)) := by
  have hpass (x y : Binary64) :
      (do if y.isZero then throw (Fault.zeroDivisor false)
          return Number.double (Binary64.div x y) : Except Fault Number) =
        if y.isZero then .error (.zeroDivisor false) else .ok (.double (Binary64.div x y)) := by
    cases y.isZero <;> rfl
  cases a with
  | int m =>
    cases b with
    | int n => exact .inl ⟨m, n, rfl, rfl⟩
    | double y => exact .inr (by simp only [div, hpass])
  | double x => exact .inr (by simp only [div, hpass])

theorem div_eq_error {a b : Number} (hb : b.isZero = false) {f : Fault} (h : a.div b = .error f) :
    f = .outOfRange := by
  rcases div_eq a b with ⟨m, n, rfl, rfl⟩ | hd
  · have hn : n ≠ 0 := by simpa [isZero] using hb
    simp only [div, hn, if_false] at h
    split at h <;> cases h
    rfl
  · rw [hd] at h
    apply eq_outOfRange_of_bind _ h
    intro x y hy hxy
    simp [isZero_of_toBinary64 hb hy] at hxy

theorem ne_nan_of_div {a b : Number} (ha : a.Bounded) (hb : b.Bounded) {v : Number} (h : a.div b = .ok v) :
    ∃ z, v = .double z ∧ z ≠ .nan := by
  rcases div_eq a b with ⟨m, n, rfl, rfl⟩ | hd
  · simp only [div] at h
    split at h
    · cases h
    · split at h <;> cases h
      exact ⟨_, rfl, Binary64.nearest_ne_nan _ _ _⟩
  · rw [hd] at h
    obtain ⟨x, hx, h⟩ := bind_eq_ok_iff.1 h
    obtain ⟨y, hy, h⟩ := bind_eq_ok_iff.1 h
    split at h
    · cases h
    · next h0 =>
      cases h
      exact ⟨_, rfl, Binary64.div_ne_nan (isFinite_of_toBinary64 ha hx) (isFinite_of_toBinary64 hb hy)
        (by simpa using h0)⟩

end Number
end Reckoner
