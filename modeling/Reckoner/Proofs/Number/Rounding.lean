import Mathlib
import Reckoner.Number.Binary64

/-!
# Rounding to binary64

The nearest number depends on the exact value only, not on the fraction that gives it (`nearest_mul_mul`). A value that
is a binary64 number is kept (`nearest_units`), one from a unit on is not rounded to zero, and rounding never gives
anything but a finite number or an infinity of the given sign.
-/
namespace Reckoner.Binary64

theorem unitsPerOne_eq : unitsPerOne = 2 ^ 1074 := by
  unfold unitsPerOne
  -- The power must not be computed.
  generalize 1074 = p
  exact Nat.one_shiftLeft p

theorem unitsPerOne_pos : 0 < unitsPerOne := by
  rw [unitsPerOne_eq]
  positivity

theorem divNearest_mul_mul {k : Nat} (hk : 0 < k) (num den : Nat) :
    divNearest (k * num) (k * den) = divNearest num den := by
  have hq : k * num / (k * den) = num / den := Nat.mul_div_mul_left num den hk
  have hr : 2 * (k * num % (k * den)) = k * (2 * (num % den)) := by
    rw [Nat.mul_mod_mul_left]
    ring
  have hlt : k * den < k * (2 * (num % den)) ↔ den < 2 * (num % den) := Nat.mul_lt_mul_left hk
  have heq : k * (2 * (num % den)) = k * den ↔ 2 * (num % den) = den := Nat.mul_right_inj hk.ne'
  simp only [divNearest, hq, hr, hlt, heq]

/-- Only the value of the fraction counts. -/
theorem nearest_mul_mul {k : Nat} (hk : 0 < k) (s : Bool) (num den : Nat) :
    nearest s (k * num) (k * den) = nearest s num den := by
  have hq : k * num / (k * den) = num / den := Nat.mul_div_mul_left num den hk
  have hs (n : Nat) : (k * den) <<< n = k * den <<< n := by
    simp only [Nat.shiftLeft_eq, Nat.mul_assoc]
  simp only [nearest, hq, hs, divNearest_mul_mul hk]

theorem nearest_eq_of_mul_eq {s : Bool} {num den num' den' : Nat} (hd : 0 < den) (hd' : 0 < den')
    (h : num * den' = num' * den) : nearest s num den = nearest s num' den' := by
  calc nearest s num den = nearest s (den' * num) (den' * den) := (nearest_mul_mul hd' s num den).symm
    _ = nearest s (den * num') (den * den') := by rw [Nat.mul_comm den' num, h, Nat.mul_comm num', Nat.mul_comm den']
    _ = nearest s num' den' := nearest_mul_mul hd s num' den'

theorem isFinite_nearest_or (s : Bool) (num den : Nat) :
    (nearest s num den).isFinite = true ∨ nearest s num den = .infinite s := by
  simp only [nearest]
  split
  · split
    · exact .inl rfl
    · split
      · exact .inl rfl
      · exact .inr rfl
  · exact .inr rfl

theorem isFinite_nearest_of_not_infinite {s : Bool} {num den : Nat} (h : (nearest s num den).isInfinite = false) :
    (nearest s num den).isFinite = true := by
  rcases isFinite_nearest_or s num den with hn | hn
  · exact hn
  · rw [hn] at h
    cases h

theorem shiftOf_units {m k : Nat} (h : Canonical m k) : shiftOf (units m k) = k := by
  obtain ⟨hm, hk, -⟩ := h
  simp only [shiftOf, units, Nat.shiftLeft_eq]
  rcases hk with rfl | hk
  · have hlog : m.log2 < 53 := by
      by_cases h0 : m = 0
      · subst h0
        decide
      · exact (Nat.log2_lt h0).2 hm
    simp only [pow_zero, Nat.mul_one]
    omega
  · have hlog : m.log2 = 52 := by
      have h0 : m ≠ 0 := by omega
      have hlow : 52 ≤ m.log2 := (Nat.le_log2 h0).2 hk
      have hhigh : m.log2 < 53 := (Nat.log2_lt h0).2 hm
      omega
    have hsum : (m * 2 ^ k).log2 = 52 + k := by
      rw [Nat.log2_eq_iff (Nat.mul_ne_zero (by omega) (Nat.two_pow_pos k).ne')]
      constructor
      · rw [Nat.pow_add]
        exact Nat.mul_le_mul_right _ hk
      · rw [Nat.add_right_comm, Nat.pow_add]
        exact Nat.mul_lt_mul_of_pos_right hm (Nat.two_pow_pos k)
    omega

theorem divNearest_mul_self {den : Nat} (hd : 0 < den) (q : Nat) : divNearest (q * den) den = q := by
  have hq : q * den / den = q := Nat.mul_div_cancel q hd
  have hr : q * den % den = 0 := Nat.mul_mod_left q den
  simp only [divNearest, hq, hr]
  have : ¬(den < 2 * 0 ∨ 2 * 0 = den ∧ q % 2 = 1) := by omega
  rw [if_neg this]

theorem nearest_units (s : Bool) {m k : Nat} (h : Canonical m k) : nearest s (units m k) 1 = .finite s m k h := by
  have hdiv : divNearest (units m k) (1 <<< k) = m := by
    have hpos : 0 < 1 <<< k := by
      rw [Nat.shiftLeft_eq, Nat.one_mul]
      exact Nat.two_pow_pos k
    rw [units, Nat.shiftLeft_eq m, ← Nat.one_mul (2 ^ k), ← Nat.shiftLeft_eq 1]
    exact divNearest_mul_self hpos m
  simp only [nearest, Nat.div_one, shiftOf_units h, hdiv]
  rw [dif_pos h.2.2, dif_pos h.1]

theorem pow_shiftOf_le {n : Nat} (h : 0 < n) : 2 ^ shiftOf n ≤ n := by
  have hlog : 2 ^ n.log2 ≤ n := Nat.log2_self_le h.ne'
  exact (Nat.pow_le_pow_right (by decide) (Nat.sub_le _ _)).trans hlog

theorem nearest_isZero {s : Bool} {num den : Nat} (hd : 0 < den) (h : den ≤ num) :
    (nearest s num den).isZero = false := by
  have hq : 0 < num / den := Nat.div_pos h hd
  have hm : 0 < divNearest num (den <<< shiftOf (num / den)) := by
    have hle : den <<< shiftOf (num / den) ≤ num := by
      rw [Nat.shiftLeft_eq]
      exact (Nat.mul_le_mul_left den (pow_shiftOf_le hq)).trans (Nat.mul_div_le num den)
    have hpos : 0 < den <<< shiftOf (num / den) := by
      rw [Nat.shiftLeft_eq]
      exact Nat.mul_pos hd (Nat.two_pow_pos _)
    have : 0 < num / den <<< shiftOf (num / den) := Nat.div_pos hle hpos
    simp only [divNearest]
    split <;> omega
  simp only [nearest]
  split
  · split
    · simp only [isZero, beq_eq_false_iff_ne]
      omega
    · split <;> rfl
  · rfl

end Reckoner.Binary64
