import Mathlib
import Reckoner.Number.Decimal
import Reckoner.Proofs.Number.Rounding

/-!
# Decimals and the numbers they round to

The shortcuts of reading a decimal agree with rounding its exact value (`toBinary64_eq_nearest`). So only the value of a
decimal counts, not how many zeros it ends with, and the decimal that is chosen for a number reads back as the number.
-/
namespace Reckoner

namespace Binary64

theorem nearest_eq_zero {s : Bool} {num den : Nat} (h : 2 * num < den) : nearest s num den = zero s := by
  have hq : num / den = 0 := Nat.div_eq_of_lt (by omega)
  have hr : num % den = num := Nat.mod_eq_of_lt (by omega)
  have hshift : shiftOf 0 = 0 := by decide
  have hm : divNearest num (den <<< 0) = 0 := by
    have hnot : ¬(den < 2 * num ∨ 2 * num = den ∧ 0 % 2 = 1) := by omega
    rw [Nat.shiftLeft_zero, divNearest, hq, hr]
    exact if_neg hnot
  simp only [nearest, hq, hshift, hm]
  rfl

theorem nearest_eq_infinite {s : Bool} {num den bits : Nat} (hbits : 2098 ≤ bits) (h : 2 ^ bits ≤ num / den) :
    nearest s num den = .infinite s := by
  have h0 : num / den ≠ 0 := ((Nat.two_pow_pos bits).trans_le h).ne'
  have hlog : bits ≤ (num / den).log2 := (Nat.le_log2 h0).2 h
  have hshift : ¬shiftOf (num / den) ≤ 2045 := by
    unfold shiftOf
    omega
  simp only [nearest]
  rw [dif_neg hshift]

end Binary64

namespace Decimal

theorem two_pow_le_ten_pow_mul {a b c : Nat} (h : a ≤ 3 * b + c) : 2 ^ a ≤ 10 ^ b * 2 ^ c := by
  calc 2 ^ a ≤ 2 ^ (3 * b + c) := Nat.pow_le_pow_right (by decide) h
    _ = (2 ^ 3) ^ b * 2 ^ c := by rw [pow_add, pow_mul]
    _ ≤ 10 ^ b * 2 ^ c := Nat.mul_le_mul_right _ (Nat.pow_le_pow_left (by decide) b)

private theorem two_mul_lt_ten_pow {c b : Nat} (h : c + 2 ≤ 3 * b) (n k : Nat) :
    2 * (n * 2 ^ c) < 10 ^ (b + n.log2 + k) := by
  have hn : n < 2 ^ (n.log2 + 1) := Nat.lt_log2_self
  have hlog : 2 ^ n.log2 ≤ 10 ^ n.log2 := Nat.pow_le_pow_left (by decide) _
  calc 2 * (n * 2 ^ c) = n * (2 * 2 ^ c) := by ring
    _ < 2 ^ (n.log2 + 1) * (2 * 2 ^ c) := Nat.mul_lt_mul_of_pos_right hn (by positivity)
    _ = 2 ^ (c + 2) * 2 ^ n.log2 := by ring
    _ ≤ 10 ^ b * 10 ^ n.log2 := Nat.mul_le_mul (by simpa using two_pow_le_ten_pow_mul (c := 0) h) hlog
    _ = 10 ^ (b + n.log2) := (pow_add _ _ _).symm
    _ ≤ 10 ^ (b + n.log2 + k) := Nat.pow_le_pow_right (by decide) (Nat.le_add_right _ _)

private theorem two_pow_le_mul_ten_pow {a b c n : Nat} (hn : n ≠ 0) (h : a ≤ 3 * b + c) :
    2 ^ a ≤ n * 10 ^ b * 2 ^ c := by
  calc 2 ^ a ≤ 10 ^ b * 2 ^ c := two_pow_le_ten_pow_mul h
    _ ≤ n * 10 ^ b * 2 ^ c := Nat.mul_le_mul_right _ (Nat.le_mul_of_pos_left _ (Nat.pos_of_ne_zero hn))

/-- Reading a decimal rounds its exact value. -/
theorem toBinary64_eq_nearest (s : Bool) (d : Decimal) : d.toBinary64 s =
    .nearest s (d.digits * 10 ^ d.exponent.toNat * Binary64.unitsPerOne) (10 ^ (-d.exponent).toNat) := by
  obtain ⟨n, e⟩ := d
  simp only [toBinary64]
  split
  · next h =>
    symm
    apply Binary64.nearest_eq_zero
    rcases h with rfl | h
    · rw [Nat.zero_mul, Nat.zero_mul, Nat.mul_zero]
      exact Nat.pow_pos (by decide)
    · have he : e.toNat = 0 := by omega
      obtain ⟨k, hk⟩ : ∃ k, (-e).toNat = 401 + n.log2 + k := ⟨(-e).toNat - (401 + n.log2), by omega⟩
      rw [he, hk, Binary64.unitsPerOne_eq, pow_zero, Nat.mul_one]
      exact two_mul_lt_ten_pow (by decide) n k
  · next h =>
    obtain ⟨hn, -⟩ := not_or.1 h
    split
    · next he =>
      symm
      apply Binary64.nearest_eq_infinite (Nat.le_refl _)
      have hden : (-e).toNat = 0 := by omega
      rw [hden, pow_zero, Nat.div_one, Binary64.unitsPerOne_eq]
      exact two_pow_le_mul_ten_pow hn (by omega)
    · split
      · next he =>
        have hden : (-e).toNat = 0 := by omega
        rw [hden]
        rfl
      · next he =>
        have hnum : e.toNat = 0 := by omega
        rw [hnum, pow_zero, Nat.mul_one]
        rfl

theorem toBinary64_mul_pow (s : Bool) (n : Nat) (e : Int) (j : Nat) :
    toBinary64 s ⟨n * 10 ^ j, e - j⟩ = toBinary64 s ⟨n, e⟩ := by
  rw [toBinary64_eq_nearest, toBinary64_eq_nearest]
  apply Binary64.nearest_eq_of_mul_eq (Nat.pow_pos (by decide)) (Nat.pow_pos (by decide))
  have hexp : j + (e - j).toNat + (-e).toNat = e.toNat + (-(e - j)).toNat := by omega
  have hpow : 10 ^ j * 10 ^ (e - j).toNat * 10 ^ (-e).toNat = 10 ^ e.toNat * 10 ^ (-(e - j)).toNat := by
    rw [← pow_add, ← pow_add, ← pow_add, hexp]
  calc n * 10 ^ j * 10 ^ (e - j).toNat * Binary64.unitsPerOne * 10 ^ (-e).toNat
      = n * (10 ^ j * 10 ^ (e - j).toNat * 10 ^ (-e).toNat) * Binary64.unitsPerOne := by ring
    _ = n * (10 ^ e.toNat * 10 ^ (-(e - j)).toNat) * Binary64.unitsPerOne := by rw [hpow]
    _ = n * 10 ^ e.toNat * Binary64.unitsPerOne * 10 ^ (-(e - j)).toNat := by ring

private theorem toBinary64_five_pow (s : Bool) (u : Nat) {p : Nat} (hp : Binary64.unitsPerOne = 2 ^ p) :
    toBinary64 s ⟨u * 5 ^ p, -(p : Int)⟩ = .nearest s u 1 := by
  rw [toBinary64_eq_nearest]
  apply Binary64.nearest_eq_of_mul_eq (Nat.pow_pos (by decide)) Nat.one_pos
  have hnum : (-(p : Int)).toNat = 0 := by omega
  have hden : (-(-(p : Int))).toNat = p := by omega
  have hpow : 5 ^ p * 2 ^ p = 10 ^ p := (mul_pow 5 2 p).symm
  rw [hnum, hden, hp, pow_zero, Nat.mul_one, Nat.mul_one, Nat.mul_assoc, hpow]

theorem exists_ofUnits_eq (u : Nat) :
    ∃ p : Nat, Binary64.unitsPerOne = 2 ^ p ∧ ofUnits u = ⟨u * 5 ^ p, -(p : Int)⟩ := by
  refine ⟨1074, Binary64.unitsPerOne_eq, ?_⟩
  unfold ofUnits
  refine (Decimal.mk.injEq ..).mpr ⟨?_, rfl⟩
  generalize 1074 = p
  rfl

/-- The exact decimal of a number reads back as the number. -/
theorem toBinary64_ofUnits (s : Bool) {m k : Nat} (h : Canonical m k) :
    (ofUnits (Binary64.units m k)).toBinary64 s = .finite s m k h := by
  obtain ⟨p, hp, hunits⟩ := exists_ofUnits_eq (Binary64.units m k)
  rw [hunits, ← Binary64.nearest_units s h]
  exact toBinary64_five_pow s _ hp

theorem toBinary64_of_readingBack? {x : Binary64} {d e : Decimal} {dropped : Nat}
    (h : readingBack? x d dropped = some e) : e.toBinary64 x.isNegative = x := by
  simp only [readingBack?] at h
  split at h
  · next hnear =>
    cases h
    exact hnear
  · split at h
    · next hfar =>
      cases h
      exact hfar
    · cases h

private theorem toBinary64_shortest_of {x : Binary64} {units : Nat}
    (h : (ofUnits units).toBinary64 x.isNegative = x) : (shortest x units).toBinary64 x.isNegative = x := by
  unfold shortest
  -- The powers in `ofUnits` must not be computed.
  generalize ofUnits units = exact at h ⊢
  dsimp only
  cases hd : (List.range 17).findSome? fun i => readingBack? x exact (Text.digitCount exact.digits - (i + 1)) with
  | none => exact h
  | some d =>
    obtain ⟨i, -, hi⟩ := List.exists_of_findSome?_eq_some hd
    exact toBinary64_of_readingBack? hi

theorem toBinary64_shortest (s : Bool) {m k : Nat} (h : Canonical m k) :
    (shortest (.finite s m k h) (Binary64.units m k)).toBinary64 s = .finite s m k h :=
  toBinary64_shortest_of (x := .finite s m k h) (toBinary64_ofUnits s h)

end Decimal
end Reckoner
