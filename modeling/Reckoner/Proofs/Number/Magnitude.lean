import Mathlib
import Reckoner.Proofs.Number.Notation

/-!
# Rounding keeps the order

A larger value is not rounded to a smaller number (`Decimal.magnitude_toBinary64_le`). So the decimal that is chosen for a
number lies on the same side of a power of ten as the number itself, if that power is chosen for the number it rounds to
(`Decimal.value_shortest_lt_iff`).
-/
namespace Reckoner

namespace Binary64

theorem shiftOf_mono {a b : Nat} (h : a ≤ b) : shiftOf a ≤ shiftOf b := by
  simp only [shiftOf, Nat.log2_eq_log_two]
  exact Nat.sub_le_sub_right (Nat.log_mono_right h) 52

theorem divNearest_mono {a b : Nat} (h : a ≤ b) (den : Nat) : divNearest a den ≤ divNearest b den := by
  rcases (Nat.div_le_div_right h : a / den ≤ b / den).lt_or_eq with hlt | heq
  · exact (divNearest_le a den).trans (Nat.succ_le_of_lt hlt |>.trans (le_divNearest b den))
  · have ha := Nat.div_add_mod a den
    have hb := Nat.div_add_mod b den
    have hrest : a % den ≤ b % den := by
      rw [heq] at ha
      omega
    simp only [divNearest, heq]
    split <;> split <;> omega

/-- The units that a value is rounded to, no matter how many they are. -/
def roundedUnits (num den : Nat) : Nat :=
  divNearest num (den <<< shiftOf (num / den)) <<< shiftOf (num / den)

theorem roundedUnits_mono {a b : Nat} (h : a ≤ b) (den : Nat) : roundedUnits a den ≤ roundedUnits b den := by
  have hshift : shiftOf (a / den) ≤ shiftOf (b / den) := shiftOf_mono (Nat.div_le_div_right h)
  have hfits := divNearest_shiftOf_le a den
  have hfull := shiftOf_eq_zero_or_le b den
  simp only [roundedUnits]
  generalize shiftOf (a / den) = k at hshift hfits ⊢
  generalize shiftOf (b / den) = l at hshift hfull ⊢
  rcases hshift.lt_or_eq with hlt | rfl
  · have hmantissa := hfull.resolve_left (by omega)
    simp only [Nat.shiftLeft_eq]
    calc divNearest a (den * 2 ^ k) * 2 ^ k ≤ 2 ^ 53 * 2 ^ k := Nat.mul_le_mul_right _ (Nat.shiftLeft_eq .. ▸ hfits)
      _ = 2 ^ (53 + k) := (pow_add _ _ _).symm
      _ ≤ 2 ^ (52 + l) := Nat.pow_le_pow_right (by decide) (by omega)
      _ = 2 ^ 52 * 2 ^ l := pow_add _ _ _
      _ ≤ divNearest b (den * 2 ^ l) * 2 ^ l := Nat.mul_le_mul_right _ (Nat.shiftLeft_eq .. ▸ hmantissa)
  · simp only [Nat.shiftLeft_eq]
    exact Nat.mul_le_mul_right _ (divNearest_mono h _)

/-- The carry to the next power of two changes the mantissa and the shift, not the units. -/
theorem units_of_nearest {s t : Bool} {num den m k : Nat} {h : Canonical m k} (hx : nearest s num den = .finite t m k h) :
    t = s ∧ units m k = roundedUnits num den := by
  have hfits := divNearest_shiftOf_le num den
  simp only [nearest] at hx
  split at hx
  · split at hx
    · cases hx
      exact ⟨rfl, rfl⟩
    · next hcarry =>
      split at hx
      · cases hx
        have hmantissa : divNearest num (den <<< shiftOf (num / den)) = 2 * 0x10000000000000 := by omega
        refine ⟨rfl, ?_⟩
        rw [roundedUnits, hmantissa, units, Nat.shiftLeft_eq, Nat.shiftLeft_eq, pow_succ]
        ring
      · cases hx
  · cases hx

theorem isFinite_nearest_of_lt {s : Bool} {num den bound k : Nat} (hbound : bound < 2 ^ k) (hk : k ≤ 2000)
    (h : num < bound * den) : (nearest s num den).isFinite = true := by
  have hquotient : num / den < 2 ^ k := (Nat.div_lt_of_lt_mul (Nat.mul_comm .. ▸ h)).trans hbound
  have hlog : (num / den).log2 ≤ k := by
    by_cases hzero : num / den = 0
    · rw [hzero]
      exact Nat.zero_le k
    · exact ((Nat.log2_lt hzero).2 hquotient).le
  have hshift : shiftOf (num / den) ≤ 2000 := (Nat.sub_le _ _).trans (hlog.trans hk)
  simp only [nearest]
  split
  · split
    · rfl
    · split
      · rfl
      · omega
  · omega

def magnitude : Binary64 → ℚ
  | .finite _ m k _ => units m k / unitsPerOne
  | _ => 0

theorem magnitude_nearest_le {s : Bool} {num den num' den' : Nat} (hd : 0 < den) (hd' : 0 < den')
    (h : num * den' ≤ num' * den) (hx : (nearest s num den).isFinite = true) (hy : (nearest s num' den').isFinite = true) :
    (nearest s num den).magnitude ≤ (nearest s num' den').magnitude := by
  have hunits := roundedUnits_mono h (den * den')
  have hleft : nearest s num den = nearest s (num * den') (den * den') := by
    rw [← nearest_mul_mul hd', Nat.mul_comm den', Nat.mul_comm den']
  have hright : nearest s num' den' = nearest s (num' * den) (den * den') := by
    rw [← nearest_mul_mul hd, Nat.mul_comm den]
  rw [hleft] at hx ⊢
  rw [hright] at hy ⊢
  cases hn : nearest s (num * den') (den * den') with
  | finite t m k hc =>
    cases hn' : nearest s (num' * den) (den * den') with
    | finite t' m' k' hc' =>
      rw [← (units_of_nearest hn).2, ← (units_of_nearest hn').2] at hunits
      have hcast : (units m k : ℚ) ≤ units m' k' := by exact_mod_cast hunits
      exact div_le_div_of_nonneg_right hcast (Nat.cast_nonneg _)
    | _ =>
      rw [hn'] at hy
      cases hy
  | _ =>
    rw [hn] at hx
    cases hx

theorem isZero_of_magnitude_le_zero {x : Binary64} (hx : x.isFinite = true) (h : x.magnitude ≤ 0) : x.isZero = true := by
  cases x with
  | finite s m k hc =>
    have hpos : (0 : ℚ) < unitsPerOne := Nat.cast_pos.2 unitsPerOne_pos
    have hunits : (units m k : ℚ) ≤ 0 := by
      rw [magnitude, div_le_iff₀ hpos, zero_mul] at h
      exact h
    have hnone : units m k = 0 := Nat.le_zero.1 (by exact_mod_cast hunits)
    rw [units, Nat.shiftLeft_eq] at hnone
    simpa [isZero] using hnone
  | _ => cases hx

theorem eq_of_magnitude_eq {s : Bool} {m k m' k' : Nat} {h : Canonical m k} {h' : Canonical m' k'}
    (heq : magnitude (.finite s m k h) = magnitude (.finite s m' k' h')) :
    Binary64.finite s m k h = .finite s m' k' h' := by
  have hpos : (unitsPerOne : ℚ) ≠ 0 := by exact_mod_cast unitsPerOne_pos.ne'
  have hunits : units m k = units m' k' := by
    have hcast : (units m k : ℚ) = units m' k' := (div_left_inj' hpos).1 heq
    exact_mod_cast hcast
  rw [← nearest_units s h, ← nearest_units s h', hunits]

end Binary64

namespace Decimal

def value (d : Decimal) : ℚ :=
  d.digits * 10 ^ d.exponent

theorem value_mul_unitsPerOne (d : Decimal) : d.value * Binary64.unitsPerOne =
    (d.digits * 10 ^ d.exponent.toNat * Binary64.unitsPerOne : Nat) / (10 ^ (-d.exponent).toNat : Nat) := by
  have hpow : (10 : ℚ) ^ d.exponent = 10 ^ d.exponent.toNat / 10 ^ (-d.exponent).toNat := by
    rw [← zpow_natCast, ← zpow_natCast, ← zpow_sub₀ (by norm_num : (10 : ℚ) ≠ 0)]
    congr 1
    omega
  rw [value, hpow]
  push_cast
  ring

theorem magnitude_toBinary64_le {s : Bool} {d e : Decimal} (h : d.value ≤ e.value)
    (hd : (d.toBinary64 s).isFinite = true) (he : (e.toBinary64 s).isFinite = true) :
    (d.toBinary64 s).magnitude ≤ (e.toBinary64 s).magnitude := by
  have hden (k : Nat) : 0 < 10 ^ k := Nat.pow_pos (by decide)
  rw [toBinary64_eq_nearest] at hd he ⊢
  rw [toBinary64_eq_nearest]
  refine Binary64.magnitude_nearest_le (hden _) (hden _) ?_ hd he
  have hunits : d.value * Binary64.unitsPerOne ≤ e.value * Binary64.unitsPerOne :=
    mul_le_mul_of_nonneg_right h (Nat.cast_nonneg _)
  rw [value_mul_unitsPerOne, value_mul_unitsPerOne,
    div_le_div_iff₀ (Nat.cast_pos.2 (hden _)) (Nat.cast_pos.2 (hden _))] at hunits
  exact_mod_cast hunits

private theorem value_five_pow (u : Nat) {p : Nat} (hp : Binary64.unitsPerOne = 2 ^ p) :
    value ⟨u * 5 ^ p, -(p : Int)⟩ = u / Binary64.unitsPerOne := by
  have hpow : (10 : ℚ) ^ p = 5 ^ p * 2 ^ p := by rw [← mul_pow]; norm_num
  rw [value, hp, zpow_neg, zpow_natCast, hpow]
  push_cast
  field_simp

theorem value_ofUnits (s : Bool) {m k : Nat} (h : Canonical m k) :
    (ofUnits (Binary64.units m k)).value = (Binary64.finite s m k h).magnitude := by
  obtain ⟨p, hp, hunits⟩ := exists_ofUnits_eq (Binary64.units m k)
  rw [hunits]
  exact value_five_pow _ hp

/-- A decimal that is chosen for the number it rounds to, and not above that number, parts the numbers as it parts the decimals
that are chosen for them. -/
theorem value_shortest_lt_iff {s : Bool} {bound : Decimal} {m' k' : Nat} {h' : Canonical m' k'}
    (hround : bound.toBinary64 s = .finite s m' k' h')
    (hchosen : shortest (.finite s m' k' h') (Binary64.units m' k') = bound)
    (hle : bound.value ≤ (Binary64.finite s m' k' h').magnitude) {m k : Nat} (h : Canonical m k) :
    (shortest (.finite s m k h) (Binary64.units m k)).value < bound.value ↔
      (Binary64.finite s m k h).magnitude < bound.value := by
  have hread := toBinary64_shortest s h
  have hexact := toBinary64_ofUnits s h
  have hfinite {m k : Nat} {h : Canonical m k} : (Binary64.finite s m k h).isFinite = true := rfl
  have hbound : (bound.toBinary64 s).isFinite = true := by rw [hround]; exact hfinite
  generalize hd : shortest (.finite s m k h) (Binary64.units m k) = d at hread ⊢
  rw [← value_ofUnits s h]
  constructor
  · intro hlt
    by_contra hnot
    -- The number and the bound round to each other, so they are the same number and have the same decimal.
    have habove := magnitude_toBinary64_le hlt.le (hread.symm ▸ hfinite) hbound
    have hbelow := magnitude_toBinary64_le (not_lt.1 hnot) hbound (hexact.symm ▸ hfinite)
    rw [hread, hround] at habove
    rw [hexact, hround] at hbelow
    obtain ⟨-, rfl, rfl⟩ := Binary64.finite.inj (Binary64.eq_of_magnitude_eq (le_antisymm habove hbelow))
    rw [← hd, hchosen] at hlt
    exact lt_irrefl _ hlt
  · intro hlt
    by_contra hnot
    have hbelow := magnitude_toBinary64_le (not_lt.1 hnot) hbound (hread.symm ▸ hfinite)
    rw [hread, hround] at hbelow
    rw [value_ofUnits s h] at hlt
    exact absurd (hle.trans hbelow) (not_le.2 hlt)

/-! ### The range of positional notation -/

theorem zpow_scale_le_value {d : Decimal} (hd : d.digits ≠ 0) :
    10 ^ d.scale ≤ d.value ∧ d.value < 10 ^ (d.scale + 1) := by
  obtain ⟨n, e⟩ := d
  obtain ⟨l, hl⟩ : ∃ l, (Text.decimal n).length = l + 1 :=
    Nat.exists_eq_succ_of_ne_zero (List.length_pos_iff.2 (Text.decimal_ne_nil n)).ne'
  have hbelow : n < 10 ^ (l + 1) := (Text.length_decimal_le_iff (Nat.succ_pos l)).1 hl.le
  have habove : 10 ^ l ≤ n := by
    cases l with
    | zero => exact Nat.one_le_iff_ne_zero.2 hd
    | succ l =>
      by_contra hlt
      have hle := (Text.length_decimal_le_iff (Nat.succ_pos l)).2 (Nat.lt_of_not_le hlt)
      omega
  have hscale : scale ⟨n, e⟩ = l + e := by
    rw [scale, hl]
    push_cast
    ring
  have hbase : (10 : ℚ) ≠ 0 := by norm_num
  have hunit : (0 : ℚ) < 10 ^ e := by positivity
  rw [hscale, value, add_right_comm, zpow_add₀ hbase, zpow_add₀ hbase]
  constructor
  · refine mul_le_mul_of_nonneg_right ?_ hunit.le
    exact_mod_cast habove
  · refine mul_lt_mul_of_pos_right ?_ hunit
    exact_mod_cast hbelow

theorem scale_lt_iff {d : Decimal} (hd : d.digits ≠ 0) (k : Int) : d.scale < k ↔ d.value < 10 ^ k := by
  obtain ⟨habove, hbelow⟩ := zpow_scale_le_value hd
  have hbase : (1 : ℚ) < 10 := by norm_num
  constructor
  · intro hlt
    exact hbelow.trans_le (zpow_le_zpow_right₀ hbase.le hlt)
  · intro hlt
    exact (zpow_lt_zpow_iff_right₀ hbase).1 (habove.trans_lt hlt)

def powerOfTen (k : Int) : Decimal :=
  ⟨1, k⟩

theorem value_powerOfTen (k : Int) : (powerOfTen k).value = 10 ^ k := by
  simp [powerOfTen, value]

private theorem ten_mul_unitsPerOne_lt {p : Nat} (hp : Binary64.unitsPerOne = 2 ^ p) :
    10 * Binary64.unitsPerOne < 2 ^ (p + 4) := by
  have hpos : 0 < 2 ^ p := Nat.two_pow_pos p
  rw [hp, pow_add]
  omega

theorem isFinite_toBinary64 {s : Bool} {d : Decimal} (h : d.value < 10) : (d.toBinary64 s).isFinite = true := by
  have hden : 0 < 10 ^ (-d.exponent).toNat := Nat.pow_pos (by decide)
  have hunits : d.value * Binary64.unitsPerOne < 10 * Binary64.unitsPerOne :=
    mul_lt_mul_of_pos_right h (Nat.cast_pos.2 Binary64.unitsPerOne_pos)
  rw [value_mul_unitsPerOne, div_lt_iff₀ (Nat.cast_pos.2 hden)] at hunits
  rw [toBinary64_eq_nearest]
  refine Binary64.isFinite_nearest_of_lt (ten_mul_unitsPerOne_lt Binary64.unitsPerOne_eq) (by decide) ?_
  exact_mod_cast hunits

private theorem le_ten_pow_mul_unitsPerOne {a b : Nat} (h : a ≤ 3 * b + 1074) :
    2 ^ a ≤ 10 ^ b * Binary64.unitsPerOne := by
  rw [Binary64.unitsPerOne_eq]
  exact two_pow_le_ten_pow_mul h

private theorem le_div_of_le_value {d : Decimal} {bound k : Nat} (hbound : bound ≤ 10 ^ k * Binary64.unitsPerOne)
    (h : 10 ^ (k : Int) ≤ d.value) :
    bound ≤ d.digits * 10 ^ d.exponent.toNat * Binary64.unitsPerOne / 10 ^ (-d.exponent).toNat := by
  have hden : 0 < 10 ^ (-d.exponent).toNat := Nat.pow_pos (by decide)
  have hunits : 10 ^ (k : Int) * (Binary64.unitsPerOne : ℚ) ≤ d.value * Binary64.unitsPerOne :=
    mul_le_mul_of_nonneg_right h (Nat.cast_nonneg _)
  rw [value_mul_unitsPerOne, le_div_iff₀ (Nat.cast_pos.2 hden), zpow_natCast] at hunits
  refine hbound.trans ((Nat.le_div_iff_mul_le hden).2 ?_)
  exact_mod_cast hunits

theorem natAbs_scale_lt {s : Bool} {d : Decimal} (hd : d.digits ≠ 0) (hfinite : (d.toBinary64 s).isFinite = true)
    (hzero : (d.toBinary64 s).isZero = false) : d.scale.natAbs < 1000 := by
  have hbelow : d.scale < (401 : Nat) := by
    rw [scale_lt_iff hd]
    by_contra hlarge
    have hunits : 2 ^ 2098 ≤ d.digits * 10 ^ d.exponent.toNat * Binary64.unitsPerOne / 10 ^ (-d.exponent).toNat :=
      le_div_of_le_value (le_ten_pow_mul_unitsPerOne (by decide)) (not_lt.1 hlarge)
    rw [toBinary64_eq_nearest, Binary64.nearest_eq_infinite (Nat.le_refl _) hunits] at hfinite
    cases hfinite
  have habove : ¬d.scale < -401 := by
    rw [scale_lt_iff hd, ← value_powerOfTen]
    intro hsmall
    have htiny : (powerOfTen (-401)).toBinary64 s = .zero s := by
      rw [toBinary64, if_pos (.inr (by decide))]
    have hle := magnitude_toBinary64_le hsmall.le hfinite (by rw [htiny]; rfl)
    have hnone : (Binary64.zero s).magnitude = 0 := by simp [Binary64.zero, Binary64.magnitude, Binary64.units]
    rw [htiny, hnone] at hle
    rw [Binary64.isZero_of_magnitude_le_zero hfinite hle] at hzero
    cases hzero
  omega

end Decimal

namespace Binary64

/-- A finite number that is written without an exponent: zero, or in the range of positional notation. -/
def IsPositional (x : Binary64) : Prop :=
  x.isZero = true ∨ 10 ^ Decimal.positionalFrom ≤ x.magnitude ∧ x.magnitude < 10 ^ Decimal.positionalBelow

private theorem magnitude_two_pow (s : Bool) {m k : Nat} (h : Canonical m k) {p : Nat} (hp : unitsPerOne = 2 ^ p) :
    (Binary64.finite s m k h).magnitude = m * 2 ^ ((k : Int) - p) := by
  rw [magnitude, hp, units, Nat.shiftLeft_eq, zpow_sub₀ two_ne_zero, zpow_natCast, zpow_natCast]
  push_cast
  ring

theorem magnitude_finite (s : Bool) {m k : Nat} (h : Canonical m k) :
    (Binary64.finite s m k h).magnitude = m * 2 ^ ((k : Int) - 1074) :=
  magnitude_two_pow s h (p := 1074) unitsPerOne_eq

private theorem shortest_ends :
    ((Decimal.powerOfTen Decimal.positionalFrom).toBinary64 false = .finite false 0x1A36E2EB1C432D 1008 (by decide) ∧
      Decimal.shortest (.finite false 0x1A36E2EB1C432D 1008 (by decide)) (units 0x1A36E2EB1C432D 1008) =
        Decimal.powerOfTen Decimal.positionalFrom) ∧
    ((Decimal.powerOfTen Decimal.positionalBelow).toBinary64 false = .finite false 5000000000000000 1075 (by decide) ∧
      Decimal.shortest (.finite false 5000000000000000 1075 (by decide)) (units 5000000000000000 1075) =
        Decimal.powerOfTen Decimal.positionalBelow) ∧
    Decimal.shortest (zero false) 0 = ⟨0, -1074⟩ := by
  decide +kernel

theorem value_shortest_lt_positionalFrom_iff {m k : Nat} (h : Canonical m k) :
    (Decimal.shortest (.finite false m k h) (units m k)).value < 10 ^ Decimal.positionalFrom ↔
      (Binary64.finite false m k h).magnitude < 10 ^ Decimal.positionalFrom := by
  obtain ⟨⟨hround, hchosen⟩, -⟩ := shortest_ends
  rw [← Decimal.value_powerOfTen]
  refine Decimal.value_shortest_lt_iff hround hchosen ?_ h
  rw [magnitude_finite, Decimal.value_powerOfTen, Decimal.positionalFrom]
  norm_num

theorem value_shortest_lt_positionalBelow_iff {m k : Nat} (h : Canonical m k) :
    (Decimal.shortest (.finite false m k h) (units m k)).value < 10 ^ Decimal.positionalBelow ↔
      (Binary64.finite false m k h).magnitude < 10 ^ Decimal.positionalBelow := by
  obtain ⟨-, ⟨hround, hchosen⟩, -⟩ := shortest_ends
  rw [← Decimal.value_powerOfTen]
  refine Decimal.value_shortest_lt_iff hround hchosen ?_ h
  rw [magnitude_finite, Decimal.value_powerOfTen, Decimal.positionalBelow]
  norm_num

theorem digits_shortest_eq_zero_iff {m k : Nat} (h : Canonical m k) :
    (Decimal.shortest (.finite false m k h) (units m k)).digits = 0 ↔ (Binary64.finite false m k h).isZero = true := by
  constructor
  · intro hzero
    have hread := Decimal.toBinary64_shortest false h
    rw [Decimal.toBinary64, if_pos (.inl hzero)] at hread
    rw [← hread]
    rfl
  · intro hzero
    obtain rfl : m = 0 := by simpa [isZero] using hzero
    obtain rfl : k = 0 := h.2.1.resolve_right (by omega)
    exact congrArg Decimal.digits shortest_ends.2.2

theorem isPositional_shortest_iff {m k : Nat} (h : Canonical m k) :
    (Decimal.shortest (.finite false m k h) (units m k)).IsPositional ↔ (Binary64.finite false m k h).IsPositional := by
  have hzero := digits_shortest_eq_zero_iff h
  by_cases hdigits : (Decimal.shortest (.finite false m k h) (units m k)).digits = 0
  · exact iff_of_true (.inl hdigits) (.inl (hzero.1 hdigits))
  · have hfrom := Decimal.scale_lt_iff hdigits Decimal.positionalFrom
    have hbelow := Decimal.scale_lt_iff hdigits Decimal.positionalBelow
    rw [value_shortest_lt_positionalFrom_iff h] at hfrom
    rw [value_shortest_lt_positionalBelow_iff h] at hbelow
    rw [Decimal.IsPositional, IsPositional, ← hzero, ← hbelow, ← not_lt, ← not_lt, ← hfrom]

end Binary64
end Reckoner
