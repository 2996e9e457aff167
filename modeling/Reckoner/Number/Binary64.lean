/-!
# Binary64

The floating-point numbers of 64 bits as mathematics: sign, mantissa and shift of the finite ones, in units of
`2^-1074`. Every operation takes the exact result, a fraction of units, and rounds it to the nearest number, ties to
the even mantissa. `Canonical` makes the finite representation unique, so that equality is equality.
-/
namespace Reckoner

/-- The mantissas and shifts of binary64: below `2^53`, from `2^52` on when shifted, and the largest shift. -/
def Canonical (mantissa shift : Nat) : Prop :=
  mantissa < 0x20000000000000 ∧ (shift = 0 ∨ 0x10000000000000 ≤ mantissa) ∧ shift ≤ 2045

instance (mantissa shift : Nat) : Decidable (Canonical mantissa shift) :=
  inferInstanceAs (Decidable (_ ∧ _ ∧ _))

/-- A binary64 number. A finite one has the value `± mantissa · 2^shift · 2^-1074`; zero has both signs. -/
inductive Binary64 where
  | finite (negative : Bool) (mantissa shift : Nat) (canonical : Canonical mantissa shift)
  | infinite (negative : Bool)
  | nan
  deriving DecidableEq

namespace Binary64

/-- How many units make one: `2^1074`. -/
def unitsPerOne : Nat := 1 <<< 1074

def zero (negative : Bool) : Binary64 :=
  .finite negative 0 0 (by decide)

instance : Inhabited Binary64 := ⟨zero false⟩

/-- The nearest integer to `num / den`; a tie goes to the even one. -/
def divNearest (num den : Nat) : Nat :=
  let q := num / den
  let twice := 2 * (num % den)
  if den < twice ∨ (twice = den ∧ q % 2 = 1) then q + 1 else q

/-- The shift of a number of that many units: as many bits as it has beyond 53. -/
def shiftOf (units : Nat) : Nat :=
  units.log2 - 52

private theorem shiftRight_shiftOf_lt (units : Nat) : units >>> shiftOf units < 0x20000000000000 := by
  rw [Nat.shiftRight_eq_div_pow, Nat.div_lt_iff_lt_mul (Nat.two_pow_pos _), ← Nat.pow_add 2 53]
  exact Nat.lt_of_lt_of_le Nat.lt_log2_self (Nat.pow_le_pow_right (by decide) (by unfold shiftOf; omega))

private theorem le_shiftRight_shiftOf {units : Nat} (h : shiftOf units ≠ 0) :
    0x10000000000000 ≤ units >>> shiftOf units := by
  rw [Nat.shiftRight_eq_div_pow, Nat.le_div_iff_mul_le (Nat.two_pow_pos _), ← Nat.pow_add 2 52]
  have hlog : 52 + shiftOf units = units.log2 := by unfold shiftOf at h ⊢; omega
  rw [hlog]
  apply Nat.log2_self_le
  rintro rfl
  simp [shiftOf] at h

theorem le_divNearest (num den : Nat) : num / den ≤ divNearest num den := by
  simp only [divNearest]; split <;> omega

theorem divNearest_le (num den : Nat) : divNearest num den ≤ num / den + 1 := by
  simp only [divNearest]; split <;> omega

private theorem shiftRight_div (num den shift : Nat) : (num / den) >>> shift = num / (den <<< shift) := by
  rw [Nat.shiftRight_eq_div_pow, Nat.shiftLeft_eq, Nat.div_div_eq_div_mul]

theorem shiftOf_eq_zero_or_le (num den : Nat) :
    shiftOf (num / den) = 0 ∨ 0x10000000000000 ≤ divNearest num (den <<< shiftOf (num / den)) := by
  by_cases h : shiftOf (num / den) = 0
  · exact .inl h
  · refine .inr (Nat.le_trans (le_shiftRight_shiftOf h) ?_)
    rw [shiftRight_div]
    exact le_divNearest _ _

/-- The number nearest to `num / den` units, ties to the even mantissa; infinite beyond the largest one. -/
def nearest (negative : Bool) (num den : Nat) : Binary64 :=
  let shift := shiftOf (num / den)
  let mantissa := divNearest num (den <<< shift)
  if hs : shift ≤ 2045 then
    if hm : mantissa < 0x20000000000000 then
      .finite negative mantissa shift ⟨hm, shiftOf_eq_zero_or_le num den, hs⟩
    else if h : shift + 1 ≤ 2045 then
      .finite negative 0x10000000000000 (shift + 1) ⟨by decide, .inr (Nat.le_refl _), h⟩
    else .infinite negative
  else .infinite negative

/-- When the mantissa does not fit, it is the next power of two, so nothing is lost in `nearest`. -/
theorem divNearest_shiftOf_le (num den : Nat) :
    divNearest num (den <<< shiftOf (num / den)) ≤ 0x20000000000000 := by
  have h := divNearest_le num (den <<< shiftOf (num / den))
  have hlt := shiftRight_shiftOf_lt (num / den)
  rw [shiftRight_div] at hlt
  omega

/-- Whether the sign is minus; a number that is not one has no sign. -/
def isNegative : Binary64 → Bool
  | .finite neg _ _ _ => neg
  | .infinite neg => neg
  | .nan => false

def isFinite : Binary64 → Bool
  | .finite .. => true
  | _ => false

def isInfinite : Binary64 → Bool
  | .infinite _ => true
  | _ => false

def isZero : Binary64 → Bool
  | .finite _ m _ _ => m == 0
  | _ => false

def units (mantissa shift : Nat) : Nat :=
  mantissa <<< shift

def signedUnits (negative : Bool) (mantissa shift : Nat) : Int :=
  if negative then -(units mantissa shift : Int) else units mantissa shift

/-- The number nearest to a whole number, infinite beyond the largest one. -/
def ofInt (n : Int) : Binary64 :=
  nearest (decide (n < 0)) (n.natAbs * unitsPerOne) 1

/-- The number nearest to the quotient of two whole numbers, the second not zero. -/
def ofQuotient (a b : Int) : Binary64 :=
  nearest (decide (a < 0) != decide (b < 0)) (a.natAbs * unitsPerOne) b.natAbs

def neg : Binary64 → Binary64
  | .finite s m k h => .finite (!s) m k h
  | .infinite s => .infinite (!s)
  | .nan => .nan

/-- The rounded sum. A zero sum is minus zero only if both numbers are negative. -/
def add : Binary64 → Binary64 → Binary64
  | .nan, _ | _, .nan => .nan
  | .infinite s, .infinite t => if s = t then .infinite s else .nan
  | .infinite s, .finite .. | .finite .., .infinite s => .infinite s
  | .finite s m k _, .finite t n l _ =>
    let sum := signedUnits s m k + signedUnits t n l
    if sum = 0 then zero (s && t) else nearest (decide (sum < 0)) sum.natAbs 1

def sub (x y : Binary64) : Binary64 :=
  add x (neg y)

def mul : Binary64 → Binary64 → Binary64
  | .nan, _ | _, .nan => .nan
  | .infinite s, .infinite t => .infinite (s != t)
  | .infinite s, .finite t n _ _ | .finite t n _ _, .infinite s => if n = 0 then .nan else .infinite (s != t)
  | .finite s m k _, .finite t n l _ => nearest (s != t) (units m k * units n l) unitsPerOne

/-- The rounded quotient. A zero divisor gives an infinity, or no number. -/
def div : Binary64 → Binary64 → Binary64
  | .nan, _ | _, .nan => .nan
  | .infinite _, .infinite _ => .nan
  | .infinite s, .finite t _ _ _ => .infinite (s != t)
  | .finite s _ _ _, .infinite t => zero (s != t)
  | .finite s m k _, .finite t n l _ =>
    if n = 0 then (if m = 0 then .nan else .infinite (s != t))
    else nearest (s != t) (units m k * unitsPerOne) (units n l)

def toInt? : Binary64 → Option Int
  | .finite s m k _ =>
    if units m k % unitsPerOne = 0 then
      let n : Int := (units m k / unitsPerOne : Nat)
      some (if s then -n else n)
    else none
  | _ => none

/-- How many whole numbers from zero on are below the number, unless all are. -/
def countBelow? : Binary64 → Option Nat
  | .finite s m k _ => some (if s then 0 else (units m k + unitsPerOne - 1) / unitsPerOne)
  | .infinite s => if s then some 0 else none
  | .nan => some 0

end Binary64
end Reckoner
