import Reckoner.Text.Digit
import Reckoner.Number.Binary64

/-!
# Decimal notation of binary64

A decimal fraction is a whole number of powers of ten. Reading one gives the nearest binary64. Writing a binary64
gives the fewest digits that read back, and of those the nearest to it; the exact decimal expansion, which every
binary64 has, is the last resort of that search.
-/
namespace Reckoner

/-- The decimal fraction `digits · 10^exponent`. -/
structure Decimal where
  digits : Nat
  exponent : Int
  deriving DecidableEq, Repr

namespace Decimal

/-- The decimal of a run of digits in which a point may stand before the last `places` of them. -/
def ofDigits (ds : List Char) (places : Nat) : Decimal :=
  ⟨Text.ofAsciiDigits ds, -(places : Int)⟩

/-- The decimal written by digits with at most one point and at least one digit. -/
def ofFixed? (cs : List Char) : Option Decimal :=
  let whole := cs.takeWhile (· != '.')
  let fraction := (cs.dropWhile (· != '.')).drop 1
  let ds := whole ++ fraction
  if ds.isEmpty || !ds.all Text.isAsciiDigit then none else some (ofDigits ds fraction.length)

/-- The binary64 nearest to a decimal. The first two cases answer without raising ten to a large power. -/
def toBinary64 (negative : Bool) (d : Decimal) : Binary64 :=
  if d.digits = 0 ∨ (d.digits.log2 : Int) + d.exponent < -400 then Binary64.zero negative
  else if 400 < d.exponent then .infinite negative
  else if 0 ≤ d.exponent then .nearest negative (d.digits * Nat.pow 10 d.exponent.toNat * Binary64.unitsPerOne) 1
  else .nearest negative (d.digits * Binary64.unitsPerOne) (Nat.pow 10 (-d.exponent).toNat)

/-- A magnitude in units, `2^-1074` each, as a decimal: it is exact, since a unit is `5^1074 · 10^-1074`. -/
def ofUnits (units : Nat) : Decimal :=
  ⟨units * Nat.pow 5 1074, -1074⟩

/-- The two neighbours of a decimal on the grid without its last `dropped` digits, the nearer one first; of two
equally near, the even one. -/
def neighbours (d : Decimal) (dropped : Nat) : Decimal × Decimal :=
  let grid := Nat.pow 10 dropped
  let below := d.digits / grid
  let rest := 2 * (d.digits % grid)
  let exponent := d.exponent + dropped
  let lower : Decimal := ⟨below, exponent⟩
  let upper : Decimal := ⟨below + 1, exponent⟩
  if grid < rest ∨ (rest = grid ∧ below % 2 = 1) then (upper, lower) else (lower, upper)

/-- The nearest neighbour on that grid that reads back as the number. -/
def readingBack? (x : Binary64) (d : Decimal) (dropped : Nat) : Option Decimal :=
  let (near, far) := neighbours d dropped
  if near.toBinary64 x.isNegative = x then some near
  else if far.toBinary64 x.isNegative = x then some far
  else none

/-- The decimal of fewest digits that reads back as a number of that many units, and nearest to it. -/
def shortest (x : Binary64) (units : Nat) : Decimal :=
  let exact := ofUnits units
  let size := Text.digitCount exact.digits
  ((List.range 17).findSome? fun i => readingBack? x exact (size - (i + 1))).getD exact

/-- Decimal exponents from here on are written positionally, … -/
def positionalFrom : Int := -4

/-- … and below here; all others in scientific notation. -/
def positionalBelow : Int := 16

/-- The sign and the digits of a decimal exponent, two digits at least. -/
def exponentText (e : Int) : List Char :=
  let ds := Text.decimal e.natAbs
  (if e < 0 then '-' else '+') :: (List.replicate (2 - ds.length) '0' ++ ds)

def significant (ds : List Char) : List Char :=
  (ds.reverse.dropWhile (· == '0')).reverse

/-- A decimal in positional notation with a point, or in scientific notation when that is out of the range. Only its
significant digits count. -/
def text (d : Decimal) : List Char :=
  if d.digits = 0 then ['0', '.', '0'] else
  let all := Text.decimal d.digits
  let ds := significant all
  let point : Int := all.length + d.exponent
  let scale := point - 1
  if positionalFrom ≤ scale ∧ scale < positionalBelow then
    if ds.length ≤ point then ds ++ List.replicate (point - ds.length).toNat '0' ++ ['.', '0']
    else if 0 < point then ds.take point.toNat ++ '.' :: ds.drop point.toNat
    else '0' :: '.' :: (List.replicate (-point).toNat '0' ++ ds)
  else
    match ds with
    | [] => []
    | [c] => c :: 'e' :: exponentText scale
    | c :: more => c :: '.' :: more ++ 'e' :: exponentText scale

end Decimal

namespace Binary64

/-- A number in decimal: the fewest digits that read back, a point or an exponent in every finite number. -/
def text : Binary64 → List Char
  | .nan => ['n', 'a', 'n']
  | .infinite s => (if s then ['-'] else []) ++ ['i', 'n', 'f']
  | x@(.finite s m k _) => (if s then ['-'] else []) ++ (Decimal.shortest x (units m k)).text

end Binary64
end Reckoner
