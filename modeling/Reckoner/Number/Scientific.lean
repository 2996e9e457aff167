import Reckoner.Number.Basic

/-!
# Scientific notation

Reading a fraction and an exponent off the front of a text, and binary64 numbers from their full decimal notation
with sign, point, exponent and the names of the infinite ones.
-/
namespace Reckoner.Decimal

/-- The digits of a fraction at the front of a text, and what follows; a point needs a digit after it. -/
def scanFraction : List Char → List Char × List Char
  | '.' :: cs =>
    match cs.takeWhile Text.isAsciiDigit with
    | [] => ([], '.' :: cs)
    | ds => (ds, cs.dropWhile Text.isAsciiDigit)
  | cs => ([], cs)

/-- The exponent at the front of a text, and what follows; the letter needs a digit after it, or a sign and a digit. -/
def scanExponent : List Char → Option Int × List Char
  | c :: cs =>
    if c = 'e' ∨ c = 'E' then
      let (negative, rest) := Text.splitSign cs
      match rest.takeWhile Text.isAsciiDigit with
      | [] => (none, c :: cs)
      | ds => (some (Text.signed negative (Text.ofAsciiDigits ds)), rest.dropWhile Text.isAsciiDigit)
    else (none, c :: cs)
  | [] => (none, [])

theorem scanFraction_length_le (cs : List Char) : (scanFraction cs).2.length ≤ cs.length := by
  unfold scanFraction
  split
  · split
    · simp
    · exact Nat.le_succ_of_le (List.dropWhile_sublist _).length_le
  · simp

theorem scanExponent_length_le (cs : List Char) : (scanExponent cs).2.length ≤ cs.length := by
  unfold scanExponent
  split
  · next c cs =>
    split
    · dsimp only
      split
      · simp
      · exact Nat.le_trans (List.dropWhile_sublist _).length_le (Nat.le_succ_of_le (Text.splitSign_length_le cs))
    · simp
  · simp

def ofParts (whole fraction : List Char) (exponent : Int) : Decimal :=
  ⟨Text.ofAsciiDigits (whole ++ fraction), exponent - fraction.length⟩

/-- The decimal written by digits, with a point somewhere if at least one digit is there, and an exponent. -/
def ofScientific? (cs : List Char) : Option Decimal :=
  let whole := cs.takeWhile Text.isAsciiDigit
  let rest := cs.dropWhile Text.isAsciiDigit
  let (fraction, rest) :=
    match rest with
    | '.' :: more => (more.takeWhile Text.isAsciiDigit, more.dropWhile Text.isAsciiDigit)
    | _ => ([], rest)
  let (exponent, rest) := scanExponent rest
  if (whole.isEmpty && fraction.isEmpty) || !rest.isEmpty then none
  else some (ofParts whole fraction (exponent.getD 0))

end Reckoner.Decimal

namespace Reckoner.Binary64

/-- The number that a text writes: a sign if any, then a decimal, `inf`, `infinity` or `nan`; letters of either case. -/
def ofText? (cs : List Char) : Option Binary64 :=
  let (negative, rest) := Text.splitSign cs
  let name := String.ofList (rest.map Char.toLower)
  if name = "inf" ∨ name = "infinity" then some (.infinite negative)
  else if name = "nan" then some .nan
  else (Decimal.ofScientific? rest).map (·.toBinary64 negative)

end Reckoner.Binary64
