import Reckoner.Text.Digit
import Reckoner.Text.Parts
import Reckoner.Text.Quoted
import Reckoner.Datum.Basic
import Reckoner.Field.Problem

/-!
# Addresses

Internet addresses of both versions: reading their text, their number or their bytes, and the one text that each is
written as.
-/
namespace Reckoner.Net

/-- An address by its number; one of version 6 may name a zone of the machine. -/
inductive Address where
  | v4 (bits : Nat)
  | v6 (bits : Nat) (scope : Option (List Char))
  deriving DecidableEq, Repr

namespace Address

/-- A part between the points of version 4: up to three digits, no zero in front of others, at most 255. -/
def octet? (cs : List Char) : Option Nat :=
  if cs.isEmpty || !cs.all Text.isAsciiDigit || 3 < cs.length || (cs.head? == some '0' && cs != ['0']) then none
  else
    let n := Text.ofAsciiDigits cs
    if n ≤ 255 then some n else none

/-- The number of an address of version 4: four parts. -/
def ofText4? (cs : List Char) : Option Nat :=
  match Text.parts '.' cs with
  | [a, b, c, d] => do
    return Text.ofDigitValues 256 [← octet? a, ← octet? b, ← octet? c, ← octet? d]
  | _ => none

/-- A part between the colons of version 6: one to four hexadecimal digits. -/
def group? (cs : List Char) : Option Nat :=
  if cs.isEmpty || 4 < cs.length then none else (cs.mapM Text.hexDigit?).map (Text.ofDigitValues 16)

/-- The parts between colons, with a last part in the notation of version 4 replaced by its two groups. -/
def expandTail? (parts : List (List Char)) : Option (List (List Char)) :=
  match parts.getLast? with
  | some last =>
    if last.contains '.' then
      (ofText4? last).map fun n =>
        parts.dropLast ++ [Text.hexDigits 0 (n / 0x10000), Text.hexDigits 0 (n % 0x10000)]
    else some parts
  | none => none

/-- The groups on one side of a gap; a lone empty part is the end of the text there. -/
def sideGroups? (parts : List (List Char)) : Option (List Nat) :=
  if parts = [[]] then some [] else parts.mapM group?

/-- The groups of the parts between colons: eight, or fewer around a gap, an empty part that is not at an end. -/
def groups? (parts : List (List Char)) : Option (List Nat) :=
  let inner := (parts.drop 1).dropLast
  match (inner.filter List.isEmpty).length with
  | 0 => if parts.length = 8 then parts.mapM group? else none
  | 1 => do
    let gap := 1 + inner.idxOf []
    let gs ← sideGroups? (parts.take gap)
    let hs ← sideGroups? (parts.drop (gap + 1))
    if gs.length + hs.length < 8 then some (gs ++ List.replicate (8 - gs.length - hs.length) 0 ++ hs) else none
  | _ => none

def ofText6? (cs : List Char) : Option Nat := do
  let parts := Text.parts ':' cs
  if parts.length < 3 then none
  let gs ← groups? (← expandTail? parts)
  return Text.ofDigitValues 0x10000 gs

/-- The address that a text writes. A scope follows a percent sign; it is not empty and holds no other. -/
def ofText? (cs : List Char) : Option Address :=
  match ofText4? cs with
  | some n => some (.v4 n)
  | none =>
    match Text.parts '%' cs with
    | [a] => (ofText6? a).map (.v6 · none)
    | [a, scope] => if scope.isEmpty || scope.contains '/' then none else (ofText6? a).map (.v6 · (some scope))
    | _ => none

def ofInt? (n : Int) : Option Address :=
  if n < 0 then none
  else if n < 0x100000000 then some (.v4 n.toNat)
  else if n < 0x100000000000000000000000000000000 then some (.v6 n.toNat none)
  else none

/-- The address of four or of sixteen bytes, the most significant first. -/
def ofBytes? (bs : List UInt8) : Option Address :=
  let n := Text.ofDigitValues 256 (bs.map UInt8.toNat)
  if bs.length = 4 then some (.v4 n) else if bs.length = 16 then some (.v6 n none) else none

def ofDatum : Datum → Field.Checked Address
  | v =>
    let address? :=
      match v with
      | .text s => ofText? s.toList
      | .number (.int n) => ofInt? n
      | .bool b => ofInt? (if b then 1 else 0)
      | .bytes bs => ofBytes? bs
      | _ => none
    match address? with
    | some a => .ok a
    | none => .fail .ipAnyAddress

/-- The digits of a number in a base, most significant first, as many as asked for. -/
def digitsOf (base : Nat) : Nat → Nat → List Nat
  | 0, _ => []
  | k + 1, n => digitsOf base k (n / base) ++ [n % base]

def leadingZeros (gs : List Nat) : Nat :=
  (gs.takeWhile (· == 0)).length

/-- The place and the length of the longest run of zero groups, the first of several. -/
def longestZeros : List Nat → Nat × Nat
  | [] => (0, 0)
  | g :: gs =>
    let (place, length) := longestZeros gs
    let here := leadingZeros (g :: gs)
    if length ≤ here then (0, here) else (place + 1, length)

def colonText (gs : List Nat) : List Char :=
  [':'].intercalate (gs.map (Text.hexDigits 0))

/-- The text of eight groups; the longest run of at least two zeros is left out. -/
def groupsText (gs : List Nat) : List Char :=
  let (place, length) := longestZeros gs
  if length < 2 then colonText gs
  else colonText (gs.take place) ++ [':', ':'] ++ colonText (gs.drop (place + length))

def text : Address → List Char
  | .v4 n => ['.'].intercalate ((digitsOf 256 4 n).map Text.decimal)
  | .v6 n scope =>
    groupsText (digitsOf 0x10000 8 n) ++
      match scope with
      | none => []
      | some s => '%' :: s

instance : ToString Address := ⟨fun a => String.ofList a.text⟩

end Address
end Reckoner.Net
