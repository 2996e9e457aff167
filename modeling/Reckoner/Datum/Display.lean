import Reckoner.Datum.Basic

/-!
# Displayed values

The text of a value in a results file. A text is written as it is when it is the whole value, and quoted when it is part
of one. Half a surrogate pair is escaped between quotes; only outside of them it stays half.
-/
namespace Reckoner.Value

open Text (Piece)

def quotedByte (mark : Char) (b : UInt8) : List Char :=
  let c := Char.ofNat b.toNat
  if c = mark ∨ c = '\\' then ['\\', c]
  else if c = '\n' then ['\\', 'n']
  else if c = '\r' then ['\\', 'r']
  else if c = '\t' then ['\\', 't']
  else if 0x20 ≤ b ∧ b < 0x7F then [c]
  else '\\' :: 'x' :: Text.hexDigits 2 b.toNat

def quotedBytes (bs : List UInt8) : List Char :=
  let mark := Text.quoteMark (bs.map fun b => Char.ofNat b.toNat)
  'b' :: mark :: bs.flatMap (quotedByte mark) ++ [mark]

mutual

/-- The text of a value that is part of another. -/
def shown : Document → List Char
  | .null => "None".toList
  | .bool b => (if b then "True" else "False").toList
  | .number n => n.text
  | .text ps => Text.quotedPieces ps
  | .bytes bs => quotedBytes bs
  | .list items => '[' :: shownItems items ++ [']']
  | .dict entries => '\x7b' :: shownEntries entries ++ ['\x7d']

def shownItems : List Document → List Char
  | [] => []
  | [v] => shown v
  | v :: rest => shown v ++ ", ".toList ++ shownItems rest

def shownEntries : List (List Piece × Document) → List Char
  | [] => []
  | [(k, v)] => Text.quotedPieces k ++ ": ".toList ++ shown v
  | (k, v) :: rest => Text.quotedPieces k ++ ": ".toList ++ shown v ++ ", ".toList ++ shownEntries rest

end

/-- The text of a value that stands by itself. -/
def display : Document → List Piece
  | .text ps => ps
  | v => (shown v).map .char

end Reckoner.Value
