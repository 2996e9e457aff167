import Reckoner.Text.Quoted

/-!
# Texts in pieces

A text that is spelled by 16-bit units may hold half a surrogate pair without the other half. Such a text is a row of
pieces, characters and halves. It is a text of characters, with bytes of its own, exactly if no piece is a half.
-/
namespace Reckoner.Text

/-- A piece of a text: a character, or half of one, by its 16-bit unit. -/
inductive Piece where
  | char (c : Char)
  | half (unit : Nat)
  deriving DecidableEq, Repr

/-- Whether a 16-bit unit is the first half of a pair. -/
def isHighSurrogate (n : Nat) : Bool :=
  0xD800 ≤ n && n ≤ 0xDBFF

def isLowSurrogate (n : Nat) : Bool :=
  0xDC00 ≤ n && n ≤ 0xDFFF

/-- The character of a pair of halves. -/
def ofSurrogates (high low : Nat) : Char :=
  Char.ofNat (0x10000 + (high - 0xD800) * 0x400 + (low - 0xDC00))

namespace Piece

def ofUnit (n : Nat) : Piece :=
  if isHighSurrogate n || isLowSurrogate n then .half n else .char (Char.ofNat n)

def char? : Piece → Option Char
  | .char c => some c
  | .half _ => none

def unit? : Piece → Option Nat
  | .char _ => none
  | .half unit => some unit

end Piece

/-- Put the two halves of each pair together. -/
def joinHalves : List Piece → List Piece
  | .half n :: .half m :: ps =>
    if isHighSurrogate n && isLowSurrogate m then .char (ofSurrogates n m) :: joinHalves ps
    else .half n :: joinHalves (.half m :: ps)
  | p :: ps => p :: joinHalves ps
  | [] => []

def pieces (s : String) : List Piece :=
  s.toList.map .char

/-- The text of characters that some pieces are, if none is a half. -/
def ofPieces? (ps : List Piece) : Option String :=
  (ps.mapM Piece.char?).map String.ofList

def quotedPiece (mark : Char) : Piece → List Char
  | .char c => quotedChar mark c
  | .half unit => '\\' :: 'u' :: hexDigits 4 unit

def quotedPieces (ps : List Piece) : List Char :=
  let mark := quoteMark (ps.filterMap Piece.char?)
  mark :: ps.flatMap (quotedPiece mark) ++ [mark]

theorem pieces_append (s t : String) : pieces (s ++ t) = pieces s ++ pieces t := by
  rw [pieces, String.toList_append, List.map_append, pieces, pieces]

theorem pieces_ofList (cs : List Char) : pieces (String.ofList cs) = cs.map .char := by
  rw [pieces, String.toList_ofList]

private theorem mapM_char?_cons (p : Piece) (ps : List Piece) : (p :: ps).mapM Piece.char? =
    p.char?.bind fun c => (ps.mapM Piece.char?).map (c :: ·) := by
  cases p with
  | char c => cases h : ps.mapM Piece.char? <;> simp [Piece.char?, h]
  | half unit => simp [Piece.char?]

theorem ofPieces?_eq_some_iff {ps : List Piece} {s : String} : ofPieces? ps = some s ↔ ps = pieces s := by
  have hmapM (cs : List Char) : ps.mapM Piece.char? = some cs ↔ ps = cs.map .char := by
    induction ps generalizing cs with
    | nil => simp
    | cons p ps ih =>
      rw [mapM_char?_cons]
      cases p <;> cases cs <;> simp [Piece.char?, ih]
      exact And.comm
  simp only [ofPieces?, Option.map_eq_some_iff, hmapM, pieces]
  constructor
  · rintro ⟨cs, rfl, rfl⟩
    rw [String.toList_ofList]
  · rintro rfl
    exact ⟨s.toList, rfl, String.ofList_toList⟩

@[simp] theorem ofPieces?_pieces (s : String) : ofPieces? (pieces s) = some s :=
  ofPieces?_eq_some_iff.2 rfl

/-- Only a half keeps a text from being one of characters. -/
theorem ofPieces?_eq_none_iff {ps : List Piece} : ofPieces? ps = none ↔ ∃ unit, .half unit ∈ ps := by
  have hmapM : ps.mapM Piece.char? = none ↔ ∃ unit, .half unit ∈ ps := by
    induction ps with
    | nil => simp
    | cons p ps ih =>
      rw [mapM_char?_cons]
      cases p <;> simp [Piece.char?, ih]
  rw [ofPieces?, Option.map_eq_none_iff, hmapM]

end Reckoner.Text
