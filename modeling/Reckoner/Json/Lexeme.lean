import Reckoner.Number.Scientific
import Reckoner.Text.Pieces

/-!
# Lexemes of documents

A JSON document is a row of marks, words, numbers and texts, with white space between them. Each step takes one
lexeme off the front of what is left. The three names of numbers that are not finite count as words.
-/
namespace Reckoner.Json

open Text (Piece)

/-- The smallest parts of a document. -/
inductive Lexeme where
  | openDict
  | closeDict
  | openList
  | closeList
  | colon
  | comma
  | text (ps : List Piece)
  /-- A number without point and exponent, by its digits. -/
  | whole (negative : Bool) (digits : List Char)
  /-- A number with point or exponent, by the digits before the point, those after it, and the exponent. -/
  | decimal (negative : Bool) (digits fraction : List Char) (exponent : Int)
  | null
  | bool (b : Bool)
  /-- A number that is not finite, by its name. -/
  | named (x : Binary64)

/-- Whether a lexeme begins a list or a dictionary. -/
def Lexeme.opens : Lexeme → Bool
  | .openDict | .openList => true
  | _ => false

def isSpace (c : Char) : Bool :=
  c == ' ' || c == '\t' || c == '\n' || c == '\r'

def hexUnit? (a b c d : Char) : Option Nat := do
  return ((← Text.hexDigit? a) * 16 + (← Text.hexDigit? b)) * 256 + ((← Text.hexDigit? c) * 16 + (← Text.hexDigit? d))

/-- The character after a backslash stands for this one. -/
def escaped? : Char → Option Char
  | '\x22' => some '\x22'
  | '\\' => some '\\'
  | '/' => some '/'
  | 'b' => some '\x08'
  | 'f' => some '\x0c'
  | 'n' => some '\n'
  | 'r' => some '\r'
  | 't' => some '\t'
  | _ => none

/-- The pieces of a text up to the closing quote, and what follows the quote. -/
def scanPieces : List Char → Option (List Piece × List Char)
  | [] => none
  | '\x22' :: rest => some ([], rest)
  | '\\' :: 'u' :: a :: b :: c :: d :: rest => do
    let n ← hexUnit? a b c d
    let (ps, rest) ← scanPieces rest
    return (.ofUnit n :: ps, rest)
  | '\\' :: c :: rest => do
    let e ← escaped? c
    let (ps, rest) ← scanPieces rest
    return (.char e :: ps, rest)
  | c :: rest =>
    if c.toNat < 0x20 then none
    else do
      let (ps, rest) ← scanPieces rest
      return (.char c :: ps, rest)

/-- The text up to the closing quote, with its pairs of halves put together, and what follows the quote. -/
def scanText (cs : List Char) : Option (List Piece × List Char) :=
  (scanPieces cs).map fun (ps, rest) => (Text.joinHalves ps, rest)

/-- A number whose sign was read: digits without a needless zero in front, a fraction, an exponent. -/
def scanNumber (negative : Bool) (cs : List Char) : Option (Lexeme × List Char) :=
  match cs.takeWhile Text.isAsciiDigit with
  | [] => none
  | '0' :: _ :: _ => none
  | ds =>
    let (fraction, rest) := Decimal.scanFraction (cs.dropWhile Text.isAsciiDigit)
    match Decimal.scanExponent rest with
    | (none, rest) =>
      if fraction.isEmpty then some (.whole negative ds, rest)
      else some (.decimal negative ds fraction 0, rest)
    | (some e, rest) => some (.decimal negative ds fraction e, rest)

def words : List (List Char × Lexeme) :=
  [("null".toList, .null), ("true".toList, .bool true), ("false".toList, .bool false), ("NaN".toList, .named .nan),
    ("Infinity".toList, .named (.infinite false)), ("-Infinity".toList, .named (.infinite true))]

def scanWord (cs : List Char) : Option (Lexeme × List Char) :=
  words.findSome? fun (w, l) => if w.isPrefixOf cs then some (l, cs.drop w.length) else none

/-- The lexeme at the front of a text without white space in front, and what follows. -/
def scan (cs : List Char) : Option (Lexeme × List Char) :=
  match cs with
  | [] => none
  | '\x7b' :: rest => some (.openDict, rest)
  | '\x7d' :: rest => some (.closeDict, rest)
  | '[' :: rest => some (.openList, rest)
  | ']' :: rest => some (.closeList, rest)
  | ':' :: rest => some (.colon, rest)
  | ',' :: rest => some (.comma, rest)
  | '\x22' :: rest => (scanText rest).map fun (t, rest) => (.text t, rest)
  | '-' :: rest => (scanNumber true rest).or (scanWord cs)
  | _ => (scanNumber false cs).or (scanWord cs)

/-! ### Every step takes something -/

theorem scanPieces_length_le {cs rest : List Char} {ps : List Piece} (h : scanPieces cs = some (ps, rest)) :
    rest.length ≤ cs.length := by
  fun_induction scanPieces cs generalizing ps rest with
  | case1 => simp at h
  | case2 r =>
    simp only [Option.some.injEq, Prod.mk.injEq] at h
    obtain ⟨-, rfl⟩ := h
    simp
  | case3 a b c d r ih =>
    simp only [Option.bind_eq_bind, Option.bind_eq_some_iff, Option.pure_def, Option.some.injEq, Prod.mk.injEq] at h
    obtain ⟨n, -, ⟨qs, r'⟩, hr, -, rfl⟩ := h
    have := ih hr
    simp only [List.length_cons]
    omega
  | case4 c r _ ih =>
    simp only [Option.bind_eq_bind, Option.bind_eq_some_iff, Option.pure_def, Option.some.injEq, Prod.mk.injEq] at h
    obtain ⟨n, -, ⟨qs, r'⟩, hr, -, rfl⟩ := h
    have := ih hr
    simp only [List.length_cons]
    omega
  | case5 => simp at h
  | case6 c r _ _ _ _ ih =>
    simp only [Option.bind_eq_bind, Option.bind_eq_some_iff, Option.pure_def, Option.some.injEq, Prod.mk.injEq] at h
    obtain ⟨⟨qs, r'⟩, hr, -, rfl⟩ := h
    have := ih hr
    simp only [List.length_cons]
    omega

theorem scanText_length_le {cs rest : List Char} {ps : List Piece} (h : scanText cs = some (ps, rest)) :
    rest.length ≤ cs.length := by
  obtain ⟨⟨qs, r⟩, hr, heq⟩ := Option.map_eq_some_iff.1 h
  cases heq
  exact scanPieces_length_le hr

private theorem length_dropWhile_lt_of_takeWhile (p : Char → Bool) {cs ds : List Char} {d : Char}
    (h : cs.takeWhile p = d :: ds) : (cs.dropWhile p).length < cs.length := by
  have hl : (cs.takeWhile p ++ cs.dropWhile p).length = cs.length := by rw [List.takeWhile_append_dropWhile]
  rw [h, List.length_append, List.length_cons] at hl
  omega

theorem scanNumber_length_lt {negative : Bool} {cs rest : List Char} {l : Lexeme}
    (h : scanNumber negative cs = some (l, rest)) : rest.length < cs.length := by
  unfold scanNumber at h
  split at h
  · simp at h
  · simp at h
  · next ds hne _ =>
    match hds : List.takeWhile Text.isAsciiDigit cs with
    | [] => exact absurd hds hne
    | d :: more =>
      have h1 := length_dropWhile_lt_of_takeWhile _ hds
      have h2 := Decimal.scanFraction_length_le (cs.dropWhile Text.isAsciiDigit)
      have h3 := Decimal.scanExponent_length_le (Decimal.scanFraction (cs.dropWhile Text.isAsciiDigit)).2
      dsimp only at h
      split at h
      · next r hr =>
        rw [hr] at h3
        split at h <;> simp only [Option.some.injEq, Prod.mk.injEq] at h <;> obtain ⟨-, rfl⟩ := h <;>
          simp only at h3 <;> omega
      · next e r hr =>
        rw [hr] at h3
        simp only [Option.some.injEq, Prod.mk.injEq] at h
        obtain ⟨-, rfl⟩ := h
        simp only at h3
        omega

theorem scanWord_length_lt {cs rest : List Char} {l : Lexeme} (h : scanWord cs = some (l, rest)) :
    rest.length < cs.length := by
  obtain ⟨⟨w, l⟩, hw, hm⟩ := List.exists_of_findSome?_eq_some h
  dsimp only at hm
  split at hm
  · next hp =>
    simp only [Option.some.injEq, Prod.mk.injEq] at hm
    obtain ⟨-, rfl⟩ := hm
    have hle := (List.isPrefixOf_iff_prefix.1 hp).length_le
    have hpos : 0 < w.length := by
      have : ∀ p ∈ words, 0 < p.1.length := by decide
      exact this _ hw
    rw [List.length_drop]
    omega
  · simp at hm

theorem scan_length_lt {cs rest : List Char} {l : Lexeme} (h : scan cs = some (l, rest)) :
    rest.length < cs.length := by
  unfold scan at h
  split at h
  · simp at h
  all_goals
    first
      | (simp only [Option.some.injEq, Prod.mk.injEq] at h; obtain ⟨-, rfl⟩ := h; simp)
      | skip
  · simp only [Option.map_eq_some_iff, Prod.mk.injEq] at h
    obtain ⟨⟨t, r⟩, hr, -, rfl⟩ := h
    exact Nat.lt_succ_of_le (scanText_length_le hr)
  · rw [Option.or_eq_some_iff] at h
    rcases h with h | ⟨-, h⟩
    · exact Nat.lt_succ_of_lt (scanNumber_length_lt h)
    · exact scanWord_length_lt h
  · rw [Option.or_eq_some_iff] at h
    rcases h with h | ⟨-, h⟩
    · exact scanNumber_length_lt h
    · exact scanWord_length_lt h

end Reckoner.Json
