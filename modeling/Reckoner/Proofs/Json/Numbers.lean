import Mathlib
import Reckoner.Json.Reader
import Reckoner.Json.Writer
import Reckoner.Proofs.Number.Bounds
import Reckoner.Proofs.Number.Notation

/-!
# Numbers in documents and back

A finite number is written without anything that its reader could take for an end or go beyond, so that it is read as
the same number, whole or not, in front of whatever ends a number.
-/
namespace Reckoner

namespace Decimal

private theorem takeWhile_digits {ds rest : List Char} (hds : ∀ c ∈ ds, Text.isAsciiDigit c = true)
    (hrest : ∀ c ∈ rest.head?, Text.isAsciiDigit c = false) :
    (ds ++ rest).takeWhile Text.isAsciiDigit = ds ∧ (ds ++ rest).dropWhile Text.isAsciiDigit = rest := by
  rw [List.takeWhile_append_of_pos hds, List.dropWhile_append_of_pos hds]
  cases rest with
  | nil => simp
  | cons c rest => simp [hrest c rfl]

/-- What may follow a number: nothing that continues it. -/
def EndsNumber (rest : List Char) : Prop :=
  ∀ c ∈ rest.head?, Text.isAsciiDigit c = false ∧ c ≠ '.' ∧ c ≠ 'e' ∧ c ≠ 'E'

theorem scanExponent_exponentPart (exponent : Option Int) {rest : List Char} (hrest : EndsNumber rest) :
    scanExponent (exponentPart exponent ++ rest) = (exponent, rest) := by
  cases exponent with
  | none =>
    cases rest with
    | nil => rfl
    | cons c rest =>
      obtain ⟨-, -, he, hE⟩ := hrest c rfl
      have hnot : ¬(c = 'e' ∨ c = 'E') := by simp [he, hE]
      rw [exponentPart, List.nil_append, scanExponent, if_neg hnot]
  | some e =>
    have hstop : ∀ c ∈ rest.head?, Text.isAsciiDigit c = false := fun c hc => (hrest c hc).1
    generalize hzeros : List.replicate (2 - (Text.decimal e.natAbs).length) '0' = zeros
    have hdigits : ∀ c ∈ zeros ++ Text.decimal e.natAbs, Text.isAsciiDigit c = true := by
      intro c hc
      rcases List.mem_append.1 hc with hc | hc
      · rw [← hzeros] at hc
        rw [List.eq_of_mem_replicate hc]
        decide
      · exact Text.isAsciiDigit_of_mem_decimal hc
    have hvalue : Text.ofAsciiDigits (zeros ++ Text.decimal e.natAbs) = e.natAbs := by
      rw [← hzeros, Text.ofAsciiDigits_zeros_append, Text.ofAsciiDigits_decimal]
    obtain ⟨htake, hdrop⟩ := takeWhile_digits hdigits hstop
    have hne : zeros ++ Text.decimal e.natAbs ≠ [] := by simp [Text.decimal_ne_nil]
    obtain ⟨d, ds, hds⟩ := List.exists_cons_of_ne_nil hne
    have hsplit : Text.splitSign (exponentText e ++ rest) =
        (decide (e < 0), zeros ++ Text.decimal e.natAbs ++ rest) := by
      simp only [exponentText, hzeros]
      by_cases he : e < 0 <;> simp [he, Text.splitSign]
    rw [exponentPart, List.cons_append, scanExponent, if_pos (.inl rfl), hsplit]
    dsimp only
    rw [htake, hdrop, hds]
    dsimp only
    rw [← hds, hvalue, Text.signed_natAbs]

theorem scanFraction_fractionPart {fraction : List Char} (hfraction : ∀ c ∈ fraction, Text.isAsciiDigit c = true)
    {rest : List Char} (hrest : ∀ c ∈ rest.head?, Text.isAsciiDigit c = false ∧ c ≠ '.') :
    scanFraction (fractionPart fraction ++ rest) = (fraction, rest) := by
  cases fraction with
  | nil =>
    cases rest with
    | nil => rfl
    | cons c rest =>
      have hc := (hrest c rfl).2
      rw [fractionPart, List.nil_append, scanFraction]
      simpa using hc
  | cons d ds =>
    obtain ⟨htake, hdrop⟩ := takeWhile_digits hfraction fun c hc => (hrest c hc).1
    rw [fractionPart, List.cons_append, scanFraction, htake, hdrop]
    simp

end Decimal

namespace Json

open Decimal

private theorem endsNumber_exponentPart (exponent : Option Int) {rest : List Char} (hrest : EndsNumber rest) :
    ∀ c ∈ (exponentPart exponent ++ rest).head?, Text.isAsciiDigit c = false ∧ c ≠ '.' := by
  intro c hc
  cases exponent with
  | none => exact ⟨(hrest c hc).1, (hrest c hc).2.1⟩
  | some e =>
    cases hc
    decide

private theorem endsNumber_fractionPart (fraction : List Char) {rest : List Char}
    (hrest : ∀ c ∈ rest.head?, Text.isAsciiDigit c = false ∧ c ≠ '.') :
    ∀ c ∈ (fractionPart fraction ++ rest).head?, Text.isAsciiDigit c = false := by
  intro c hc
  cases fraction with
  | nil => exact (hrest c hc).1
  | cons d ds =>
    cases hc
    decide

private theorem scanNumber_of_isWhole {whole : List Char} (hwhole : IsWhole whole) {rest : List Char}
    (hrest : ∀ c ∈ rest.head?, Text.isAsciiDigit c = false) (negative : Bool) :
    scanNumber negative (whole ++ rest) =
      match scanExponent (scanFraction rest).2 with
      | (none, tail) =>
        if (scanFraction rest).1.isEmpty then some (.whole negative whole, tail)
        else some (.decimal negative whole (scanFraction rest).1 0, tail)
      | (some e, tail) => some (.decimal negative whole (scanFraction rest).1 e, tail) := by
  obtain ⟨hdigits, c, cs, rfl, hzero⟩ := hwhole
  obtain ⟨htake, hdrop⟩ := takeWhile_digits hdigits hrest
  unfold scanNumber
  rw [htake, hdrop]
  split
  · next h => cases h
  · next h =>
    cases h
    cases hzero rfl
  · rfl

theorem scanNumber_whole {whole : List Char} (hwhole : IsWhole whole) {rest : List Char} (hrest : EndsNumber rest)
    (negative : Bool) : scanNumber negative (whole ++ rest) = some (.whole negative whole, rest) := by
  have hfraction : scanFraction rest = ([], rest) :=
    scanFraction_fractionPart (List.forall_mem_nil _) fun c hc => ⟨(hrest c hc).1, (hrest c hc).2.1⟩
  have hexponent : scanExponent rest = (none, rest) := scanExponent_exponentPart none hrest
  rw [scanNumber_of_isWhole hwhole fun c hc => (hrest c hc).1, hfraction]
  simp only [hexponent, List.isEmpty_nil, if_true]

theorem scanNumber_notation {cs whole fraction : List Char} {exponent : Option Int}
    (h : IsNotation cs whole fraction exponent) {rest : List Char} (hrest : EndsNumber rest) (negative : Bool) :
    scanNumber negative (cs ++ rest) = some (.decimal negative whole fraction (exponent.getD 0), rest) := by
  have hstop := endsNumber_exponentPart exponent hrest
  have hfraction := scanFraction_fractionPart h.digits hstop
  have hexponent := scanExponent_exponentPart exponent hrest
  rw [h.eq_append, List.append_assoc, List.append_assoc,
    scanNumber_of_isWhole h.isWhole (endsNumber_fractionPart fraction hstop), hfraction]
  simp only [hexponent]
  cases exponent with
  | none =>
    have hne : fraction ≠ [] := h.inexact.resolve_right fun hn => hn rfl
    have hempty : fraction.isEmpty = false := by simpa using hne
    simp [hempty]
  | some e => rfl

private theorem scan_number {cs rest : List Char} {c : Char} (hc : Text.isAsciiDigit c = true)
    {l : Lexeme} {negative : Bool} (h : scanNumber negative (c :: cs) = some (l, rest)) :
    scan ((if negative then ['-'] else []) ++ c :: cs) = some (l, rest) := by
  cases negative with
  | true =>
    change scan ('-' :: c :: cs) = _
    rw [scan, h]
    rfl
  | false =>
    change scan (c :: cs) = _
    have hne (d : Char) (hd : Text.isAsciiDigit d = false) : c ≠ d := by
      rintro rfl
      rw [hc] at hd
      cases hd
    unfold scan
    split
    · next heq => cases heq
    -- The marks, the quote and the sign are no digits.
    all_goals first
      | (next heq => cases heq; exact absurd rfl (hne _ (by decide)))
      | (rw [h]; rfl)

/-! ### Numbers of expressions -/

private theorem isWhole_decimal (n : Nat) : IsWhole (Text.decimal n) := by
  refine ⟨fun c hc => Text.isAsciiDigit_of_mem_decimal hc, ?_⟩
  by_cases hn : n = 0
  · subst hn
    exact ⟨'0', [], rfl, fun _ => rfl⟩
  · obtain ⟨c, cs, hcs, hc⟩ := Text.decimal_eq_cons hn
    exact ⟨c, cs, hcs, fun h => absurd h hc⟩

private theorem writeNumber_int (k : Int) :
    writeNumber (.int k) = (if decide (k < 0) then ['-'] else []) ++ Text.decimal k.natAbs := by
  change Text.decimalInt k = _
  by_cases hk : k < 0 <;> simp [Text.decimalInt, hk]

private theorem writeNumber_finite (s : Bool) {m k : Nat} (h : Canonical m k) : writeNumber (.double (.finite s m k h)) =
    (if s then ['-'] else []) ++ (shortest (.finite s m k h) (Binary64.units m k)).text :=
  rfl

private theorem readDigits_decimal {k : Int} (hk : (Number.int k).Bounded) :
    DigitLimit.readDigits (Text.decimal k.natAbs) = .ok k.natAbs := by
  have hlen : (Text.decimal k.natAbs).length ≤ Operator.maxDigits := (Text.length_decimal_le_iff (by decide)).2 hk
  have hlimit : Operator.maxDigits ≤ DigitLimit.maxDigits := by decide
  rw [DigitLimit.readDigits, if_neg (by omega), Text.ofAsciiDigits_decimal]

theorem scan_writeNumber {n : Number} (hn : n.Bounded) {rest : List Char}
    (hrest : EndsNumber rest) : ∃ l, scan (writeNumber n ++ rest) = some (l, rest) ∧
      ∀ {τ : Type} (dialect : Dialect τ), dialect.limitsDecimals = false → atom dialect l = .ok (.number n) := by
  cases n with
  | int k =>
    have hwhole := isWhole_decimal k.natAbs
    have hscan := scanNumber_whole hwhole hrest (decide (k < 0))
    obtain ⟨hdigits, c, cs, hcs, -⟩ := id hwhole
    refine ⟨.whole (decide (k < 0)) (Text.decimal k.natAbs), ?_, ?_⟩
    · rw [writeNumber_int, List.append_assoc, hcs, List.cons_append]
      rw [hcs, List.cons_append] at hscan
      exact scan_number (hdigits c (hcs ▸ List.mem_cons_self)) hscan
    · intro τ dialect _
      rw [atom, readDigits_decimal hn]
      dsimp only
      rw [Text.signed_natAbs, Value.ofInt]
  | double x =>
    cases x with
    | nan => cases hn
    | infinite s => cases hn
    | finite s m k h =>
      obtain ⟨whole, fraction, exponent, hform, hround⟩ :=
        exists_isNotation_text (shortest (.finite s m k h) (Binary64.units m k))
      have hscan := scanNumber_notation hform hrest s
      refine ⟨.decimal s whole fraction (exponent.getD 0), ?_, ?_⟩
      · obtain ⟨hdigits, c, cs, hcs, -⟩ := hform.isWhole
        have hc : Text.isAsciiDigit c = true := hdigits c (hcs ▸ List.mem_cons_self)
        rw [writeNumber_finite, List.append_assoc]
        rw [hform.eq_append, hcs, List.cons_append, List.cons_append] at hscan ⊢
        exact scan_number hc hscan
      · intro τ dialect hd
        rw [atom, hd, Bool.false_and, if_neg (by simp), hround, toBinary64_shortest s h]

def isNumberChar (c : Char) : Bool :=
  Text.isAsciiDigit c || c == '-' || c == '+' || c == '.' || c == 'e'

private theorem isNumberChar_of_isAsciiDigit {c : Char} (hc : Text.isAsciiDigit c = true) : isNumberChar c = true := by
  simp [isNumberChar, hc]

private theorem isNumberChar_of_mem_sign {negative : Bool} {c : Char} (hc : c ∈ if negative then ['-'] else []) :
    isNumberChar c = true := by
  cases negative with
  | true =>
    rw [List.mem_singleton.1 hc]
    decide
  | false => cases hc

private theorem isNumberChar_of_isNotation {cs whole fraction : List Char} {exponent : Option Int}
    (h : IsNotation cs whole fraction exponent) {c : Char} (hc : c ∈ cs) : isNumberChar c = true := by
  rw [h.eq_append, List.mem_append, List.mem_append] at hc
  rcases hc with hc | hc | hc
  · exact isNumberChar_of_isAsciiDigit (h.isWhole.1 c hc)
  · cases fraction with
    | nil => cases hc
    | cons d ds =>
      rcases List.mem_cons.1 hc with rfl | hc
      · decide
      · exact isNumberChar_of_isAsciiDigit (h.digits c hc)
  · cases exponent with
    | none => cases hc
    | some e =>
      rcases List.mem_cons.1 hc with rfl | hc
      · decide
      · rcases List.mem_cons.1 hc with rfl | hc
        · split <;> decide
        · rcases List.mem_append.1 hc with hc | hc
          · rw [List.eq_of_mem_replicate hc]
            decide
          · exact isNumberChar_of_isAsciiDigit (Text.isAsciiDigit_of_mem_decimal hc)

theorem isNumberChar_of_mem_writeNumber {n : Number} (hn : n.Bounded) {c : Char} (hc : c ∈ writeNumber n) :
    isNumberChar c = true := by
  cases n with
  | int k =>
    rw [writeNumber_int] at hc
    rcases List.mem_append.1 hc with hc | hc
    · exact isNumberChar_of_mem_sign hc
    · exact isNumberChar_of_isAsciiDigit (Text.isAsciiDigit_of_mem_decimal hc)
  | double x =>
    cases x with
    | nan => cases hn
    | infinite s => cases hn
    | finite s m k h =>
      obtain ⟨whole, fraction, exponent, hform, -⟩ :=
        exists_isNotation_text (shortest (.finite s m k h) (Binary64.units m k))
      rw [writeNumber_finite] at hc
      rcases List.mem_append.1 hc with hc | hc
      · exact isNumberChar_of_mem_sign hc
      · exact isNumberChar_of_isNotation hform hc

end Json
end Reckoner
