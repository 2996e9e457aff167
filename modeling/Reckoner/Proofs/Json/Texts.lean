import Mathlib.Tactic.Common
import Reckoner.Json.Lexeme
import Reckoner.Json.Writer

/-!
# Texts in documents and back

Every spelling that a writer gives a character, itself, a backslash and a letter, a unit or a pair of units, is read as
that character, whatever follows. Hence a text between quotes is read as the text, in any style.
-/
namespace Reckoner.Json

open Text (Piece isHighSurrogate isLowSurrogate ofSurrogates joinHalves)

/-- What a character is spelled with inside a text: its parts are found in front of whatever follows, and stand for the
character. -/
def IsSpelling (c : Char) (w : List Char) : Prop :=
  ∃ qs, (∀ rest, scanPieces (w ++ rest) = (scanPieces rest).map fun p => (qs ++ p.1, p.2)) ∧
    ∀ ps, joinHalves (qs ++ ps) = .char c :: joinHalves ps

theorem isSpelling_self {c : Char} (hq : c ≠ '\x22') (hb : c ≠ '\\') (hc : 0x20 ≤ c.toNat) :
    IsSpelling c [c] := by
  refine ⟨[.char c], ?_, ?_⟩
  · intro rest
    rw [List.singleton_append, scanPieces]
    · rw [if_neg (by omega)]
      cases scanPieces rest <;> rfl
    · simpa using hq
    · intros
      simp_all
    · intros
      simp_all
  · intro ps
    rfl

theorem isSpelling_escape {c e : Char} (he : escaped? e = some c) : IsSpelling c ['\\', e] := by
  refine ⟨[.char c], ?_, ?_⟩
  · intro rest
    have hu : e ≠ 'u' := by
      rintro rfl
      cases he
    rw [List.cons_append, List.singleton_append, scanPieces]
    · rw [he]
      cases scanPieces rest <;> rfl
    · intros
      simp_all
  · intro ps
    rfl

/-! ### Units -/

private theorem hexDigit?_digitChar : ∀ d < 16, Text.hexDigit? (Nat.digitChar d) = some d := by decide

theorem hexDigits_four {n : Nat} (hn : n < 0x10000) : Text.hexDigits 4 n =
    [Nat.digitChar (n / 4096), Nat.digitChar (n / 256 % 16), Nat.digitChar (n / 16 % 16), Nat.digitChar (n % 16)] := by
  have hzero : Nat.digitChar 0 = '0' := rfl
  have hstep (m : Nat) (hm : 16 ≤ m) : Nat.toDigits 16 m = Nat.toDigits 16 (m / 16) ++ [Nat.digitChar (m % 16)] :=
    Nat.toDigits_of_base_le (by decide) hm
  have hlast (m : Nat) (hm : m < 16) : Nat.toDigits 16 m = [Nat.digitChar m] := Nat.toDigits_of_lt_base hm
  unfold Text.hexDigits
  rcases Nat.lt_or_ge n 16 with h₁ | h₁
  · have e₁ : n / 4096 = 0 := by omega
    have e₂ : n / 256 % 16 = 0 := by omega
    have e₃ : n / 16 % 16 = 0 := by omega
    have e₄ : n % 16 = n := by omega
    rw [hlast n h₁, e₁, e₂, e₃, e₄, hzero]
    rfl
  rcases Nat.lt_or_ge n 256 with h₂ | h₂
  · have e₁ : n / 4096 = 0 := by omega
    have e₂ : n / 256 % 16 = 0 := by omega
    have e₃ : n / 16 % 16 = n / 16 := by omega
    rw [hstep n h₁, hlast (n / 16) (by omega), e₁, e₂, e₃, hzero]
    rfl
  rcases Nat.lt_or_ge n 4096 with h₃ | h₃
  · have e₁ : n / 4096 = 0 := by omega
    have e₂ : n / 256 % 16 = n / 16 / 16 := by omega
    rw [hstep n h₁, hstep (n / 16) (by omega), hlast (n / 16 / 16) (by omega), e₁, e₂, hzero]
    rfl
  · have e₁ : n / 4096 = n / 16 / 16 / 16 := by omega
    have e₂ : n / 256 % 16 = n / 16 / 16 % 16 := by omega
    rw [hstep n h₁, hstep (n / 16) (by omega), hstep (n / 16 / 16) (by omega), hlast (n / 16 / 16 / 16) (by omega), e₁, e₂]
    rfl

theorem scanPieces_unitEscape {n : Nat} (hn : n < 0x10000) (rest : List Char) :
    scanPieces (unitEscape n ++ rest) = (scanPieces rest).map fun p => (.ofUnit n :: p.1, p.2) := by
  have hunit : hexUnit? (Nat.digitChar (n / 4096)) (Nat.digitChar (n / 256 % 16)) (Nat.digitChar (n / 16 % 16))
      (Nat.digitChar (n % 16)) = some n := by
    have hsum : (n / 4096 * 16 + n / 256 % 16) * 256 + (n / 16 % 16 * 16 + n % 16) = n := by omega
    have h₁ := hexDigit?_digitChar (n / 4096) (by omega)
    have h₂ := hexDigit?_digitChar (n / 256 % 16) (by omega)
    have h₃ := hexDigit?_digitChar (n / 16 % 16) (by omega)
    have h₄ := hexDigit?_digitChar (n % 16) (by omega)
    simp [hexUnit?, h₁, h₂, h₃, h₄, hsum]
  rw [unitEscape, hexDigits_four hn]
  simp only [List.cons_append, List.nil_append]
  rw [scanPieces, hunit]
  cases scanPieces rest <;> rfl

theorem isSpelling_unit {c : Char} (hc : c.toNat < 0x10000) :
    IsSpelling c (unitEscape c.toNat) := by
  have hvalid : c.toNat < 0xD800 ∨ (0xDFFF < c.toNat ∧ c.toNat < 0x110000) := c.valid
  have hunit : Piece.ofUnit c.toNat = .char c := by
    have hnot : ¬(isHighSurrogate c.toNat || isLowSurrogate c.toNat) = true := by
      simp only [isHighSurrogate, isLowSurrogate, Bool.or_eq_true, Bool.and_eq_true, decide_eq_true_eq]
      omega
    rw [Piece.ofUnit, if_neg hnot, Char.ofNat_toNat]
  refine ⟨[.char c], ?_, ?_⟩
  · intro rest
    rw [scanPieces_unitEscape hc, hunit]
    rfl
  · intro ps
    rfl

theorem isSpelling_pair {c : Char} (hc : 0x10000 ≤ c.toNat) :
    IsSpelling c
      (unitEscape (0xD800 + (c.toNat - 0x10000) / 0x400) ++ unitEscape (0xDC00 + (c.toNat - 0x10000) % 0x400)) := by
  have hvalid : c.toNat < 0xD800 ∨ (0xDFFF < c.toNat ∧ c.toNat < 0x110000) := c.valid
  have hjoin : ofSurrogates (0xD800 + (c.toNat - 0x10000) / 0x400) (0xDC00 + (c.toNat - 0x10000) % 0x400) = c := by
    have hsum : 0x10000 + (0xD800 + (c.toNat - 0x10000) / 0x400 - 0xD800) * 0x400 +
        (0xDC00 + (c.toNat - 0x10000) % 0x400 - 0xDC00) = c.toNat := by omega
    rw [ofSurrogates, hsum, Char.ofNat_toNat]
  generalize hhigh : 0xD800 + (c.toNat - 0x10000) / 0x400 = high at hjoin ⊢
  generalize hlow : 0xDC00 + (c.toNat - 0x10000) % 0x400 = low at hjoin ⊢
  have hh : isHighSurrogate high = true := by
    simp only [isHighSurrogate, Bool.and_eq_true, decide_eq_true_eq]
    omega
  have hl : isLowSurrogate low = true := by
    simp only [isLowSurrogate, Bool.and_eq_true, decide_eq_true_eq]
    omega
  refine ⟨[.half high, .half low], ?_, ?_⟩
  · intro rest
    rw [List.append_assoc, scanPieces_unitEscape (by omega), scanPieces_unitEscape (by omega)]
    simp only [Piece.ofUnit, hh, hl, Bool.true_or, Bool.or_true, if_true, Option.map_map]
    rfl
  · intro ps
    simp only [List.cons_append, List.nil_append, joinHalves, hh, hl, Bool.and_true, if_true, hjoin]

theorem isSpelling_charEscape (c : Char) : IsSpelling c (charEscape c) := by
  simp only [charEscape]
  split
  · next h => exact isSpelling_unit h
  · next h => exact isSpelling_pair (Nat.le_of_not_lt h)

/-! ### Whole texts -/

theorem writeChar_cases (style : Style) (c : Char) :
    (∃ e, escaped? e = some c ∧ writeChar style c = ['\\', e]) ∨
      (c ≠ '\x22' ∧ c ≠ '\\' ∧ 0x20 ≤ c.toNat ∧ writeChar style c = [c]) ∨
      (¬(0x20 ≤ c.toNat ∧ style.isPlain c = true) ∧ writeChar style c = charEscape c) := by
  unfold writeChar
  split
  · next h =>
    left
    refine ⟨c, ?_, rfl⟩
    rcases h with rfl | rfl <;> rfl
  · next h =>
    obtain ⟨hq, hb⟩ := not_or.1 h
    split
    · next h => exact .inr (.inl ⟨hq, hb, h.1, rfl⟩)
    · next hplain =>
      repeat' split
      all_goals first
        | (next h => exact .inl ⟨_, h ▸ rfl, rfl⟩)
        | exact .inr (.inr ⟨hplain, rfl⟩)

theorem isSpelling_writeChar (style : Style) (c : Char) : IsSpelling c (writeChar style c) := by
  rcases writeChar_cases style c with ⟨e, he, hw⟩ | ⟨hq, hb, hc, hw⟩ | ⟨-, hw⟩
  · rw [hw]
    exact isSpelling_escape he
  · rw [hw]
    exact isSpelling_self hq hb hc
  · rw [hw]
    exact isSpelling_charEscape c

private theorem scanPieces_writeChars (style : Style) (cs rest : List Char) :
    ∃ ps, scanPieces (cs.flatMap (writeChar style) ++ '\x22' :: rest) = some (ps, rest) ∧
      joinHalves ps = cs.map .char := by
  induction cs with
  | nil => exact ⟨[], by simp [scanPieces], rfl⟩
  | cons c cs ih =>
    obtain ⟨ps, hscan, hjoin⟩ := ih
    obtain ⟨qs, hspell, hchar⟩ := isSpelling_writeChar style c
    refine ⟨qs ++ ps, ?_, ?_⟩
    · rw [List.flatMap_cons, List.append_assoc, hspell, hscan]
      rfl
    · rw [hchar, hjoin, List.map_cons]

theorem scanText_writeChars (style : Style) (cs rest : List Char) :
    scanText (cs.flatMap (writeChar style) ++ '\x22' :: rest) = some (cs.map .char, rest) := by
  obtain ⟨ps, hscan, hjoin⟩ := scanPieces_writeChars style cs rest
  rw [scanText, hscan, ← hjoin]
  rfl

theorem scan_writeText (style : Style) (cs rest : List Char) :
    scan (writeText style cs ++ rest) = some (.text (cs.map .char), rest) := by
  have happend : writeText style cs ++ rest = '\x22' :: (cs.flatMap (writeChar style) ++ '\x22' :: rest) := by
    simp [writeText]
  rw [happend, scan, scanText_writeChars]
  rfl

end Reckoner.Json
