import Mathlib
import Reckoner.Number.Scientific
import Reckoner.Proofs.Number.Decimals
import Reckoner.Proofs.Text.Digits

/-!
# The notation of decimals

A decimal is written as digits, a fraction and an exponent, each of the last two only if needed, and the decimal of these
parts rounds as the decimal itself does. So a finite number in decimal notation, read part by part, is the number.
-/
namespace Reckoner

namespace Text

theorem decimal_eq_cons {n : Nat} (hn : n ≠ 0) : ∃ c cs, decimal n = c :: cs ∧ c ≠ '0' := by
  obtain ⟨c, cs, hcs⟩ := List.exists_cons_of_ne_nil (decimal_ne_nil n)
  refine ⟨c, cs, hcs, ?_⟩
  rintro rfl
  have hvalue : ofAsciiDigits cs = n := by
    have h := ofAsciiDigits_decimal n
    rw [hcs] at h
    simpa [ofAsciiDigits_cons] using h
  have hdigits : ∀ c ∈ cs, isAsciiDigit c = true := by
    intro c hc
    exact isAsciiDigit_of_mem_decimal (hcs ▸ List.mem_cons_of_mem _ hc)
  have hlt := ofAsciiDigits_lt hdigits
  rw [hvalue] at hlt
  cases cs with
  | nil =>
    rw [List.length_nil, pow_zero] at hlt
    omega
  | cons d cs =>
    have hle := (length_decimal_le_iff (k := (d :: cs).length) (by simp)).2 hlt
    rw [hcs, List.length_cons] at hle
    omega

end Text

namespace Decimal

theorem eq_significant_append (ds : List Char) : ∃ j, ds = significant ds ++ List.replicate j '0' := by
  refine ⟨(ds.reverse.takeWhile (· == '0')).length, ?_⟩
  have hzeros : ds.reverse.takeWhile (· == '0') = List.replicate (ds.reverse.takeWhile (· == '0')).length '0' := by
    apply List.eq_replicate_of_mem
    intro c hc
    simpa using List.mem_takeWhile_imp hc
  have hsplit : ds.reverse.takeWhile (· == '0') ++ ds.reverse.dropWhile (· == '0') = ds.reverse :=
    List.takeWhile_append_dropWhile
  have hreverse := congrArg List.reverse hsplit
  rw [List.reverse_append, List.reverse_reverse] at hreverse
  rw [significant, ← List.reverse_replicate, ← hzeros, hreverse]

theorem decimal_eq_significant {n : Nat} (hn : n ≠ 0) :
    ∃ c cs j, significant (Text.decimal n) = c :: cs ∧ c ≠ '0' ∧ (∀ d ∈ c :: cs, Text.isAsciiDigit d = true) ∧
      (Text.decimal n).length = (c :: cs).length + j ∧ n = Text.ofAsciiDigits (c :: cs) * 10 ^ j := by
  obtain ⟨j, hj⟩ := eq_significant_append (Text.decimal n)
  obtain ⟨c, all, hall, hc⟩ := Text.decimal_eq_cons hn
  have hvalue := Text.ofAsciiDigits_decimal n
  cases hds : significant (Text.decimal n) with
  | nil =>
    rw [hds, List.nil_append, hall] at hj
    have hmem : c ∈ List.replicate j '0' := hj ▸ List.mem_cons_self
    exact absurd (List.eq_of_mem_replicate hmem) hc
  | cons d cs =>
    rw [hds] at hj
    have hd : d = c := by
      rw [hall] at hj
      exact (List.cons.inj hj).1.symm
    refine ⟨d, cs, j, rfl, hd ▸ hc, ?_, ?_, ?_⟩
    · intro e he
      apply Text.isAsciiDigit_of_mem_decimal (n := n)
      rw [hj]
      exact List.mem_append_left _ he
    · rw [hj, List.length_append, List.length_replicate]
    · rw [hj, Text.ofAsciiDigits_append_zeros] at hvalue
      exact hvalue.symm

def exponentPart : Option Int → List Char
  | none => []
  | some e => 'e' :: exponentText e

def fractionPart : List Char → List Char
  | [] => []
  | ds => '.' :: ds

/-- Digits without a needless zero in front. -/
def IsWhole (ds : List Char) : Prop :=
  (∀ c ∈ ds, Text.isAsciiDigit c = true) ∧ ∃ c cs, ds = c :: cs ∧ (c = '0' → cs = [])

private theorem isAsciiDigit_of_mem_zero {c : Char} (hc : c ∈ ['0']) : Text.isAsciiDigit c = true := by
  rw [List.mem_singleton.1 hc]
  decide

private theorem isWhole_zero : IsWhole ['0'] :=
  ⟨fun _ => isAsciiDigit_of_mem_zero, '0', [], rfl, fun _ => rfl⟩

/-- What a notation consists of: at least a fraction or an exponent stands behind the digits. -/
structure IsNotation (cs whole fraction : List Char) (exponent : Option Int) : Prop where
  eq_append : cs = whole ++ (fractionPart fraction ++ exponentPart exponent)
  isWhole : IsWhole whole
  digits : ∀ c ∈ fraction, Text.isAsciiDigit c = true
  inexact : fraction ≠ [] ∨ exponent ≠ none

theorem IsNotation.eq_fraction {cs whole fraction : List Char} (h : IsNotation cs whole fraction none) :
    cs = whole ++ '.' :: fraction ∧ fraction ≠ [] := by
  obtain ⟨heq, -, -, hinexact⟩ := h
  have hne : fraction ≠ [] := hinexact.resolve_right (by simp)
  obtain ⟨c, ds, rfl⟩ := List.exists_cons_of_ne_nil hne
  refine ⟨?_, hne⟩
  simpa [fractionPart, exponentPart] using heq

private theorem toBinary64_ofParts {whole fraction : List Char} {e : Int} {n : Nat} {exponent : Int} {a : Nat}
    (hdigits : Text.ofAsciiDigits (whole ++ fraction) = n * 10 ^ a) (he : e - fraction.length = exponent - a) (s : Bool) :
    (ofParts whole fraction e).toBinary64 s = toBinary64 s ⟨n, exponent⟩ := by
  rw [ofParts, hdigits, he, toBinary64_mul_pow]

/-- The text of significant digits, of which so many stand before the point. -/
private def positional (ds : List Char) (point : Int) : List Char :=
  if ds.length ≤ point then ds ++ List.replicate (point - ds.length).toNat '0' ++ ['.', '0']
  else if 0 < point then ds.take point.toNat ++ '.' :: ds.drop point.toNat
  else '0' :: '.' :: (List.replicate (-point).toNat '0' ++ ds)

private theorem isNotation_whole {c : Char} {cs : List Char} (hc : c ≠ '0')
    (hds : ∀ d ∈ c :: cs, Text.isAsciiDigit d = true) (z : Nat) :
    IsNotation (c :: cs ++ List.replicate z '0' ++ ['.', '0']) (c :: cs ++ List.replicate z '0') ['0'] none ∧
      ∀ s, (ofParts (c :: cs ++ List.replicate z '0') ['0'] 0).toBinary64 s =
        toBinary64 s ⟨Text.ofAsciiDigits (c :: cs), z⟩ := by
  refine ⟨⟨rfl, ⟨?_, c, cs ++ List.replicate z '0', rfl, ?_⟩, fun _ => isAsciiDigit_of_mem_zero, .inl (by simp)⟩, ?_⟩
  · intro d hd
    rcases List.mem_append.1 hd with hd | hd
    · exact hds d hd
    · rw [List.eq_of_mem_replicate hd]
      decide
  · intro h
    exact absurd h hc
  · apply toBinary64_ofParts (a := z + 1)
    · rw [List.append_assoc, ← List.replicate_succ', Text.ofAsciiDigits_append_zeros]
    · rw [List.length_singleton]
      omega

private theorem isNotation_split {c : Char} {cs : List Char} (hc : c ≠ '0')
    (hds : ∀ d ∈ c :: cs, Text.isAsciiDigit d = true) {p : Nat} (hp : p + 1 < (c :: cs).length) :
    IsNotation ((c :: cs).take (p + 1) ++ '.' :: (c :: cs).drop (p + 1)) ((c :: cs).take (p + 1))
        ((c :: cs).drop (p + 1)) none ∧
      ∀ s, (ofParts ((c :: cs).take (p + 1)) ((c :: cs).drop (p + 1)) 0).toBinary64 s =
        toBinary64 s ⟨Text.ofAsciiDigits (c :: cs), p + 1 - (c :: cs).length⟩ := by
  have hdrop : (c :: cs).drop (p + 1) ≠ [] := by
    rw [Ne, List.drop_eq_nil_iff]
    omega
  refine ⟨⟨?_, ⟨?_, c, cs.take p, rfl, ?_⟩, ?_, .inl hdrop⟩, ?_⟩
  · obtain ⟨d, ds, hd⟩ := List.exists_cons_of_ne_nil hdrop
    rw [hd]
    simp [fractionPart, exponentPart]
  · exact fun d hd => hds d (List.mem_of_mem_take hd)
  · intro h
    exact absurd h hc
  · exact fun d hd => hds d (List.mem_of_mem_drop hd)
  · apply toBinary64_ofParts (a := 0)
    · rw [List.take_append_drop, pow_zero, Nat.mul_one]
    · rw [List.length_drop]
      omega

private theorem isNotation_fraction {c : Char} {cs : List Char} (hds : ∀ d ∈ c :: cs, Text.isAsciiDigit d = true)
    (z : Nat) :
    IsNotation ('0' :: '.' :: (List.replicate z '0' ++ c :: cs)) ['0'] (List.replicate z '0' ++ c :: cs) none ∧
      ∀ s, (ofParts ['0'] (List.replicate z '0' ++ c :: cs) 0).toBinary64 s =
        toBinary64 s ⟨Text.ofAsciiDigits (c :: cs), -z - (c :: cs).length⟩ := by
  refine ⟨⟨?_, isWhole_zero, ?_, .inl (by simp)⟩, ?_⟩
  · have hfraction : fractionPart (List.replicate z '0' ++ c :: cs) = '.' :: (List.replicate z '0' ++ c :: cs) := by
      cases z <;> rfl
    rw [hfraction]
    simp [exponentPart]
  · intro d hd
    rcases List.mem_append.1 hd with hd | hd
    · rw [List.eq_of_mem_replicate hd]
      decide
    · exact hds d hd
  · apply toBinary64_ofParts (a := 0)
    · rw [← List.replicate_one, Text.ofAsciiDigits_zeros_append, Text.ofAsciiDigits_zeros_append, pow_zero, Nat.mul_one]
    · rw [List.length_append, List.length_replicate]
      omega

private theorem isNotation_positional {c : Char} {cs : List Char} (hc : c ≠ '0')
    (hds : ∀ d ∈ c :: cs, Text.isAsciiDigit d = true) (point : Int) :
    ∃ whole fraction, IsNotation (positional (c :: cs) point) whole fraction none ∧ whole.length ≤ max 1 point ∧
      ∀ s, (ofParts whole fraction 0).toBinary64 s =
        toBinary64 s ⟨Text.ofAsciiDigits (c :: cs), point - (c :: cs).length⟩ := by
  unfold positional
  split
  · next hpoint =>
    obtain ⟨z, rfl⟩ : ∃ z : Nat, point = z + (c :: cs).length := ⟨(point - (c :: cs).length).toNat, by omega⟩
    rw [Int.add_sub_cancel, Int.toNat_natCast]
    obtain ⟨hform, hparts⟩ := isNotation_whole hc hds z
    refine ⟨_, _, hform, ?_, hparts⟩
    rw [List.length_append, List.length_replicate]
    omega
  · next hbeyond =>
    split
    · next hpoint =>
      obtain ⟨p, rfl⟩ : ∃ p : Nat, point = p + 1 := ⟨point.toNat - 1, by omega⟩
      obtain ⟨hform, hparts⟩ := isNotation_split hc hds (p := p) (by omega)
      refine ⟨_, _, hform, ?_, hparts⟩
      rw [List.length_take]
      omega
    · next hpoint =>
      obtain ⟨z, rfl⟩ : ∃ z : Nat, point = -(z : Int) := ⟨(-point).toNat, by omega⟩
      rw [Int.neg_neg, Int.toNat_natCast]
      obtain ⟨hform, hparts⟩ := isNotation_fraction hds z
      exact ⟨_, _, hform, by simp, hparts⟩

private theorem isNotation_scientific {c : Char} {cs : List Char}
    (hds : ∀ d ∈ c :: cs, Text.isAsciiDigit d = true) (scale : Int) :
    IsNotation (c :: (fractionPart cs ++ exponentPart (some scale))) [c] cs (some scale) ∧
      ∀ s, (ofParts [c] cs scale).toBinary64 s =
        toBinary64 s ⟨Text.ofAsciiDigits (c :: cs), scale + 1 - (c :: cs).length⟩ := by
  obtain ⟨hd, hcs⟩ := List.forall_mem_cons.1 hds
  refine ⟨⟨rfl, ⟨?_, c, [], rfl, fun _ => rfl⟩, hcs, .inr (by simp)⟩, ?_⟩
  · intro d hd'
    rw [List.mem_singleton.1 hd']
    exact hd
  · apply toBinary64_ofParts (a := 0)
    · rw [List.singleton_append, pow_zero, Nat.mul_one]
    · rw [List.length_cons]
      omega

/-- The decimal exponent of the first digit of a decimal. -/
def scale (d : Decimal) : Int :=
  (Text.decimal d.digits).length + d.exponent - 1

def IsPositional (d : Decimal) : Prop :=
  d.digits = 0 ∨ positionalFrom ≤ d.scale ∧ d.scale < positionalBelow

private theorem text_eq {n : Nat} (hn : n ≠ 0) (e : Int) :
    ∃ c cs, c ≠ '0' ∧ (∀ d ∈ c :: cs, Text.isAsciiDigit d = true) ∧
      text ⟨n, e⟩ = (if positionalFrom ≤ scale ⟨n, e⟩ ∧ scale ⟨n, e⟩ < positionalBelow then
        positional (c :: cs) (scale ⟨n, e⟩ + 1)
        else c :: (fractionPart cs ++ exponentPart (some (scale ⟨n, e⟩)))) ∧
      ∀ s, toBinary64 s ⟨Text.ofAsciiDigits (c :: cs), scale ⟨n, e⟩ + 1 - (c :: cs).length⟩ = toBinary64 s ⟨n, e⟩ := by
  obtain ⟨c, cs, j, hsignificant, hc, hds, hlen, hvalue⟩ := decimal_eq_significant hn
  have hpoint : ((Text.decimal n).length : Int) + e = scale ⟨n, e⟩ + 1 := by rw [scale, Int.sub_add_cancel]
  refine ⟨c, cs, hc, hds, ?_, ?_⟩
  · rw [text, if_neg hn]
    simp only [hsignificant, hpoint, Int.add_sub_cancel]
    split
    · rfl
    · cases cs <;> rfl
  · intro s
    have hexp : scale ⟨n, e⟩ + 1 - (c :: cs).length = e + j := by
      rw [← hpoint, hlen]
      push_cast
      ring
    rw [hexp, hvalue, ← toBinary64_mul_pow s _ _ j, Int.add_sub_cancel]

theorem isNotation_text_of_isPositional {d : Decimal} (h : d.IsPositional) :
    ∃ whole fraction, IsNotation d.text whole fraction none ∧ whole.length ≤ positionalBelow ∧
      ∀ s, (ofParts whole fraction 0).toBinary64 s = d.toBinary64 s := by
  obtain ⟨n, e⟩ := d
  by_cases hn : n = 0
  · subst hn
    refine ⟨['0'], ['0'], ⟨rfl, isWhole_zero, fun _ => isAsciiDigit_of_mem_zero, .inl (by simp)⟩, by decide, ?_⟩
    intro s
    have hparts : ofParts ['0'] ['0'] 0 = ⟨0, -1⟩ := rfl
    rw [hparts]
    simp [toBinary64]
  · have hrange := h.resolve_left hn
    obtain ⟨c, cs, hc, hds, htext, hround⟩ := text_eq hn e
    obtain ⟨whole, fraction, hform, hlength, hparts⟩ := isNotation_positional hc hds (scale ⟨n, e⟩ + 1)
    rw [htext, if_pos hrange]
    refine ⟨whole, fraction, hform, ?_, fun s => (hparts s).trans (hround s)⟩
    have hbelow := hrange.2
    unfold positionalBelow at hbelow ⊢
    omega

theorem isNotation_text_of_not_isPositional {d : Decimal} (h : ¬d.IsPositional) :
    ∃ c cs, IsNotation d.text [c] cs (some d.scale) ∧ ∀ s, (ofParts [c] cs d.scale).toBinary64 s = d.toBinary64 s := by
  obtain ⟨n, e⟩ := d
  obtain ⟨hn, hrange⟩ := not_or.1 h
  obtain ⟨c, cs, -, hds, htext, hround⟩ := text_eq hn e
  obtain ⟨hform, hparts⟩ := isNotation_scientific hds (scale ⟨n, e⟩)
  rw [htext, if_neg hrange]
  exact ⟨c, cs, hform, fun s => (hparts s).trans (hround s)⟩

/-- The text of a decimal is a notation of a decimal that rounds to the same number. -/
theorem exists_isNotation_text (d : Decimal) : ∃ whole fraction exponent, IsNotation d.text whole fraction exponent ∧
    ∀ s, (ofParts whole fraction (exponent.getD 0)).toBinary64 s = d.toBinary64 s := by
  by_cases h : d.IsPositional
  · obtain ⟨whole, fraction, hform, -, hparts⟩ := isNotation_text_of_isPositional h
    exact ⟨whole, fraction, none, hform, hparts⟩
  · obtain ⟨c, cs, hform, hparts⟩ := isNotation_text_of_not_isPositional h
    exact ⟨[c], cs, some d.scale, hform, hparts⟩

end Decimal
end Reckoner
