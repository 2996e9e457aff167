import Mathlib
import Reckoner.Expr.Token
import Reckoner.Proofs.Number.Bounds
import Reckoner.Proofs.Text.Digits

/-!
# Bounds of literals and results

Literals and the results of signs are bounded. A sign between numbers fails only with an evaluation error, since the
divisor is looked at first. A literal has one other way to fail: it may be padded with so many zeros that it passes the
limit on its digits and exceeds the limit on conversions.
-/
namespace Reckoner

open Outcome

namespace Operator

theorem checkSize_eq_error {o : Operator} {v : Number} {f : Failure} (h : o.checkSize v = .error f) :
    ∃ e, f = .evaluation e := by
  cases v with
  | int n =>
    simp only [checkSize] at h
    split at h <;> cases h
    exact ⟨_, rfl⟩
  | double x =>
    simp only [checkSize] at h
    split at h <;> cases h
    exact ⟨_, rfl⟩

theorem bounded_of_checkSize {o : Operator} {v w : Number} (hv : v ≠ .double .nan) (h : o.checkSize v = .ok w) :
    w.Bounded := by
  cases v with
  | int n =>
    simp only [checkSize] at h
    split at h
    · cases h
    · next hn =>
      cases h
      exact Number.bounded_of_bitLength_le (Nat.le_of_not_lt hn)
  | double x =>
    simp only [checkSize] at h
    split at h
    · cases h
    · next hx =>
      cases h
      exact Binary64.isFinite_of_ne_nan (fun hn => hv (congrArg _ hn)) (Bool.eq_false_iff.2 hx)

end Operator

namespace Sign

private theorem compute_ne_nan (s : Sign) {a b v : Number} (ha : a.Bounded) (hb : b.Bounded)
    (h : s.operator.compute a b = .ok v) : v ≠ .double .nan := by
  rintro rfl
  cases s with
  | plus =>
    have h : a.add b = .ok (.double .nan) := mapError_eq_ok_iff.1 h
    exact Number.ne_nan_of_combine (fun _ _ => Binary64.add_ne_nan) ha hb h rfl
  | minus =>
    have h : a.sub b = .ok (.double .nan) := mapError_eq_ok_iff.1 h
    exact Number.ne_nan_of_combine (fun _ _ => Binary64.sub_ne_nan) ha hb h rfl
  | times =>
    have h : a.mul b = .ok (.double .nan) := mapError_eq_ok_iff.1 h
    exact Number.ne_nan_of_combine (fun _ _ => Binary64.mul_ne_nan) ha hb h rfl
  | dividedBy =>
    simp only [operator, Operator.compute] at h
    split at h
    · cases h
    · obtain ⟨z, hz, hn⟩ := Number.ne_nan_of_div ha hb (mapError_eq_ok_iff.1 h)
      cases hz
      exact hn rfl

theorem bounded_apply {s : Sign} {a b v : Number} (ha : a.Bounded) (hb : b.Bounded) (h : s.apply a b = .ok v) :
    v.Bounded := by
  obtain ⟨w, hw, h⟩ := bind_eq_ok_iff.1 h
  exact Operator.bounded_of_checkSize (compute_ne_nan s ha hb hw) h

private theorem failureOf_outOfRange (c : Char) : ∃ e, Operator.failureOf c .outOfRange = .evaluation e :=
  ⟨_, rfl⟩

theorem apply_eq_error {s : Sign} {a b : Number} {f : Failure} (h : s.apply a b = .error f) :
    ∃ e, f = .evaluation e := by
  rcases bind_eq_error_iff.1 h with h | ⟨v, -, h⟩
  · cases s with
    | plus =>
      obtain ⟨g, hg, rfl⟩ := mapError_eq_error_iff.1 h
      exact Number.combine_eq_error hg ▸ failureOf_outOfRange _
    | minus =>
      obtain ⟨g, hg, rfl⟩ := mapError_eq_error_iff.1 h
      exact Number.combine_eq_error hg ▸ failureOf_outOfRange _
    | times =>
      obtain ⟨g, hg, rfl⟩ := mapError_eq_error_iff.1 h
      exact Number.combine_eq_error hg ▸ failureOf_outOfRange _
    | dividedBy =>
      simp only [operator, Operator.compute] at h
      split at h
      · cases h
        exact ⟨_, rfl⟩
      · next hb =>
        obtain ⟨g, hg, rfl⟩ := mapError_eq_error_iff.1 h
        exact Number.div_eq_error (Bool.eq_false_iff.2 hb) hg ▸ failureOf_outOfRange _
  · exact Operator.checkSize_eq_error h

end Sign

namespace Decimal

theorem toBinary64_ne_nan (s : Bool) (d : Decimal) : d.toBinary64 s ≠ .nan := by
  simp only [toBinary64]
  split
  · simp [Binary64.zero]
  · split
    · simp
    · split
      · exact Binary64.nearest_ne_nan _ _ _
      · exact Binary64.nearest_ne_nan _ _ _

end Decimal

namespace Literal

/-- A run of digits that has few enough digits behind its zeros and too many with them to be converted. -/
def IsPadded (l : List Char) : Prop :=
  '.' ∉ l ∧ (l.dropWhile (· == '0')).length ≤ Operator.maxDigits ∧ DigitLimit.maxDigits < l.length

theorem isAsciiDigit_of_isLiteralChar {c : Char} (h : isLiteralChar c = true) (hc : c ≠ '.') :
    Text.isAsciiDigit c = true := by
  simpa [isLiteralChar, hc] using h

private theorem takeWhile_ne_point {l : List Char} (h : '.' ∉ l) :
    (l.dropWhile (· == '0')).takeWhile (· != '.') = l.dropWhile (· == '0') := by
  rw [List.takeWhile_eq_self_iff]
  intro c hc
  have hmem : c ∈ l := (List.dropWhile_sublist _).subset hc
  have hne : c ≠ '.' := fun heq => h (heq ▸ hmem)
  simpa using hne

theorem value_of_no_point {l : List Char} (h : '.' ∉ l) :
    value l =
      if Operator.maxDigits < (l.dropWhile (· == '0')).length then
        .error (.evaluation (.literalTooLong Operator.maxDigits))
      else if DigitLimit.maxDigits < l.length then .error (.digits (.reading l.length))
      else .ok (.int (Text.ofAsciiDigits l)) := by
  have hc : l.contains '.' = false := by simpa using h
  simp only [value, takeWhile_ne_point h, hc, Bool.not_false, if_true, DigitLimit.readDigits]
  by_cases hlong : DigitLimit.maxDigits < l.length
  · simp only [hlong, if_true]
  · simp only [hlong, if_false]

theorem bounded_value {l : List Char} (hl : ∀ c ∈ l, isLiteralChar c = true) {n : Number} (h : value l = .ok n) :
    n.Bounded := by
  by_cases hp : '.' ∈ l
  · have hc : l.contains '.' = true := by simpa using hp
    simp only [value, hc, Bool.not_true, Bool.false_eq_true, if_false] at h
    split at h
    · cases h
    · split at h
      · cases h
      · split at h
        · cases h
        · next hi =>
          cases h
          exact Binary64.isFinite_of_ne_nan (Decimal.toBinary64_ne_nan _ _) (Bool.eq_false_iff.2 hi)
  · rw [value_of_no_point hp] at h
    split at h
    · cases h
    · next hlen =>
      split at h
      · cases h
      · cases h
        have hd : ∀ c ∈ l.dropWhile (· == '0'), Text.isAsciiDigit c = true := by
          intro c hc
          have hmem : c ∈ l := (List.dropWhile_sublist _).subset hc
          exact isAsciiDigit_of_isLiteralChar (hl c hmem) fun heq => hp (heq ▸ hmem)
        have hlt := Text.ofAsciiDigits_lt hd
        rw [Text.ofAsciiDigits_dropWhile_zero] at hlt
        have hle : 10 ^ (l.dropWhile (· == '0')).length ≤ 10 ^ Operator.maxDigits :=
          Nat.pow_le_pow_right (by decide) (Nat.le_of_not_lt hlen)
        exact hlt.trans_le hle

/-- A literal fails with an evaluation error unless it is padded. -/
theorem value_eq_error {l : List Char} {f : Failure} (h : value l = .error f) :
    (∃ e, f = .evaluation e) ∨ (IsPadded l ∧ f = .digits (.reading l.length)) := by
  by_cases hp : '.' ∈ l
  · have hc : l.contains '.' = true := by simpa using hp
    simp only [value, hc, Bool.not_true, Bool.false_eq_true, if_false] at h
    left
    split at h
    · cases h
      exact ⟨_, rfl⟩
    · split at h
      · cases h
        exact ⟨_, rfl⟩
      · split at h <;> cases h
        exact ⟨_, rfl⟩
  · rw [value_of_no_point hp] at h
    split at h
    · cases h
      exact .inl ⟨_, rfl⟩
    · next hlen =>
      split at h
      · next hlong =>
        cases h
        exact .inr ⟨⟨hp, Nat.le_of_not_lt hlen, hlong⟩, rfl⟩
      · cases h

theorem value_of_isPadded {l : List Char} (h : IsPadded l) : value l = .error (.digits (.reading l.length)) := by
  rw [value_of_no_point h.1, if_neg (Nat.not_lt.2 h.2.1), if_pos h.2.2]

theorem isPadded_zeros {n : Nat} (h : DigitLimit.maxDigits < n) : IsPadded (List.replicate n '0') := by
  refine ⟨?_, ?_, ?_⟩
  · intro hm
    exact absurd (List.eq_of_mem_replicate hm) (by decide)
  · have hnil : (List.replicate n '0').dropWhile (· == '0') = [] := by
      rw [List.dropWhile_eq_nil_iff]
      intro c hc
      rw [List.eq_of_mem_replicate hc]
      decide
    rw [hnil]
    exact Nat.zero_le _
  · rwa [List.length_replicate]

end Literal
end Reckoner
