import Mathlib
import Reckoner.Proofs.Expr.Chain
import Reckoner.Proofs.Expr.Failures
import Reckoner.Proofs.Expr.Substitution
import Reckoner.Proofs.Number.Magnitude

/-!
# Printed values as operands

A value that is not negative and is printed without an exponent is a literal of the value, so that its text can be put in the
place of a group (`evaluate_printed`). Literals have no exponents, and a text with one has no value.
-/
namespace Reckoner

open Outcome

namespace Literal

theorem isLiteralChar_of_isAsciiDigit {c : Char} (h : Text.isAsciiDigit c = true) : isLiteralChar c = true := by
  rw [isLiteralChar, h, Bool.true_or]

theorem isRun_of_digits {l : List Char} (hne : l ≠ []) (h : ∀ c ∈ l, Text.isAsciiDigit c = true) : IsRun l :=
  ⟨hne, fun c hc => isLiteralChar_of_isAsciiDigit (h c hc)⟩

theorem isRun_of_fraction {whole fraction : List Char} (hwhole : ∀ c ∈ whole, Text.isAsciiDigit c = true)
    (hfraction : ∀ c ∈ fraction, Text.isAsciiDigit c = true) : IsRun (whole ++ '.' :: fraction) := by
  refine ⟨by simp, List.forall_mem_append.2 ⟨?_, List.forall_mem_cons.2 ⟨by decide, ?_⟩⟩⟩
  · exact fun c hc => isLiteralChar_of_isAsciiDigit (hwhole c hc)
  · exact fun c hc => isLiteralChar_of_isAsciiDigit (hfraction c hc)

theorem value_of_digits {l : List Char} (hl : ∀ c ∈ l, Text.isAsciiDigit c = true) (hlength : l.length ≤ Operator.maxDigits) :
    value l = .ok (.int (Text.ofAsciiDigits l)) := by
  have hpoint : '.' ∉ l := fun hmem => absurd (hl _ hmem) (by decide)
  have hshort : ¬Operator.maxDigits < (l.dropWhile (· == '0')).length :=
    Nat.not_lt.2 ((List.dropWhile_sublist _).length_le.trans hlength)
  have hlimit : ¬DigitLimit.maxDigits < l.length := Nat.not_lt.2 (hlength.trans (by decide))
  rw [value_of_no_point hpoint, if_neg hshort, if_neg hlimit]

private theorem split_at_point {whole : List Char} (hwhole : '.' ∉ whole) (fraction : List Char) :
    (whole ++ '.' :: fraction).takeWhile (· != '.') = whole ∧
      (whole ++ '.' :: fraction).dropWhile (· != '.') = '.' :: fraction := by
  have hall : ∀ c ∈ whole, (c != '.') = true := by
    intro c hc
    exact bne_iff_ne.2 fun heq => hwhole (heq ▸ hc)
  rw [List.takeWhile_append_of_pos hall, List.dropWhile_append_of_pos hall]
  simp

private theorem dropWhile_zero_append (whole fraction : List Char) :
    (whole ++ '.' :: fraction).dropWhile (· == '0') = whole.dropWhile (· == '0') ++ '.' :: fraction := by
  rw [List.dropWhile_append]
  split
  · next hempty =>
    rw [List.isEmpty_iff.1 hempty]
    rfl
  · rfl

theorem value_of_fraction {whole fraction : List Char} (hwhole : ∀ c ∈ whole, Text.isAsciiDigit c = true)
    (hlength : whole.length ≤ Operator.maxDigits) (hfraction : ∀ c ∈ fraction, Text.isAsciiDigit c = true)
    (hne : fraction ≠ []) (hfinite : ((Decimal.ofParts whole fraction 0).toBinary64 false).isFinite = true) :
    value (whole ++ '.' :: fraction) = .ok (.double ((Decimal.ofParts whole fraction 0).toBinary64 false)) := by
  have hpoint : '.' ∉ whole := fun hmem => absurd (hwhole _ hmem) (by decide)
  have hzeros : '.' ∉ whole.dropWhile (· == '0') := fun hmem => hpoint ((List.dropWhile_sublist _).subset hmem)
  have hshort : ¬Operator.maxDigits <
      (((whole ++ '.' :: fraction).dropWhile (· == '0')).takeWhile (· != '.')).length := by
    rw [dropWhile_zero_append, (split_at_point hzeros fraction).1]
    exact Nat.not_lt.2 ((List.dropWhile_sublist _).length_le.trans hlength)
  have hcontains : (whole ++ '.' :: fraction).contains '.' = true := by simp
  have hfixed : Decimal.ofFixed? (whole ++ '.' :: fraction) = some (Decimal.ofParts whole fraction 0) := by
    obtain ⟨htake, hdrop⟩ := split_at_point hpoint fraction
    have hdigits : (whole ++ fraction).all Text.isAsciiDigit = true :=
      List.all_eq_true.2 (List.forall_mem_append.2 ⟨hwhole, hfraction⟩)
    simp only [Decimal.ofFixed?, htake, hdrop, List.drop_one, List.tail_cons, hdigits]
    simp [hne, Decimal.ofDigits, Decimal.ofParts]
  have hinfinite : ((Decimal.ofParts whole fraction 0).toBinary64 false).isInfinite = false := by
    cases hx : (Decimal.ofParts whole fraction 0).toBinary64 false with
    | infinite s =>
      rw [hx] at hfinite
      cases hfinite
    | _ => rfl
  rw [value, if_neg hshort, hcontains]
  simp only [hfixed, hinfinite]
  rfl

end Literal

/-! ### Printed numbers -/

namespace Number

/-- Whether the sign of a number is minus. Zero has a sign in binary64. -/
def IsNegative : Number → Prop
  | .int n => n < 0
  | .double x => x.isNegative = true

/-- Whether a number is printed without an exponent. -/
def IsPositional : Number → Prop
  | .int _ => True
  | .double x => x.IsPositional

variable {v : Number}

theorem text_finite {m k : Nat} (h : Canonical m k) :
    text (.double (.finite false m k h)) = (Decimal.shortest (.finite false m k h) (Binary64.units m k)).text := by
  rw [text, Binary64.text, if_neg (by decide), List.nil_append]

theorem isRun_text_int {n : Int} (hb : (int n).Bounded) (hsign : ¬n < 0) :
    Literal.IsRun (text (.int n)) ∧ Literal.value (text (.int n)) = .ok (.int n) := by
  have hdigits : ∀ c ∈ Text.decimal n.natAbs, Text.isAsciiDigit c = true := fun c hc => Text.isAsciiDigit_of_mem_decimal hc
  have hlength : (Text.decimal n.natAbs).length ≤ Operator.maxDigits := (Text.length_decimal_le_iff (by decide)).2 hb
  have habs : (n.natAbs : Int) = n := Int.natAbs_of_nonneg (Int.not_lt.1 hsign)
  rw [text, Text.decimalInt, if_neg hsign, Literal.value_of_digits hdigits hlength, Text.ofAsciiDigits_decimal, habs]
  exact ⟨Literal.isRun_of_digits (Text.decimal_ne_nil _) hdigits, rfl⟩

theorem isRun_text_finite {m k : Nat} (hc : Canonical m k) (h : (Binary64.finite false m k hc).IsPositional) :
    Literal.IsRun (text (.double (.finite false m k hc))) ∧
      Literal.value (text (.double (.finite false m k hc))) = .ok (.double (.finite false m k hc)) := by
  obtain ⟨whole, fraction, hform, hlength, hparts⟩ :=
    Decimal.isNotation_text_of_isPositional ((Binary64.isPositional_shortest_iff hc).2 h)
  obtain ⟨htext, hne⟩ := hform.eq_fraction
  have hfew : whole.length ≤ Operator.maxDigits := by
    unfold Decimal.positionalBelow at hlength
    exact (Int.ofNat_le.1 hlength).trans (by decide)
  have hvalue : (Decimal.ofParts whole fraction 0).toBinary64 false = .finite false m k hc :=
    (hparts false).trans (Decimal.toBinary64_shortest false hc)
  have hfinite : ((Decimal.ofParts whole fraction 0).toBinary64 false).isFinite = true := by
    rw [hvalue]
    rfl
  rw [text_finite hc, htext, Literal.value_of_fraction hform.isWhole.1 hfew hform.digits hne hfinite, hvalue]
  exact ⟨Literal.isRun_of_fraction hform.isWhole.1 hform.digits, rfl⟩

theorem isRun_text (hb : v.Bounded) (hsign : ¬v.IsNegative) (h : v.IsPositional) :
    Literal.IsRun v.text ∧ Literal.value v.text = .ok v := by
  cases v with
  | int n => exact isRun_text_int hb hsign
  | double x =>
    cases x with
    | finite s m k hc =>
      obtain rfl : s = false := Bool.eq_false_iff.2 hsign
      exact isRun_text_finite hc h
    | _ => cases hb

private theorem value_ofParts_lt {c : Char} {cs : List Char} (h : ∀ d ∈ c :: cs, Text.isAsciiDigit d = true) :
    (Decimal.ofParts [c] cs 0).value < 10 := by
  have hlt : (Text.ofAsciiDigits (c :: cs) : ℚ) < 10 * 10 ^ cs.length := by
    have hdigits := Text.ofAsciiDigits_lt h
    rw [List.length_cons, pow_succ'] at hdigits
    exact_mod_cast hdigits
  rw [Decimal.value, Decimal.ofParts, Int.zero_sub, zpow_neg, zpow_natCast, ← div_eq_mul_inv,
    div_lt_iff₀ (by positivity)]
  exact hlt

private theorem exists_mantissa {c : Char} {cs : List Char} (h : ∀ d ∈ c :: cs, Text.isAsciiDigit d = true) :
    Literal.IsRun (c :: Decimal.fractionPart cs) ∧ ∃ n, Literal.value (c :: Decimal.fractionPart cs) = .ok n := by
  obtain ⟨hc, hcs⟩ := List.forall_mem_cons.1 h
  have hwhole : ∀ d ∈ [c], Text.isAsciiDigit d = true := fun d hd => List.mem_singleton.1 hd ▸ hc
  have hfinite : ((Decimal.ofParts [c] cs 0).toBinary64 false).isFinite = true :=
    Decimal.isFinite_toBinary64 (value_ofParts_lt h)
  have hfew : [c].length ≤ Operator.maxDigits := (by decide : 1 ≤ Operator.maxDigits)
  cases cs with
  | nil => exact ⟨Literal.isRun_of_digits (by simp) hwhole, _, Literal.value_of_digits hwhole hfew⟩
  | cons d ds =>
    exact ⟨Literal.isRun_of_fraction hwhole hcs, _, Literal.value_of_fraction hwhole hfew hcs (by simp) hfinite⟩

private theorem exists_exponent {e : Int} (h : e.natAbs < 1000) :
    ∃ (s : Sign) (ds : List Char), Decimal.exponentText e = s.symbol :: ds ∧ Literal.IsRun ds ∧
      ∃ n, Literal.value ds = .ok n := by
  have hlength : (Text.decimal e.natAbs).length ≤ 3 := (Text.length_decimal_le_iff (by decide)).2 h
  have hdigits : ∀ c ∈ List.replicate (2 - (Text.decimal e.natAbs).length) '0' ++ Text.decimal e.natAbs,
      Text.isAsciiDigit c = true := by
    intro c hc
    rcases List.mem_append.1 hc with hc | hc
    · rw [List.eq_of_mem_replicate hc]
      decide
    · exact Text.isAsciiDigit_of_mem_decimal hc
  have hfew : (List.replicate (2 - (Text.decimal e.natAbs).length) '0' ++ Text.decimal e.natAbs).length ≤
      Operator.maxDigits := by
    rw [List.length_append, List.length_replicate]
    exact (by omega : _ ≤ 5).trans (by decide)
  refine ⟨if e < 0 then .minus else .plus, _, ?_, Literal.isRun_of_digits (by simp [Text.decimal_ne_nil]) hdigits, _,
    Literal.value_of_digits hdigits hfew⟩
  rw [Decimal.exponentText]
  split <;> rfl

theorem exists_text_of_not_isPositional (hb : v.Bounded) (hsign : ¬v.IsNegative) (h : ¬v.IsPositional) :
    ∃ mantissa exponent s m n, v.text = mantissa ++ 'e' :: Sign.symbol s :: exponent ∧ Literal.IsRun mantissa ∧
      Literal.IsRun exponent ∧ Literal.value mantissa = .ok m ∧ Literal.value exponent = .ok n := by
  cases v with
  | int n => exact absurd trivial h
  | double x =>
    cases x with
    | finite s m k hc =>
      obtain rfl : s = false := Bool.eq_false_iff.2 hsign
      have hscientific : ¬(Decimal.shortest (.finite false m k hc) (Binary64.units m k)).IsPositional :=
        fun hpositional => h ((Binary64.isPositional_shortest_iff hc).1 hpositional)
      have hdigits := (not_or.1 hscientific).1
      have hzero : (Binary64.finite false m k hc).isZero = false :=
        Bool.eq_false_iff.2 fun hzero => hdigits ((Binary64.digits_shortest_eq_zero_iff hc).2 hzero)
      have hread := Decimal.toBinary64_shortest false hc
      obtain ⟨c, cs, hform, -⟩ := Decimal.isNotation_text_of_not_isPositional hscientific
      have hscale := Decimal.natAbs_scale_lt (s := false) hdigits (by rw [hread]; rfl) (by rw [hread]; exact hzero)
      have hall : ∀ d ∈ c :: cs, Text.isAsciiDigit d = true :=
        List.forall_mem_cons.2 ⟨hform.isWhole.1 c (List.mem_singleton_self c), hform.digits⟩
      obtain ⟨hmantissa, n, hn⟩ := exists_mantissa hall
      obtain ⟨sign, ds, htext, hexponent, e, he⟩ := exists_exponent hscale
      refine ⟨_, ds, sign, n, e, ?_, hmantissa, hexponent, hn, he⟩
      rw [text_finite hc, hform.eq_append, Decimal.exponentPart, htext]
      simp
    | _ => cases hb

end Number

/-! ### Characters without a meaning -/

namespace Group

variable {α : Type} [Operand α] {ts us : List (Token α)} {text : String}

theorem Stage.mem_other (h : Stage ts us) (hmem : .other text ∈ ts) : .other text ∈ us := by
  obtain ⟨splices, htraced⟩ := h
  induction htraced with
  | start => exact hmem
  | @pass splices us before inside after v _ group hv ih =>
    obtain ⟨rfl, -, -⟩ := group
    have hinside : .other text ∉ inside := fun hother => by
      rcases (Flat.counts_of_value (value_of_groupValue hv)).1 _ hother with h | h <;> cases h
    simpa [hinside] using ih

theorem other_notMem_of_resolve {v : α} (h : resolve ts = .ok v) : .other text ∉ ts := by
  obtain ⟨us, hstage, -, hv⟩ := resolve_eq_ok_iff.1 h
  intro hmem
  rcases (Flat.counts_of_value hv).1 _ (hstage.mem_other hmem) with h | h <;> cases h

end Group

theorem ofChar_mem_of_tokenize {c : Char} (hc : Literal.isLiteralChar c = false) {cs : List Char} (hmem : c ∈ cs)
    {ts : List (Token Number)} (h : tokenize cs = .ok ts) : .ofChar c ∈ ts := by
  obtain ⟨xs, ys, rfl⟩ := List.append_of_mem hmem
  rw [tokenize_append_cons hc] at h
  obtain ⟨us, -, h⟩ := bind_eq_ok_iff.1 h
  obtain ⟨vs, -, h⟩ := bind_eq_ok_iff.1 h
  cases h
  simp

theorem evaluate_ne_ok_of_mem {c : Char} {text : String} (hother : (Token.ofChar c : Token Number) = .other text)
    (hliteral : Literal.isLiteralChar c = false) (hblank : Text.isBlank c = false) {s : String} (hmem : c ∈ s.toList)
    (v : Number) : evaluate s ≠ .ok v := by
  rw [evaluate_eq]
  intro h
  obtain ⟨ts, ht, hv⟩ := bind_eq_ok_iff.1 h
  have hkept : c ∈ Text.dropBlanks s.toList := List.mem_filter.2 ⟨hmem, by simp [hblank]⟩
  exact Group.other_notMem_of_resolve hv (hother ▸ ofChar_mem_of_tokenize hliteral hkept ht)

/-! ### Printed numbers in texts -/

variable {v : Number}

theorem dropBlanks_run {l : List Char} (hl : Literal.IsRun l) : Text.dropBlanks l = l :=
  List.filter_eq_self.2 fun c hc => by simp [Literal.isBlank_of_isLiteralChar (hl.2 c hc)]

theorem tokenize_text_of_isPositional (hb : v.Bounded) (hsign : ¬v.IsNegative) (h : v.IsPositional) :
    tokenize v.text = .ok [.operand v] := by
  obtain ⟨hrun, hvalue⟩ := v.isRun_text hb hsign h
  rw [tokenize_literal hrun.1 hrun.2, hvalue, ok_bind]

theorem evaluate_toString_of_isPositional (hb : v.Bounded) (hsign : ¬v.IsNegative) (h : v.IsPositional) :
    evaluate (toString v) = .ok v := by
  have htext : (toString v).toList = v.text := String.toList_ofList
  rw [evaluate_eq, htext, dropBlanks_run (v.isRun_text hb hsign h).1, tokenize_text_of_isPositional hb hsign h]
  rfl

theorem evaluate_toString_of_not_isPositional (hb : v.Bounded) (hsign : ¬v.IsNegative) (h : ¬v.IsPositional) :
    evaluate (toString v) = .error (.evaluation (.invalidCharacter "e")) := by
  obtain ⟨mantissa, exponent, s, m, n, htext, hmantissa, hexponent, hm, hn⟩ :=
    Number.exists_text_of_not_isPositional hb hsign h
  have hlist : (toString v).toList = v.text := String.toList_ofList
  have hmiddle : Text.dropBlanks ['e', s.symbol] = ['e', s.symbol] := by cases s <;> decide
  have hblanks : Text.dropBlanks (mantissa ++ 'e' :: s.symbol :: exponent) = mantissa ++ 'e' :: s.symbol :: exponent := by
    have hsplit : 'e' :: s.symbol :: exponent = ['e', s.symbol] ++ exponent := rfl
    rw [hsplit, Text.dropBlanks_append, Text.dropBlanks_append, dropBlanks_run hmantissa, hmiddle, dropBlanks_run hexponent]
  have htail : tokenize (s.symbol :: exponent) = .ok [.sign s, .operand n] := by
    have hrest := tokenize_append_sign [] s exponent
    rw [List.nil_append, tokenize_literal hexponent.1 hexponent.2, hn, tokenize] at hrest
    exact hrest
  have hletter : Literal.isLiteralChar 'e' = false := by decide
  have htokens : tokenize (mantissa ++ 'e' :: s.symbol :: exponent) =
      .ok [.operand m, .other "e", .sign s, .operand n] := by
    rw [tokenize_append_cons hletter, tokenize_literal hmantissa.1 hmantissa.2, hm, htail]
    rfl
  have hopening : (.opening : Token Number) ∉ [.operand m, .other "e", .sign s, .operand n] := by simp
  rw [evaluate_eq, hlist, htext, hblanks, htokens, ok_bind, Group.resolve_of_notMem hopening]
  rfl

/-- Between two texts there is neither a digit nor a point next to the gap, blanks aside. -/
structure IsApart (before after : String) : Prop where
  before : ∀ c ∈ (Text.dropBlanks before.toList).getLast?, Literal.isLiteralChar c = false
  after : ∀ c ∈ (Text.dropBlanks after.toList).head?, Literal.isLiteralChar c = false

/-- In a text the printed value stands for the group. -/
theorem evaluate_group_eq {s : String} (hv : evaluate s = .ok v) (hsign : ¬v.IsNegative) (h : v.IsPositional) {p q : String}
    (hapart : IsApart p q) : evaluate (p ++ "(" ++ s ++ ")" ++ q) = evaluate (p ++ toString v ++ q) := by
  have hb := bounded_of_evaluate hv
  rw [evaluate_eq] at hv
  obtain ⟨ts, hts, hresolve⟩ := bind_eq_ok_iff.1 hv
  have hshort : ∀ n, .operand n ∈ ts → n.IsShort := fun n hn => (bounded_of_tokenize hts _ hn).isShort
  have hgroup : Text.dropBlanks (p ++ "(" ++ s ++ ")" ++ q).toList =
      Text.dropBlanks p.toList ++ ('(' :: Text.dropBlanks s.toList ++ [')']) ++ Text.dropBlanks q.toList := by
    have hopen : Text.dropBlanks "(".toList = ['('] := by decide
    have hclose : Text.dropBlanks ")".toList = [')'] := by decide
    simp only [String.toList_append, Text.dropBlanks_append, hopen, hclose, List.append_assoc, List.cons_append,
      List.nil_append]
  have hprinted : Text.dropBlanks (p ++ toString v ++ q).toList =
      Text.dropBlanks p.toList ++ v.text ++ Text.dropBlanks q.toList := by
    have hlist : (toString v).toList = v.text := String.toList_ofList
    rw [String.toList_append, String.toList_append, Text.dropBlanks_append, Text.dropBlanks_append, hlist,
      dropBlanks_run (v.isRun_text hb hsign h).1]
  rw [evaluate_eq, evaluate_eq, hgroup, hprinted, tokenize_between hapart.before hapart.after,
    tokenize_between hapart.before hapart.after, tokenize_group, hts, tokenize_text_of_isPositional hb hsign h]
  cases tokenize (Text.dropBlanks p.toList) with
  | error f => rfl
  | ok ps =>
    cases tokenize (Text.dropBlanks q.toList) with
    | error f => rfl
    | ok qs =>
      have hsubstitution := Group.resolve_substitution ps ts qs v hshort hresolve
      simpa [ok_bind] using hsubstitution

/-- A value that is not negative is printed without an exponent if it is whole, zero or in the range of positional notation.
Then its text has the value, and can be put in the place of a group with the value in any text. With an exponent it is
refused, and so is every text that holds it. -/
theorem evaluate_printed {s : String} (hv : evaluate s = .ok v) (hsign : ¬v.IsNegative) :
    (v.IsPositional → evaluate (toString v) = .ok v ∧
      ∀ p q : String, IsApart p q → evaluate (p ++ "(" ++ s ++ ")" ++ q) = evaluate (p ++ toString v ++ q)) ∧
    (¬v.IsPositional → evaluate (toString v) = .error (.evaluation (.invalidCharacter "e")) ∧
      ∀ (p q : String) (w : Number), evaluate (p ++ toString v ++ q) ≠ .ok w) := by
  have hb := bounded_of_evaluate hv
  constructor
  · intro h
    exact ⟨evaluate_toString_of_isPositional hb hsign h, fun p q => evaluate_group_eq hv hsign h⟩
  · intro h
    refine ⟨evaluate_toString_of_not_isPositional hb hsign h, fun p q w => ?_⟩
    obtain ⟨mantissa, exponent, sign, -, -, htext, -⟩ := Number.exists_text_of_not_isPositional hb hsign h
    have hlist : (toString v).toList = v.text := String.toList_ofList
    have hmem : 'e' ∈ (p ++ toString v ++ q).toList := by
      simp [hlist, htext]
    exact evaluate_ne_ok_of_mem (by rfl) (by decide) (by decide) hmem w

/-- The quotient `7/2` is written `3.5` in the place of its group. -/
theorem evaluate_printed_quotient :
    let v : Number := .double (.finite false 0x1C000000000000 1023 (by decide))
    evaluate "7/2" = .ok v ∧ ¬v.IsNegative ∧ toString v = "3.5" ∧ evaluate (toString v) = .ok v ∧
      IsApart "2 * " " - 1" ∧
      evaluate ("2 * " ++ "(" ++ "7/2" ++ ")" ++ " - 1") = evaluate ("2 * " ++ toString v ++ " - 1") := by
  intro v
  have hv : evaluate "7/2" = .ok v := by decide +kernel
  have hsign : ¬v.IsNegative := by simp [v, Number.IsNegative, Binary64.isNegative]
  have hpositional : v.IsPositional := by
    right
    rw [Binary64.magnitude_finite, Decimal.positionalFrom, Decimal.positionalBelow]
    norm_num
  have htext : toString v = "3.5" := by decide +kernel
  have hbefore : (Text.dropBlanks "2 * ".toList).getLast? = some '*' := by decide
  have hafter : (Text.dropBlanks " - 1".toList).head? = some '-' := by decide
  have hapart : IsApart "2 * " " - 1" := by
    constructor
    · rw [hbefore]
      rintro c ⟨⟩
      decide
    · rw [hafter]
      rintro c ⟨⟩
      decide
  obtain ⟨hvalue, hgroup⟩ := (evaluate_printed hv hsign).1 hpositional
  exact ⟨hv, hsign, htext, hvalue, hapart, hgroup "2 * " " - 1" hapart⟩

/-- The quotient `1/100000` is printed with an exponent, and its text is refused. Blanks do not keep a text apart either: in
`1 (2)+` the group is an operand of its own, and its text is not. -/
theorem evaluate_printed_exponent :
    (∃ v : Number, evaluate "1/100000" = .ok v ∧ ¬v.IsNegative ∧ toString v = "1e-05" ∧
      evaluate (toString v) = .error (.evaluation (.invalidCharacter "e"))) ∧
    ∃ v : Number, evaluate "2" = .ok v ∧ ¬v.IsNegative ∧ toString v = "2" ∧
      evaluate ("1 " ++ "(" ++ "2" ++ ")" ++ "+") = .ok (.int 3) ∧
      evaluate ("1 " ++ toString v ++ "+") = .error (.evaluation (.missingOperand '+')) := by
  constructor
  · refine ⟨.double (.finite false 0x14F8B588E368F1 1005 (by decide)), by decide +kernel, ?_, by decide +kernel,
      by decide +kernel⟩
    simp [Number.IsNegative, Binary64.isNegative]
  · refine ⟨.int 2, by decide +kernel, ?_, by decide +kernel, by decide +kernel, by decide +kernel⟩
    simp [Number.IsNegative]

end Reckoner
