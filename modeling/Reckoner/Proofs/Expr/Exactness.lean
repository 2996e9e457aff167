import Mathlib
import Reckoner.Proofs.Expr.Lifting
import Reckoner.Proofs.Expr.Rendering
import Reckoner.Proofs.Expr.ResultSize

/-!
# Exact values

Whether a value is whole is decided by the text: a quotient never is, nor is a literal with a point, and neither gets lost on
the way to the value. Without them evaluation is exact. The same reductions done with whole numbers of any size give the same
value, and all results on the way have few enough bits. Where one has too many, an expression is refused for its size and for
nothing else.
-/
namespace Reckoner

open Outcome

/-! ### Whole numbers -/

namespace Number

def IsWhole (v : Number) : Prop :=
  ∃ n, v = .int n

@[simp] theorem isWhole_int (n : Int) : (int n).IsWhole := ⟨n, rfl⟩

@[simp] theorem not_isWhole_double (x : Binary64) : ¬(double x).IsWhole := by
  rintro ⟨n, h⟩
  cases h

theorem isWhole_combine_iff {exact : Int → Int → Int} {rounded : Binary64 → Binary64 → Binary64} {a b v : Number}
    (h : combine exact rounded a b = .ok v) : v.IsWhole ↔ a.IsWhole ∧ b.IsWhole := by
  have hrounded {x y : Except Fault Binary64} (h : (x >>= fun x => y >>= fun y => .ok (double (rounded x y))) = .ok v) :
      ¬v.IsWhole := by
    obtain ⟨x, -, h⟩ := bind_eq_ok_iff.1 h
    obtain ⟨y, -, h⟩ := bind_eq_ok_iff.1 h
    cases h
    exact not_isWhole_double _
  cases a with
  | int m =>
    cases b with
    | int n =>
      cases h
      simp
    | double y => simp [hrounded h]
  | double x => cases b <;> simp [hrounded h]

theorem not_isWhole_div {a b v : Number} (h : a.div b = .ok v) : ¬v.IsWhole := by
  rcases div_eq a b with ⟨m, n, rfl, rfl⟩ | hd
  · simp only [div] at h
    split at h
    · cases h
    · split at h <;> cases h
      exact not_isWhole_double _
  · rw [hd] at h
    obtain ⟨x, -, h⟩ := bind_eq_ok_iff.1 h
    obtain ⟨y, -, h⟩ := bind_eq_ok_iff.1 h
    split at h <;> cases h
    exact not_isWhole_double _

end Number

theorem Operator.isWhole_checkSize_iff {o : Operator} {v w : Number} (h : o.checkSize v = .ok w) :
    w.IsWhole ↔ v.IsWhole := by
  cases v with
  | int n =>
    rw [checkSize] at h
    split at h <;> cases h
    simp
  | double x =>
    rw [checkSize] at h
    split at h <;> cases h
    simp

theorem Sign.isWhole_apply_iff {s : Sign} {a b v : Number} (h : s.apply a b = .ok v) :
    v.IsWhole ↔ s ≠ .dividedBy ∧ a.IsWhole ∧ b.IsWhole := by
  obtain ⟨w, hw, h⟩ := bind_eq_ok_iff.1 h
  rw [Operator.isWhole_checkSize_iff h]
  cases s with
  | plus => simp [Number.isWhole_combine_iff (mapError_eq_ok_iff.1 hw)]
  | minus => simp [Number.isWhole_combine_iff (mapError_eq_ok_iff.1 hw)]
  | times => simp [Number.isWhole_combine_iff (mapError_eq_ok_iff.1 hw)]
  | dividedBy =>
    simp only [operator, Operator.compute] at hw
    split at hw
    · cases hw
    · simp [Number.not_isWhole_div (mapError_eq_ok_iff.1 hw)]

/-! ### Texts of whole numbers -/

theorem Literal.isWhole_value_iff {l : List Char} {n : Number} (h : value l = .ok n) : n.IsWhole ↔ '.' ∉ l := by
  by_cases hp : '.' ∈ l
  · have hc : l.contains '.' = true := by simpa using hp
    simp only [value, hc, Bool.not_true, Bool.false_eq_true, if_false] at h
    split at h
    · cases h
    · split at h
      · cases h
      · split at h <;> cases h
        simp [hp]
  · rw [value_of_no_point hp] at h
    split at h
    · cases h
    · split at h <;> cases h
      simp [hp]

/-- Whether a token is neither a number with a point nor a division. -/
abbrev Token.IsWhole : Token Number → Prop :=
  Token.Suits Number.IsWhole (· ≠ .dividedBy)

theorem Token.isWhole_ofChar_iff (c : Char) : (ofChar c).IsWhole ↔ c ≠ '/' := by
  cases ht : (ofChar c : Token Number) with
  | operand n => exact absurd ht (ofChar_ne_operand c n)
  | sign s =>
    obtain rfl := eq_of_ofChar_eq_sign ht
    cases s <;> simp [IsWhole] <;> decide
  | opening =>
    obtain rfl := eq_of_ofChar_eq_opening ht
    simp [IsWhole]
  | closing =>
    obtain rfl := eq_of_ofChar_eq_closing ht
    simp [IsWhole]
  | other text =>
    refine iff_of_true trivial ?_
    rintro rfl
    cases ht

theorem isWhole_of_tokenize_iff {cs : List Char} {ts : List (Token Number)} (h : tokenize cs = .ok ts) :
    (∀ t ∈ ts, t.IsWhole) ↔ '/' ∉ cs ∧ '.' ∉ cs := by
  fun_induction tokenize cs generalizing ts with
  | case1 =>
    cases h
    simp
  | case2 c cs hc ih =>
    obtain ⟨n, hn, h⟩ := bind_eq_ok_iff.1 h
    obtain ⟨us, hu, h⟩ := bind_eq_ok_iff.1 h
    cases h
    have hslash : '/' ∉ c :: cs.takeWhile Literal.isLiteralChar := by
      intro hmem
      exact absurd (isLiteralChar_of_mem_run hc hmem) (by decide)
    have hcs : c :: cs = c :: cs.takeWhile Literal.isLiteralChar ++ cs.dropWhile Literal.isLiteralChar := by
      rw [List.cons_append, List.takeWhile_append_dropWhile]
    rw [List.forall_mem_cons, ih hu, Token.IsWhole, Token.suits_operand, Literal.isWhole_value_iff hn, hcs,
      List.mem_append, List.mem_append]
    tauto
  | case3 c cs hc ih =>
    obtain ⟨us, hu, h⟩ := bind_eq_ok_iff.1 h
    cases h
    have hpoint : '.' ≠ c := by
      rintro rfl
      exact hc (by decide)
    rw [List.forall_mem_cons, ih hu, Token.isWhole_ofChar_iff, List.mem_cons, List.mem_cons]
    tauto

theorem isWhole_evaluate_iff {s : String} {v : Number} (h : evaluate s = .ok v) :
    v.IsWhole ↔ '/' ∉ s.toList ∧ '.' ∉ s.toList := by
  rw [evaluate_eq] at h
  obtain ⟨ts, ht, hv⟩ := bind_eq_ok_iff.1 h
  rw [Group.resolve_suits_iff (fun _ _ _ _ => Sign.isWhole_apply_iff) hv, isWhole_of_tokenize_iff ht]
  have hmem {c : Char} (hc : Text.isBlank c = false) : c ∈ Text.dropBlanks s.toList ↔ c ∈ s.toList := by
    simp [Text.dropBlanks, hc]
  rw [hmem (by decide), hmem (by decide)]

theorem exists_int_tokens {ts : List (Token Number)} (h : ∀ t ∈ ts, t.IsWhole) :
    ∃ us : List (Token Int), ts = us.map (Token.map .int) := by
  induction ts with
  | nil => exact ⟨[], rfl⟩
  | cons t ts ih =>
    obtain ⟨ht, hts⟩ := List.forall_mem_cons.1 h
    obtain ⟨us, rfl⟩ := ih hts
    cases t with
    | operand v =>
      obtain ⟨n, rfl⟩ := ht
      exact ⟨.operand n :: us, rfl⟩
    | sign s => exact ⟨.sign s :: us, rfl⟩
    | opening => exact ⟨.opening :: us, rfl⟩
    | closing => exact ⟨.closing :: us, rfl⟩
    | other text => exact ⟨.other text :: us, rfl⟩

/-! ### Whole numbers of any size -/

/-- A whole number of any size, with the results that it was made from and itself as the last one. A literal is no
result. -/
structure Exact where
  value : Int
  results : List Int
  deriving DecidableEq

namespace Exact

def literal (n : Int) : Exact :=
  ⟨n, []⟩

def number (c : Exact) : Number :=
  .int c.value

/-- What a sign makes of two exact values, unless it divides. -/
def join? (s : Sign) (a b : Exact) : Option Exact :=
  (s.whole? a.value b.value).map fun r => ⟨r, a.results ++ b.results ++ [r]⟩

instance : Operand Exact :=
  ⟨fun s a b => (join? s a b).elim (.error (.operands (.unsupported "/" "int" "int"))) .ok, fun _ => true⟩

/-- All results have few enough bits. -/
def IsSmall (c : Exact) : Prop :=
  ∀ r ∈ c.results, Number.bitLength r ≤ Operator.maxBits

theorem isSmall_literal (n : Int) : (literal n).IsSmall := by
  simp [IsSmall, literal]

theorem not_isSmall_iff {c : Exact} : ¬c.IsSmall ↔ ∃ r ∈ c.results, Operator.maxBits < Number.bitLength r := by
  simp [IsSmall]

variable {s : Sign} {a b c : Exact}

theorem exists_join (hs : s ≠ .dividedBy) (a b : Exact) : ∃ c, join? s a b = some c := by
  cases s with
  | dividedBy => exact absurd rfl hs
  | _ => exact ⟨_, rfl⟩

theorem ne_dividedBy_of_join (h : join? s a b = some c) : s ≠ .dividedBy := by
  rintro rfl
  cases h

theorem isSmall_join_iff (h : join? s a b = some c) :
    c.IsSmall ↔ (a.IsSmall ∧ b.IsSmall) ∧ Number.bitLength c.value ≤ Operator.maxBits := by
  obtain ⟨r, -, rfl⟩ := Option.map_eq_some_iff.1 h
  simp only [IsSmall, List.forall_mem_append, List.forall_mem_singleton]

theorem apply_number (h : join? s a b = some c) :
    s.apply a.number b.number =
      if Operator.maxBits < Number.bitLength c.value then
        .error (.evaluation (.resultTooLong s.operator.symbol Operator.maxDigits))
      else .ok c.number := by
  obtain ⟨r, hr, rfl⟩ := Option.map_eq_some_iff.1 h
  rw [Sign.apply, Operator.apply, number, number, Sign.compute_whole hr, ok_bind, Operator.checkSize, number]

theorem lifts_apply (hs : s ≠ .dividedBy) (ha : a.IsSmall) (hb : b.IsSmall) :
    Lifts number IsSmall (Operand.apply s a.number b.number) (Operand.apply s a b) := by
  obtain ⟨c, hc⟩ := exists_join hs a b
  have hexact : (Operand.apply s a b : Except Failure Exact) = .ok c := by
    change (join? s a b).elim _ _ = _
    rw [hc, Option.elim_some]
  have hnumber : (Operand.apply s a.number b.number : Except Failure Number) = _ := apply_number hc
  rw [hexact, hnumber]
  split
  · exact .error _ _
  · next hbits => exact .ok ((isSmall_join_iff hc).2 ⟨⟨ha, hb⟩, Nat.not_lt.1 hbits⟩) rfl

end Exact

/-- A value of whole tokens is the one that they have without any limit, and all results are within it. -/
theorem Group.exists_exact {ts : List (Token Int)} (hts : ∀ t ∈ ts.map (Token.map .int), t.IsWhole) {v : Number}
    (h : resolve (ts.map (Token.map .int)) = .ok v) :
    ∃ c : Exact, resolve (ts.map (Token.map .literal)) = .ok c ∧ c.IsSmall ∧ c.number = v := by
  have hmap : ts.map (Token.map .int) = (ts.map (Token.map .literal)).map (Token.map Exact.number) := by
    rw [List.map_map]
    exact List.map_congr_left fun t _ => (Token.map_map Exact.number .literal t).symm
  have hsuits : ∀ t ∈ ts.map (Token.map .literal), t.Suits Exact.IsSmall (· ≠ .dividedBy) := by
    intro t ht
    obtain ⟨u, hu, rfl⟩ := List.mem_map.1 ht
    have hwhole := hts _ (List.mem_map_of_mem hu)
    cases u with
    | operand n => exact Exact.isSmall_literal n
    | _ => exact hwhole
  rw [hmap] at h
  exact lifts_resolve (fun s a b => Exact.lifts_apply) (fun _ _ => rfl) hsuits v h

/-! ### Well-formed expressions -/

/-- The exact value of a tree of whole literals without divisions. -/
def Tree.whole? : Tree → Option Exact
  | .literal cs =>
    match Literal.value cs with
    | .ok (.int n) => some (.literal n)
    | _ => none
  | .join s l r => do
    let a ← l.whole?
    let b ← r.whole?
    Exact.join? s a b

theorem Tree.value_cases {t : Tree} {c : Exact} (h : t.whole? = some c) :
    (t.value = .ok c.number ∧ c.IsSmall) ∨ (∃ e, t.value = .error e) ∧ ¬c.IsSmall := by
  induction t generalizing c with
  | literal cs =>
    simp only [whole?] at h
    split at h
    · next n hn =>
      cases h
      exact .inl ⟨hn, Exact.isSmall_literal n⟩
    · cases h
  | join s l r ihl ihr =>
    obtain ⟨a, ha, h⟩ := Option.bind_eq_some_iff.1 h
    obtain ⟨b, hb, h⟩ := Option.bind_eq_some_iff.1 h
    rw [value, Exact.isSmall_join_iff h]
    rcases ihl ha with ⟨hl, hla⟩ | ⟨⟨e, hl⟩, hla⟩
    · rcases ihr hb with ⟨hr, hrb⟩ | ⟨⟨e, hr⟩, hrb⟩
      · rw [hl, hr, ok_bind, ok_bind, Exact.apply_number h]
        by_cases hbits : Operator.maxBits < Number.bitLength c.value
        · exact .inr ⟨⟨_, if_pos hbits⟩, fun hc => Nat.not_lt.2 hc.2 hbits⟩
        · exact .inl ⟨if_neg hbits, ⟨hla, hrb⟩, Nat.not_lt.1 hbits⟩
      · exact .inr ⟨⟨e, by rw [hl, hr]; rfl⟩, fun hc => hrb hc.1.2⟩
    · exact .inr ⟨⟨e, by rw [hl]; rfl⟩, fun hc => hla hc.1.1⟩

def Failure.IsOverflow (e : Failure) : Prop :=
  ∃ err, e = .evaluation err ∧ err.kind = .numericOverflow

def FlatTree.IsWhole : FlatTree → Prop
  | .number n => n.IsWhole
  | .join s l r => s ≠ .dividedBy ∧ l.IsWhole ∧ r.IsWhole

theorem Sign.meets_apply {s : Sign} (hs : s ≠ .dividedBy) {a b : Number} (ha : a.IsWhole) (hb : b.IsWhole) :
    Meets Number.IsWhole Failure.IsOverflow (s.apply a b) := by
  obtain ⟨m, rfl⟩ := ha
  obtain ⟨n, rfl⟩ := hb
  obtain ⟨c, hc⟩ := Exact.exists_join hs (.literal m) (.literal n)
  have happly := Exact.apply_number hc
  change s.apply (.int m) (.int n) = _ at happly
  rw [happly]
  split
  · exact ⟨_, rfl, rfl⟩
  · exact ⟨_, rfl⟩

theorem FlatTree.meets_value {t : FlatTree} (h : t.IsWhole) : Meets Number.IsWhole Failure.IsOverflow t.value := by
  induction t with
  | number n => exact h
  | join s l r ihl ihr =>
    obtain ⟨hs, hl, hr⟩ := h
    exact (ihl hl).bind fun a ha => (ihr hr).bind fun b hb => Sign.meets_apply hs ha hb

namespace Formula

variable {f : Formula}

theorem exists_exact (ha : f.tree.Accepted) (hslash : '/' ∉ f.text) (hpoint : '.' ∉ f.text) :
    ∃ c, f.tree.whole? = some c := by
  induction f with
  | literal cs =>
    obtain ⟨v, hv⟩ := ha
    obtain ⟨n, rfl⟩ := (Literal.isWhole_value_iff hv).2 hpoint
    exact ⟨.literal n, by simp [tree, Tree.whole?, hv]⟩
  | group f ih =>
    simp only [text, List.cons_append, List.mem_cons, List.mem_append, not_or] at hslash hpoint
    exact ih ha hslash.2.1 hpoint.2.1
  | join s l r ihl ihr =>
    simp only [text, List.mem_append, List.mem_cons, not_or] at hslash hpoint
    have hs : s ≠ .dividedBy := by
      rintro rfl
      exact hslash.2.1 rfl
    obtain ⟨a, ha'⟩ := ihl ha.1 hslash.1 hpoint.1
    obtain ⟨b, hb'⟩ := ihr ha.2 hslash.2.2 hpoint.2.2
    obtain ⟨c, hc⟩ := Exact.exists_join hs a b
    exact ⟨c, by simp only [tree, Tree.whole?, ha', hb', Option.bind_eq_bind, Option.bind_some, hc]⟩

theorem meets_flatten {c : Exact} (h : f.tree.whole? = some c) : Meets FlatTree.IsWhole Failure.IsOverflow f.flatten := by
  induction f generalizing c with
  | literal cs =>
    simp only [tree, Tree.whole?] at h
    split at h
    · next n hn =>
      rw [flatten, hn]
      exact ⟨n, rfl⟩
    · cases h
  | group f ih => exact (ih h).bind fun t ht => (FlatTree.meets_value ht).bind fun n hn => hn
  | join s l r ihl ihr =>
    obtain ⟨a, ha, h⟩ := Option.bind_eq_some_iff.1 h
    obtain ⟨b, hb, h⟩ := Option.bind_eq_some_iff.1 h
    exact (ihr hb).bind fun u hu => (ihl ha).bind fun t ht => ⟨Exact.ne_dividedBy_of_join h, ht, hu⟩

/-- A well-formed expression of whole numbers without divisions has its exact value, unless a result has too many bits. -/
theorem overflow_of_evaluate (hw : f.WellFormed) (ha : f.tree.Accepted) {s : String}
    (hs : Text.dropBlanks s.toList = f.text) {c : Exact} (h : f.tree.whole? = some c) {e : Failure}
    (he : evaluate s = .error e) : e.IsOverflow ∧ ¬c.IsSmall := by
  rw [evaluate_text hw ha hs] at he
  constructor
  · have hresolved : Meets Number.IsWhole Failure.IsOverflow f.resolved :=
      (meets_flatten h).bind fun t ht => FlatTree.meets_value ht
    rwa [he] at hresolved
  · rcases Tree.value_cases h with ⟨hv, -⟩ | ⟨-, hc⟩
    · rw [← value_eq_tree_value, ← resolved_eq_ok_iff, he] at hv
      cases hv
    · exact hc

end Formula

/-- A value is whole exactly if its text has no division and no point. It is then the value that the tokens have without any
limit, and all results are within it. An expression of whole numbers without divisions is refused only for its size, and only
if a result is beyond the limit. -/
theorem evaluate_exact (s : String) :
    (∀ v, evaluate s = .ok v →
        ((∃ n, v = .int n) ↔ '/' ∉ s.toList ∧ '.' ∉ s.toList) ∧
          ('/' ∉ s.toList → '.' ∉ s.toList →
            ∃ (ts : List (Token Int)) (c : Exact),
              tokenize (Text.dropBlanks s.toList) = .ok (ts.map (Token.map .int)) ∧
                Group.resolve (ts.map (Token.map .literal)) = .ok c ∧ v = .int c.value ∧
                  ∀ r ∈ c.results, Number.bitLength r ≤ Operator.maxBits)) ∧
      ∀ f : Formula, f.WellFormed → f.tree.Accepted → Text.dropBlanks s.toList = f.text → '/' ∉ s.toList →
        '.' ∉ s.toList → ∃ c, f.tree.whole? = some c ∧
          ∀ e, evaluate s = .error e →
            (∃ err, e = .evaluation err ∧ err.kind = .numericOverflow) ∧
              ∃ r ∈ c.results, Operator.maxBits < Number.bitLength r := by
  have hnotMem {c : Char} (hc : c ∉ s.toList) : c ∉ Text.dropBlanks s.toList :=
    fun hmem => hc (List.mem_of_mem_filter hmem)
  constructor
  · intro v hv
    refine ⟨isWhole_evaluate_iff hv, ?_⟩
    intro hslash hpoint
    rw [evaluate_eq] at hv
    obtain ⟨ts, ht, hv⟩ := bind_eq_ok_iff.1 hv
    have hwhole := (isWhole_of_tokenize_iff ht).2 ⟨hnotMem hslash, hnotMem hpoint⟩
    obtain ⟨us, rfl⟩ := exists_int_tokens hwhole
    obtain ⟨c, hc, hsmall, rfl⟩ := Group.exists_exact hwhole hv
    exact ⟨us, c, ht, hc, rfl, hsmall⟩
  · intro f hw ha hs hslash hpoint
    obtain ⟨c, hc⟩ := Formula.exists_exact ha (hs ▸ hnotMem hslash) (hs ▸ hnotMem hpoint)
    refine ⟨c, hc, ?_⟩
    intro e he
    rw [← Exact.not_isSmall_iff]
    exact Formula.overflow_of_evaluate hw ha hs hc he

def ninesFormula (count : Nat) : Formula :=
  .join .plus (.literal (List.replicate count '9')) (.literal ['0'])

theorem wellFormed_ninesFormula {count : Nat} (h : count ≠ 0) : (ninesFormula count).WellFormed := by
  have hlevel : Sign.plus.precedence < 3 := by decide
  refine ⟨⟨by simpa using h, ?_⟩, ⟨by simp, List.forall_mem_singleton.2 (by decide)⟩, hlevel.le, hlevel⟩
  intro c hc
  rw [List.eq_of_mem_replicate hc]
  decide

theorem eq_of_mem_text_ninesFormula {count : Nat} {c : Char} (h : c ∈ (ninesFormula count).text) :
    c = '9' ∨ c = '+' ∨ c = '0' := by
  rcases List.mem_append.1 h with h | h
  · exact .inl (List.eq_of_mem_replicate h)
  · have h : c ∈ ['+', '0'] := h
    exact .inr (by simpa using h)

/-- A value with a group, and a sum of one bit too many. -/
theorem evaluate_exact_nines :
    (∃ (ts : List (Token Int)) (c : Exact),
        tokenize (Text.dropBlanks "2 * (3 - 1)".toList) = .ok (ts.map (Token.map .int)) ∧
          Group.resolve (ts.map (Token.map .literal)) = .ok c ∧ Number.int 4 = .int c.value ∧
            ∀ r ∈ c.results, Number.bitLength r ≤ Operator.maxBits) ∧
      ∃ c, (ninesFormula 4000).tree.whole? = some c ∧
        (∃ e, evaluate (String.ofList (ninesFormula 4000).text) = .error e) ∧
          ∃ r ∈ c.results, Operator.maxBits < Number.bitLength r := by
  have hvalue : evaluate "2 * (3 - 1)" = .ok (.int 4) := by decide +kernel
  have hw := wellFormed_ninesFormula (show 4000 ≠ 0 by decide)
  have ha : (ninesFormula 4000).tree.Accepted := ⟨⟨.int ((10 ^ 4000 - 1 : Nat) : Int), by decide +kernel⟩, ⟨.int 0, rfl⟩⟩
  have htext : Text.dropBlanks (String.ofList (ninesFormula 4000).text).toList = (ninesFormula 4000).text := by
    rw [String.toList_ofList]
    apply List.filter_eq_self.2
    intro c hc
    rcases eq_of_mem_text_ninesFormula hc with rfl | rfl | rfl <;> decide
  have herror : evaluate (String.ofList (ninesFormula 4000).text) =
      .error (.evaluation (.resultTooLong '+' Operator.maxDigits)) := by
    rw [Formula.evaluate_text hw ha htext]
    decide +kernel
  have hnotMem {c : Char} (hc : ¬(c = '9' ∨ c = '+' ∨ c = '0')) : c ∉ (String.ofList (ninesFormula 4000).text).toList := by
    rw [String.toList_ofList]
    exact fun hmem => hc (eq_of_mem_text_ninesFormula hmem)
  obtain ⟨c, hc, hlarge⟩ := (evaluate_exact _).2 (ninesFormula 4000) hw ha htext (hnotMem (by decide)) (hnotMem (by decide))
  refine ⟨((evaluate_exact _).1 _ hvalue).2 (by decide) (by decide), c, hc, ⟨_, herror⟩, (hlarge _ herror).2⟩

end Reckoner
