import Mathlib.Data.List.SplitBy
import Mathlib.Data.List.TakeWhile
import Mathlib.Tactic.Common
import Reckoner.Expr.Chain
import Reckoner.Proofs.Outcome

/-!
# Tokens of a text

A text is cut wherever two neighbours are not both characters of literals, and each part is one token: a longest run of
digits and points, or a single other character. Reading the parts from left to right is what `tokenize` does
(`tokenize_eq_mapM`), so texts are tokenized part by part wherever a cut falls (`tokenize_append`).
-/
namespace Reckoner

open Outcome

/-- The longest runs of literal characters and the other characters one by one. -/
def lexemes (cs : List Char) : List (List Char) :=
  cs.splitBy fun a b => Literal.isLiteralChar a && Literal.isLiteralChar b

def Token.ofLexeme : List Char → Except Failure (Token Number)
  | [] => .ok (.other "")
  | c :: cs =>
    if Literal.isLiteralChar c then do
      let n ← Literal.value (c :: cs)
      return .operand n
    else .ok (.ofChar c)

namespace Token

variable {α : Type} {c : Char}

theorem ofLexeme_run {l : List Char} (h : Literal.IsRun l) :
    ofLexeme l = Literal.value l >>= fun n => .ok (.operand n) := by
  obtain ⟨hne, hchars⟩ := h
  cases l with
  | nil => exact absurd rfl hne
  | cons c cs => simp [ofLexeme, hchars c]

theorem ofLexeme_other (h : Literal.isLiteralChar c = false) : ofLexeme [c] = .ok (.ofChar c) := by
  simp [ofLexeme, h]

theorem exists_ofLexeme_iff {l : List Char} (h : Literal.IsRun l) :
    (∃ t, ofLexeme l = .ok t) ↔ ∃ n, Literal.value l = .ok n := by
  rw [ofLexeme_run h]
  cases Literal.value l <;> simp

theorem value_of_ofLexeme {l : List Char} {f : Failure} (h : ofLexeme l = .error f) : Literal.value l = .error f := by
  cases l with
  | nil => cases h
  | cons c cs =>
    rw [ofLexeme] at h
    split at h
    · exact eq_error_of_bind_ok h
    · cases h

theorem symbol?_ofChar (c : Char) : (ofChar c : Token α).symbol? = some (String.singleton c) := by
  unfold ofChar
  split
  · rfl
  · rfl
  · split
    · next s hs => rw [Sign.eq_symbol_of_ofChar? hs, symbol?]
    · rfl

theorem ofChar_ne_operand (c : Char) (v : α) : ofChar c ≠ .operand v := by
  unfold ofChar
  split
  · simp
  · simp
  · split <;> simp

theorem eq_of_ofChar_eq_opening (h : (ofChar c : Token α) = .opening) : c = '(' := by
  unfold ofChar at h
  split at h
  · rfl
  · cases h
  · split at h <;> cases h

theorem eq_of_ofChar_eq_closing (h : (ofChar c : Token α) = .closing) : c = ')' := by
  unfold ofChar at h
  split at h
  · cases h
  · rfl
  · split at h <;> cases h

theorem eq_of_ofChar_eq_sign {s : Sign} (h : (ofChar c : Token α) = .sign s) : c = s.symbol := by
  unfold ofChar at h
  split at h
  · cases h
  · cases h
  · split at h
    · next s' hs =>
      cases h
      exact Sign.eq_symbol_of_ofChar? hs
    · cases h

end Token

/-- Where two texts meet, they are not both characters of literals. -/
def IsCut (xs ys : List Char) : Prop :=
  ∀ a ∈ xs.getLast?, ∀ b ∈ ys.head?, (Literal.isLiteralChar a && Literal.isLiteralChar b) = false

theorem lexemes_append {xs ys : List Char} (h : IsCut xs ys) : lexemes (xs ++ ys) = lexemes xs ++ lexemes ys :=
  List.splitBy_append h

theorem lexemes_literal {l : List Char} (hl : l ≠ []) (h : ∀ c ∈ l, Literal.isLiteralChar c = true) :
    lexemes l = [l] := by
  apply List.splitBy_of_isChain hl
  apply List.Pairwise.isChain
  exact List.pairwise_of_forall_mem_list fun a ha b hb => by simp [h a ha, h b hb]

theorem lexemes_singleton (c : Char) : lexemes [c] = [[c]] :=
  List.splitBy_of_isChain (by simp) (by simp)

theorem isCut_of_getLast? {xs : List Char} (h : ∀ c ∈ xs.getLast?, Literal.isLiteralChar c = false) (ys : List Char) :
    IsCut xs ys := by
  intro a ha b _
  simp [h a ha]

theorem isCut_of_head? {ys : List Char} (h : ∀ c ∈ ys.head?, Literal.isLiteralChar c = false) (xs : List Char) :
    IsCut xs ys := by
  intro a _ b hb
  simp [h b hb]

theorem isCut_cons_of_not_literal {c : Char} (h : Literal.isLiteralChar c = false) (xs ys : List Char) :
    IsCut xs (c :: ys) :=
  isCut_of_head? (by simpa using h) xs

theorem isCut_concat_of_not_literal {c : Char} (h : Literal.isLiteralChar c = false) (ys : List Char) :
    IsCut [c] ys :=
  isCut_of_getLast? (by simpa using h) ys

theorem isCut_takeWhile_dropWhile (c : Char) (cs : List Char) :
    IsCut (c :: cs.takeWhile Literal.isLiteralChar) (cs.dropWhile Literal.isLiteralChar) := by
  refine isCut_of_head? (fun b hb => ?_) _
  have hstop := List.head?_dropWhile_not Literal.isLiteralChar cs
  rw [Option.mem_def.1 hb] at hstop
  simpa using hstop

theorem isLiteralChar_of_mem_run {c : Char} (hc : Literal.isLiteralChar c = true) {cs : List Char} {a : Char}
    (ha : a ∈ c :: cs.takeWhile Literal.isLiteralChar) : Literal.isLiteralChar a = true := by
  rcases List.mem_cons.1 ha with rfl | ha
  · exact hc
  · exact List.mem_takeWhile_imp ha

/-- A text is read part by part, and its first part without a value is its failure. -/
theorem tokenize_eq_mapM (cs : List Char) : tokenize cs = (lexemes cs).mapM Token.ofLexeme := by
  fun_induction tokenize cs with
  | case1 => rfl
  | case2 c cs hc ih =>
    have hrun : ∀ a ∈ c :: cs.takeWhile Literal.isLiteralChar, Literal.isLiteralChar a = true :=
      fun a => isLiteralChar_of_mem_run hc
    have hcut := lexemes_append (isCut_takeWhile_dropWhile c cs)
    rw [List.cons_append, List.takeWhile_append_dropWhile, lexemes_literal (by simp) hrun] at hcut
    rw [hcut, List.singleton_append, List.mapM_cons, ih]
    simp only [Token.ofLexeme, hc, if_true, bind_assoc, pure_eq_ok, ok_bind]
  | case3 c cs hc ih =>
    have hc' : Literal.isLiteralChar c = false := by simpa using hc
    have hcut := lexemes_append (isCut_concat_of_not_literal hc' cs)
    rw [List.singleton_append, lexemes_singleton, List.singleton_append] at hcut
    rw [hcut, List.mapM_cons, ih]
    simp [Token.ofLexeme, hc']

theorem tokenize_append {xs ys : List Char} (h : IsCut xs ys) :
    tokenize (xs ++ ys) = tokenize xs >>= fun ts => tokenize ys >>= fun us => .ok (ts ++ us) := by
  simp only [tokenize_eq_mapM, lexemes_append h, List.mapM_append, pure_eq_ok]

theorem tokenize_between {xs ys : List Char} (hbefore : ∀ c ∈ xs.getLast?, Literal.isLiteralChar c = false)
    (hafter : ∀ c ∈ ys.head?, Literal.isLiteralChar c = false) (cs : List Char) :
    tokenize (xs ++ cs ++ ys) = tokenize xs >>= fun ps => tokenize cs >>= fun ts => tokenize ys >>= fun qs =>
      .ok (ps ++ ts ++ qs) := by
  rw [tokenize_append (isCut_of_head? hafter _), tokenize_append (isCut_of_getLast? hbefore _)]
  simp only [bind_assoc, ok_bind]

theorem tokenize_literal {l : List Char} (hl : l ≠ []) (h : ∀ c ∈ l, Literal.isLiteralChar c = true) :
    tokenize l = Literal.value l >>= fun n => .ok [.operand n] := by
  rw [tokenize_eq_mapM, lexemes_literal hl h]
  simp [Token.ofLexeme_run ⟨hl, h⟩]

theorem tokenize_singleton {c : Char} (h : Literal.isLiteralChar c = false) :
    tokenize [c] = .ok [.ofChar c] := by
  simp [tokenize_eq_mapM, lexemes_singleton, Token.ofLexeme_other h]

theorem tokenize_cons {c : Char} (h : Literal.isLiteralChar c = false) (cs : List Char) :
    tokenize (c :: cs) = tokenize cs >>= fun ts => .ok (.ofChar c :: ts) := by
  rw [← List.singleton_append, tokenize_append (isCut_concat_of_not_literal h cs), tokenize_singleton h]
  rfl

theorem tokenize_append_cons {c : Char} (h : Literal.isLiteralChar c = false) (xs ys : List Char) :
    tokenize (xs ++ c :: ys) =
      tokenize xs >>= fun ts => tokenize ys >>= fun us => .ok (ts ++ .ofChar c :: us) := by
  rw [tokenize_append (isCut_cons_of_not_literal h xs ys), tokenize_cons h]
  simp only [bind_assoc, ok_bind]

theorem tokenize_append_sign (xs : List Char) (s : Sign) (ys : List Char) :
    tokenize (xs ++ s.symbol :: ys) =
      tokenize xs >>= fun ts => tokenize ys >>= fun us => .ok (ts ++ .sign s :: us) := by
  have hs : Literal.isLiteralChar s.symbol = false := by cases s <;> decide
  have ht : (Token.ofChar s.symbol : Token Number) = .sign s := by cases s <;> rfl
  rw [tokenize_append_cons hs, ht]

theorem tokenize_group (cs : List Char) :
    tokenize ('(' :: cs ++ [')']) = tokenize cs >>= fun ts => .ok (.opening :: (ts ++ [.closing])) := by
  have hopen : Literal.isLiteralChar '(' = false := by decide
  have hclose : Literal.isLiteralChar ')' = false := by decide
  rw [List.cons_append, tokenize_cons hopen, tokenize_append_cons hclose, tokenize]
  simp only [bind_assoc, ok_bind]
  rfl

/-! ### Texts of tokens -/

theorem eq_nil_of_tokenize {cs : List Char} (h : tokenize cs = .ok []) : cs = [] := by
  cases cs with
  | nil => rfl
  | cons c cs =>
    rw [tokenize] at h
    split at h <;> obtain ⟨_, _, h⟩ := bind_eq_ok_iff.1 h
    · obtain ⟨_, _, h⟩ := bind_eq_ok_iff.1 h
      cases h
    · cases h

theorem tokenize_eq_cons {cs : List Char} {t : Token Number} {ts : List (Token Number)}
    (h : tokenize cs = .ok (t :: ts)) :
    (∃ l rest n, cs = l ++ rest ∧ Literal.IsRun l ∧ Literal.value l = .ok n ∧ t = .operand n ∧ tokenize rest = .ok ts ∧
        ∀ c ∈ rest.head?, Literal.isLiteralChar c = false) ∨
      ∃ c rest, cs = c :: rest ∧ Literal.isLiteralChar c = false ∧ t = .ofChar c ∧ tokenize rest = .ok ts := by
  cases cs with
  | nil => simp [tokenize] at h
  | cons c cs =>
    rw [tokenize] at h
    split at h
    · next hc =>
      obtain ⟨n, hn, h⟩ := bind_eq_ok_iff.1 h
      obtain ⟨us, hu, h⟩ := bind_eq_ok_iff.1 h
      cases h
      refine .inl ⟨_, _, n, ?_, ⟨List.cons_ne_nil _ _, fun a => isLiteralChar_of_mem_run hc⟩, hn, rfl, hu, ?_⟩
      · rw [List.cons_append, List.takeWhile_append_dropWhile]
      · intro a ha
        have hhead := List.head?_dropWhile_not Literal.isLiteralChar cs
        rw [Option.mem_def.1 ha] at hhead
        simpa using hhead
    · next hc =>
      obtain ⟨us, hu, h⟩ := bind_eq_ok_iff.1 h
      cases h
      exact .inr ⟨c, cs, rfl, by simpa using hc, rfl, hu⟩

theorem tokenize_eq_operand_cons {cs : List Char} {n : Number} {ts : List (Token Number)}
    (h : tokenize cs = .ok (.operand n :: ts)) :
    ∃ l rest, cs = l ++ rest ∧ Literal.IsRun l ∧ Literal.value l = .ok n ∧ tokenize rest = .ok ts := by
  rcases tokenize_eq_cons h with ⟨l, rest, m, hcs, hl, hm, ht, hrest, -⟩ | ⟨c, rest, -, -, ht, -⟩
  · cases ht
    exact ⟨l, rest, hcs, hl, hm, hrest⟩
  · exact absurd ht.symm (Token.ofChar_ne_operand c n)

theorem tokenize_eq_sign_cons {cs : List Char} {s : Sign} {ts : List (Token Number)}
    (h : tokenize cs = .ok (.sign s :: ts)) : ∃ rest, cs = s.symbol :: rest ∧ tokenize rest = .ok ts := by
  rcases tokenize_eq_cons h with ⟨l, rest, m, -, -, -, ht, -, -⟩ | ⟨c, rest, hcs, -, ht, hrest⟩
  · cases ht
  · exact ⟨rest, by rw [hcs, Token.eq_of_ofChar_eq_sign ht.symm], hrest⟩

end Reckoner
