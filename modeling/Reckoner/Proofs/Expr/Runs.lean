import Mathlib.Data.List.Forall2
import Mathlib.Tactic.Common
import Reckoner.Expr.Runs
import Reckoner.Expr.Symbols
import Reckoner.Proofs.Expr.Chain

/-!
# Tokens by longest runs

The parts that a text is read in are its only division into longest runs and single other characters
(`isDivision_iff`), so whether there are tokens, which ones, and which failure there is instead is told by the longest
runs. A scan that sets the characters of a run aside keeps the tokens that are to come out of it (`Scan.outlook_take`),
so it finds the same.
-/
namespace Reckoner

open Outcome

/-! ### The parts of a text -/

theorem flatten_lexemes (cs : List Char) : (lexemes cs).flatten = cs :=
  List.flatten_splitBy ..

theorem isRun_or_isOther {cs p : List Char} (h : p ∈ lexemes cs) : Literal.IsRun p ∨ Literal.IsOther p := by
  have hchain := List.isChain_of_mem_splitBy h
  match p, List.ne_nil_of_mem_splitBy h with
  | [c], _ =>
    cases hc : Literal.isLiteralChar c with
    | true => exact .inl ⟨by simp, by simpa using hc⟩
    | false => exact .inr ⟨c, rfl, hc⟩
  | a :: b :: p, hne =>
    have htrans : IsTrans Char fun a b => (Literal.isLiteralChar a && Literal.isLiteralChar b) = true := by
      refine ⟨fun a b c hab hbc => ?_⟩
      rw [Bool.and_eq_true] at hab hbc ⊢
      exact ⟨hab.1, hbc.2⟩
    have hjoined := (List.pairwise_cons.1 (List.isChain_iff_pairwise.1 hchain)).1
    simp only [Bool.and_eq_true] at hjoined
    exact .inl ⟨hne, List.forall_mem_cons.2 ⟨(hjoined b List.mem_cons_self).1, fun c hc => (hjoined c hc).2⟩⟩

theorem isChain_lexemes (cs : List Char) :
    (lexemes cs).IsChain fun p q => ¬(Literal.IsRun p ∧ Literal.IsRun q) := by
  refine (List.isChain_getLast_head_splitBy _ cs).imp ?_
  rintro p q ⟨hp, hq, h⟩ ⟨hrunp, hrunq⟩
  rw [hrunp.2 _ (List.getLast_mem hp), hrunq.2 _ (List.head_mem hq)] at h
  cases h

/-! ### Longest runs -/

theorem isLongestRun_of_lexemes {cs l : List Char} {ps qs : List (List Char)} (h : lexemes cs = ps ++ l :: qs)
    (hl : Literal.IsRun l) : Literal.IsLongestRun cs ps.flatten l qs.flatten := by
  have hpart (p : List Char) (hp : p ∈ ps ++ l :: qs) : Literal.IsRun p ∨ Literal.IsOther p :=
    isRun_or_isOther (h ▸ hp)
  have hchain := isChain_lexemes cs
  rw [h, List.isChain_append, List.isChain_cons] at hchain
  obtain ⟨-, ⟨hafter, -⟩, hbefore⟩ := hchain
  refine ⟨by rw [← flatten_lexemes cs, h]; simp, hl, ?_, ?_⟩
  · rcases List.eq_nil_or_concat ps with rfl | ⟨ps, p, rfl⟩
    · simp
    · rcases hpart p (by simp) with hp | ⟨c, rfl, hc⟩
      · exact absurd ⟨hp, hl⟩ (hbefore p (by simp) l (by simp))
      · simpa using hc
  · cases qs with
    | nil => simp
    | cons q qs =>
      rcases hpart q (by simp) with hq | ⟨c, rfl, hc⟩
      · exact absurd ⟨hl, hq⟩ (hafter q (by simp))
      · simpa using hc

namespace Literal.IsLongestRun

variable {cs before l after : List Char}

theorem lexemes_eq (h : IsLongestRun cs before l after) : lexemes cs = lexemes before ++ l :: lexemes after := by
  rw [h.eq_append, List.append_assoc, lexemes_append (isCut_of_getLast? h.starts _),
    lexemes_append (isCut_of_head? h.ends _), lexemes_literal h.isRun.1 h.isRun.2, List.singleton_append]

theorem tokenize_eq (h : IsLongestRun cs before l after) :
    tokenize cs = tokenize before >>= fun ts => value l >>= fun n => tokenize after >>= fun us =>
      .ok (ts ++ .operand n :: us) := by
  rw [h.eq_append, tokenize_between h.starts h.ends, tokenize_literal h.isRun.1 h.isRun.2]
  simp only [bind_assoc, ok_bind, List.append_assoc, List.singleton_append]

theorem of_before (h : IsLongestRun cs before l after) {xs m ys : List Char} (hm : IsLongestRun before xs m ys) :
    IsLongestRun cs xs m (ys ++ l ++ after) := by
  refine ⟨?_, hm.isRun, hm.starts, ?_⟩
  · rw [h.eq_append, hm.eq_append]
    simp only [List.append_assoc]
  · cases ys with
    | cons c ys => simpa using hm.ends
    | nil =>
      -- The two runs would meet and be one.
      obtain ⟨hne, hchars⟩ := hm.isRun
      have hlast : m.getLast hne ∈ before.getLast? := by
        rw [hm.eq_append]
        simp [List.getLast?_eq_some_getLast hne]
      have hno := h.starts _ hlast
      rw [hchars _ (List.getLast_mem hne)] at hno
      cases hno

theorem length_lt (h : IsLongestRun cs before l after) : before.length < cs.length := by
  have hl : 0 < l.length := List.length_pos_of_ne_nil h.isRun.1
  rw [h.eq_append, List.length_append, List.length_append]
  omega

theorem mem_of_length_lt (h : IsLongestRun cs before l after) {ps qs : List (List Char)}
    (hparts : lexemes cs = ps ++ qs) (hlength : before.length < ps.flatten.length) : l ∈ ps := by
  rw [h.lexemes_eq] at hparts
  rcases List.append_eq_append_iff.1 hparts with ⟨rs, hps, hrs⟩ | ⟨rs, hbefore, -⟩
  · cases rs with
    | nil =>
      -- The run begins behind all of `ps`.
      rw [hps, List.append_nil, flatten_lexemes] at hlength
      exact absurd hlength (Nat.lt_irrefl _)
    | cons r rs =>
      obtain ⟨rfl, -⟩ := List.cons.inj hrs
      simp [hps]
  · rw [← flatten_lexemes before, hbefore, List.flatten_append, List.length_append] at hlength
    omega

end Literal.IsLongestRun

/-! ### The division of a text -/

theorem isDivision_lexemes (cs : List Char) : IsDivision cs (lexemes cs) := by
  refine ⟨(flatten_lexemes cs).symm, fun ps p qs h => ?_⟩
  have hmem : p ∈ lexemes cs := by rw [h]; simp
  rcases isRun_or_isOther hmem with hrun | hother
  · exact .inl (isLongestRun_of_lexemes h hrun)
  · exact .inr hother

namespace IsDivision

variable {cs p : List Char} {parts : List (List Char)}

theorem tail (h : IsDivision cs (p :: parts)) : IsDivision parts.flatten parts := by
  refine ⟨rfl, ?_⟩
  rintro ps q qs rfl
  rcases h.part (p :: ps) q qs rfl with hrun | hother
  · refine .inl ⟨by simp, hrun.isRun, fun c hc => hrun.starts c ?_, hrun.ends⟩
    rw [List.flatten_cons, List.getLast?_append, Option.mem_def.1 hc]
    rfl
  · exact .inr hother

theorem lexemes_eq_cons (h : IsDivision cs (p :: parts)) : lexemes cs = p :: lexemes parts.flatten := by
  rcases h.part [] p parts rfl with hrun | ⟨c, rfl, hc⟩
  · exact hrun.lexemes_eq
  · rw [h.eq_flatten, List.flatten_cons, lexemes_append (isCut_concat_of_not_literal hc _), lexemes_singleton,
      List.singleton_append]

theorem eq_lexemes (h : IsDivision cs parts) : parts = lexemes cs := by
  induction parts generalizing cs with
  | nil => rw [h.eq_flatten]; rfl
  | cons p parts ih => rw [h.lexemes_eq_cons, ← ih h.tail]

end IsDivision

theorem isDivision_iff {cs : List Char} {parts : List (List Char)} : IsDivision cs parts ↔ parts = lexemes cs :=
  ⟨IsDivision.eq_lexemes, fun h => h ▸ isDivision_lexemes cs⟩

/-! ### Values and failures -/

namespace Token

theorem Reads.ofLexeme_eq {p : List Char} {t : Token Number} (h : Reads p t) : ofLexeme p = .ok t := by
  cases h with
  | run isRun value => rw [ofLexeme_run isRun, value, ok_bind]
  | single other => exact ofLexeme_other other

theorem reads_of_ofLexeme {p : List Char} {t : Token Number} (hp : Literal.IsRun p ∨ Literal.IsOther p)
    (h : ofLexeme p = .ok t) : Reads p t := by
  rcases hp with hrun | ⟨c, rfl, hc⟩
  · rw [ofLexeme_run hrun] at h
    obtain ⟨n, hn, h⟩ := bind_eq_ok_iff.1 h
    cases h
    exact .run hrun hn
  · rw [ofLexeme_other hc] at h
    cases h
    exact .single hc

end Token

variable {cs : List Char}

theorem tokenize_eq_ok_iff {ts : List (Token Number)} :
    tokenize cs = .ok ts ↔ ∃ parts, IsDivision cs parts ∧ List.Forall₂ Token.Reads parts ts := by
  simp only [isDivision_iff, exists_eq_left]
  rw [tokenize_eq_mapM, mapM_eq_ok_iff]
  constructor
  · intro h
    have hparts := (List.forall₂_and_left _ _).2 ⟨fun p => isRun_or_isOther, h⟩
    exact hparts.imp fun p t hp => Token.reads_of_ofLexeme hp.1 hp.2
  · intro h
    exact h.imp fun p t hp => hp.ofLexeme_eq

theorem exists_tokenize_iff :
    (∃ ts, tokenize cs = .ok ts) ↔
      ∀ before l after, Literal.IsLongestRun cs before l after → ∃ n, Literal.value l = .ok n := by
  constructor
  · rintro ⟨ts, h⟩ before l after hrun
    rw [hrun.tokenize_eq] at h
    obtain ⟨_, -, h⟩ := bind_eq_ok_iff.1 h
    obtain ⟨n, hn, -⟩ := bind_eq_ok_iff.1 h
    exact ⟨n, hn⟩
  · intro h
    rw [tokenize_eq_mapM]
    refine exists_mapM_eq_ok fun p hp => ?_
    obtain ⟨ps, qs, hparts⟩ := List.append_of_mem hp
    rcases (isDivision_lexemes cs).part ps p qs hparts with hrun | ⟨c, rfl, hc⟩
    · exact (Token.exists_ofLexeme_iff hrun.isRun).2 (h _ _ _ hrun)
    · exact ⟨_, Token.ofLexeme_other hc⟩

/-- The first part without a value is a longest run, and the longest runs that begin before it are among the parts before
it. -/
theorem exists_isFirstRefused {e : Failure} (h : tokenize cs = .error e) :
    ∃ before l after, Literal.IsFirstRefused cs before l after e := by
  rw [tokenize_eq_mapM] at h
  obtain ⟨ps, l, qs, hparts, hps, hl⟩ := mapM_eq_error_iff.1 h
  rcases (isDivision_lexemes cs).part ps l qs hparts with hrun | ⟨c, rfl, hc⟩
  · refine ⟨_, l, _, hrun, Token.value_of_ofLexeme hl, ?_⟩
    intro before' l' after' hrun' hlength
    have hmem : l' ∈ ps := hrun'.mem_of_length_lt hparts hlength
    exact (Token.exists_ofLexeme_iff hrun'.isRun).1 (hps l' hmem)
  · rw [Token.ofLexeme_other hc] at hl
    cases hl

theorem Literal.IsFirstRefused.tokenize_eq {before l after : List Char} {e : Failure}
    (h : IsFirstRefused cs before l after e) : tokenize cs = .error e := by
  obtain ⟨ts, hts⟩ : ∃ ts, tokenize before = .ok ts :=
    exists_tokenize_iff.2 fun xs m ys hm => h.first xs m _ (h.longest.of_before hm) hm.length_lt
  rw [h.longest.tokenize_eq, hts, ok_bind, h.refused, error_bind]

theorem tokenize_eq_error_iff {e : Failure} :
    tokenize cs = .error e ↔ ∃ before l after, Literal.IsFirstRefused cs before l after e :=
  ⟨exists_isFirstRefused, fun ⟨_, _, _, h⟩ => h.tokenize_eq⟩

theorem symbol?_of_tokenize {ts : List (Token Number)} (h : tokenize cs = .ok ts) :
    ∀ t ∈ ts, ∀ text, t.symbol? = some text →
      ∃ c, text = String.singleton c ∧ t = .ofChar c ∧ Literal.isLiteralChar c = false := by
  induction ts generalizing cs with
  | nil => simp
  | cons t ts ih =>
    rcases tokenize_eq_cons h with ⟨l, rest, n, -, -, -, rfl, hrest, -⟩ | ⟨c, rest, -, hc, rfl, hrest⟩
    · refine List.forall_mem_cons.2 ⟨?_, ih hrest⟩
      intro text htext
      cases htext
    · refine List.forall_mem_cons.2 ⟨?_, ih hrest⟩
      intro text htext
      rw [Token.symbol?_ofChar] at htext
      cases htext
      exact ⟨c, rfl, rfl, hc⟩

/-! ### Scans -/

namespace Scan

/-- The tokens that a scan will have found when the rest of the text is read. -/
def outlook (s : Scan) (rest : List Char) : Except Failure (List (Token Number)) :=
  tokenize (s.pending ++ rest) >>= fun ts => .ok (s.found.map .ofGiven ++ ts)

theorem outlook_start (cs : List Char) : start.outlook cs = tokenize cs :=
  bind_pure (tokenize cs)

theorem outlook_nil (s : Scan) : s.outlook [] = s.complete >>= fun found => .ok (found.map .ofGiven) := by
  rw [complete, outlook, List.append_nil]
  split
  · next h =>
    rw [List.isEmpty_iff.1 h, tokenize]
    simp
  · next h =>
    rw [tokenize_literal (by simpa using h) s.isLiteralChar_of_mem]
    simp only [bind_assoc, ok_bind, pure_eq_ok, List.map_append, List.map_singleton, Token.ofGiven]

theorem outlook_cons (s : Scan) {c : Char} (hc : Literal.isLiteralChar c = false) (rest : List Char) :
    s.outlook (c :: rest) = s.outlook [] >>= fun ts => tokenize rest >>= fun us => .ok (ts ++ .ofChar c :: us) := by
  simp only [outlook, tokenize_append_cons hc, List.append_nil, bind_assoc, ok_bind, List.append_assoc]

theorem outlook_take (s : Scan) (c : Char) (rest : List Char) :
    (s.take c >>= fun s' => s'.outlook rest) = s.outlook (c :: rest) := by
  rw [take]
  split
  · simp [outlook]
  · next h =>
    have hc : Literal.isLiteralChar c = false := by simpa using h
    have htext : (Token.ofGiven (.inr (String.singleton c)) : Token Number) = .ofChar c := by
      simp [Token.ofGiven, Token.ofText]
    rw [outlook_cons s hc, outlook_nil]
    simp only [bind_assoc, ok_bind, pure_eq_ok, outlook, List.nil_append, List.map_append, List.map_singleton, htext,
      List.append_assoc, List.singleton_append]

theorem outlook_foldlM (s : Scan) (cs rest : List Char) :
    (cs.foldlM take s >>= fun s' => s'.outlook rest) = s.outlook (cs ++ rest) := by
  induction cs generalizing s with
  | nil => rfl
  | cons c cs ih =>
    rw [List.foldlM_cons, bind_assoc]
    simp only [ih]
    exact outlook_take s c (cs ++ rest)

theorem read_eq (cs : List Char) : (read cs >>= fun given => .ok (given.map .ofGiven)) = tokenize cs := by
  have hrun := outlook_foldlM start cs []
  simp only [outlook_nil] at hrun
  rw [read, bind_assoc, hrun, List.append_nil, outlook_start]

end Scan

/-! ### Texts and their tokens -/

/-- A text has tokens exactly if each of its longest runs has a value, and fails exactly with the leftmost one that has
none. Its tokens are the values of the longest runs and the other characters one by one, in the order of the only division
of the text into these, so that no two numbers are neighbours. Any other character cuts the text into two that are
tokenized for themselves, the first one first. A scan that sets runs aside until they are complete finds the same tokens. -/
theorem tokenize_longest_runs (cs : List Char) :
    ((∃ ts, tokenize cs = .ok ts) ↔
        ∀ before l after, Literal.IsLongestRun cs before l after → ∃ n, Literal.value l = .ok n) ∧
      (∀ e, tokenize cs = .error e ↔ ∃ before l after, Literal.IsFirstRefused cs before l after e) ∧
      (∃! parts, IsDivision cs parts) ∧
      (∀ ts, tokenize cs = .ok ts ↔ ∃ parts, IsDivision cs parts ∧ List.Forall₂ Token.Reads parts ts) ∧
      (∀ ts, tokenize cs = .ok ts → Flat.Apart ts ∧ ∀ t ∈ ts, ∀ text, t.symbol? = some text →
        ∃ c, text = String.singleton c ∧ t = .ofChar c ∧ Literal.isLiteralChar c = false) ∧
      (∀ xs c ys, Literal.isLiteralChar c = false → tokenize (xs ++ c :: ys) =
        tokenize xs >>= fun ts => tokenize ys >>= fun us => .ok (ts ++ .ofChar c :: us)) ∧
      (Scan.read cs >>= fun given => .ok (given.map .ofGiven)) = tokenize cs := by
  refine ⟨exists_tokenize_iff, fun e => tokenize_eq_error_iff, ?_, fun ts => tokenize_eq_ok_iff, ?_, ?_, Scan.read_eq cs⟩
  · exact ⟨lexemes cs, isDivision_lexemes cs, fun parts h => h.eq_lexemes⟩
  · intro ts h
    exact ⟨apart_of_tokenize h, symbol?_of_tokenize h⟩
  · intro xs c ys hc
    exact tokenize_append_cons hc xs ys

/-- The run in `12(07x` is read to its end, and of the two runs in `1.2.3-4..5` that have no value the first one is
refused. -/
theorem tokenize_longest_runs_points :
    let ts : List (Token Number) := [.operand (.int 12), .opening, .operand (.int 7), .other "x"]
    let run := Literal.IsLongestRun "12(07x".toList ['1', '2', '('] ['0', '7'] ['x']
    let e : Failure := .evaluation (.invalidLiteral "1.2.3")
    tokenize "12(07x".toList = .ok ts ∧ Flat.Apart ts ∧ run ∧ (∃ n, Literal.value ['0', '7'] = .ok n) ∧
      Literal.isLiteralChar '-' = false ∧
      tokenize ("1.2.3".toList ++ '-' :: "4..5".toList) = (tokenize "1.2.3".toList >>= fun ts =>
        tokenize "4..5".toList >>= fun us => .ok (ts ++ .ofChar '-' :: us)) ∧
      tokenize "1.2.3-4..5".toList = .error e ∧
      ∃ before l after, Literal.IsFirstRefused "1.2.3-4..5".toList before l after e := by
  intro ts run e
  obtain ⟨hexists, -, -, -, htokens, hcut, -⟩ := tokenize_longest_runs "12(07x".toList
  have hts : tokenize "12(07x".toList = .ok ts := by decide +kernel
  have hseven : Literal.IsRun ['0', '7'] := by simp [Literal.IsRun, Literal.isLiteralChar, Text.isAsciiDigit]
  have hparts : lexemes "12(07x".toList = [['1', '2'], ['(']] ++ ['0', '7'] :: [['x']] := by decide
  have hrun : run := isLongestRun_of_lexemes hparts hseven
  have hminus : Literal.isLiteralChar '-' = false := by decide
  have he : tokenize "1.2.3-4..5".toList = .error e := by decide +kernel
  exact ⟨hts, (htokens ts hts).1, hrun, hexists.1 ⟨ts, hts⟩ _ _ _ hrun, hminus, hcut _ '-' _ hminus, he,
    ((tokenize_longest_runs "1.2.3-4..5".toList).2.1 e).1 he⟩

end Reckoner
