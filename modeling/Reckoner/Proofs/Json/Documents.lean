import Mathlib
import Reckoner.Json.Reader
import Reckoner.Proofs.Json.Numbers
import Reckoner.Proofs.Json.Texts

/-!
# Documents with one field

A dictionary with one text or number is written and read again as the same, lexeme by lexeme.
-/
namespace Reckoner.Json

variable {τ : Type}

section

variable [DecidableEq τ] {dialect : Dialect τ} {st next : State τ}

theorem readFrom_nil (dialect : Dialect τ) (st : State τ) : readFrom dialect st [] = st.finish := by
  rw [readFrom]
  rfl

theorem readFrom_lexeme {cs trimmed rest : List Char} {l : Lexeme} (hcs : cs.dropWhile isSpace = trimmed)
    (hscan : scan trimmed = some (l, rest)) (hstep : step dialect st l = .ok next) :
    readFrom dialect st cs = readFrom dialect next rest := by
  subst hcs
  rw [readFrom]
  split
  · next h _ =>
    rw [h] at hscan
    cases hscan
  · next c more h _ =>
    rw [h] at hscan
    split
    · next h =>
      rw [hscan] at h
      cases h
    · next l' rest' h =>
      rw [hscan] at h
      cases h
      rw [hstep]

end

/-- What a value needs to stand in a dictionary: its text is one lexeme, which is read as another value. -/
structure IsAtom (dialect : Dialect τ) (style : Style) (v : Datum) (d : Value τ) : Prop where
  starts : ∃ c cs, write style v = c :: cs ∧ isSpace c = false
  scans : ∃ l, scan (write style v ++ ['\x7d']) = some (l, ['\x7d']) ∧ atom dialect l = .ok d

theorem isAtom_text {dialect : Dialect τ} (style : Style) {s : String} {t : τ}
    (h : dialect.text? (Text.pieces s) = some t) : IsAtom dialect style (.text s) (.text t) := by
  refine ⟨⟨'\x22', _, by rw [write, writeText, List.cons_append], by decide⟩, .text (Text.pieces s), ?_, ?_⟩
  · rw [write, scan_writeText, Text.pieces]
  · rw [atom, h]

theorem isAtom_number {dialect : Dialect τ} (hd : dialect.limitsDecimals = false) (style : Style) {n : Number}
    (hn : n.Bounded) : IsAtom dialect style (.number n) (.number n) := by
  have hends : Decimal.EndsNumber ['\x7d'] := by
    rintro c ⟨⟩
    decide
  obtain ⟨l, hscan, hatom⟩ := scan_writeNumber hn hends
  have hne : writeNumber n ≠ [] := by
    intro h
    rw [h] at hscan
    cases hscan
  obtain ⟨c, cs, hcs⟩ := List.exists_cons_of_ne_nil hne
  refine ⟨⟨c, cs, by rw [write, hcs], ?_⟩, l, by rw [write, hscan], hatom dialect hd⟩
  have hc : isNumberChar c = true := isNumberChar_of_mem_writeNumber hn (hcs ▸ List.mem_cons_self)
  rw [Bool.eq_false_iff]
  intro hspace
  simp only [isSpace, Bool.or_eq_true, beq_iff_eq] at hspace
  rcases hspace with ((rfl | rfl) | rfl) | rfl <;> exact absurd hc (by decide)

/-- Whether a reader lets a dictionary stand by itself and values without parts stand in it. -/
def Dialect.AdmitsFields (dialect : Dialect τ) : Prop :=
  dialect.admits 0 .openDict = true ∧ ∀ l : Lexeme, l.opens = false → dialect.admits 1 l = true

private theorem stepValue_atom {dialect : Dialect τ} (hadmits : dialect.AdmitsFields) {es : List (τ × Value τ)} {key : τ}
    {l : Lexeme} {d : Value τ} (h : atom dialect l = .ok d) :
    stepValue dialect [.entry es key] l = .ok ⟨[.entry es key], .after d⟩ := by
  have hopens : l.opens = false := by
    cases l with
    | openDict => cases h
    | openList => cases h
    | _ => rfl
  have hin : dialect.admits 1 l = true := hadmits.2 l hopens
  cases l with
  | openDict => cases hopens
  | openList => cases hopens
  | closeDict => cases h
  | closeList => cases h
  | colon => cases h
  | comma => cases h
  | _ => simp [stepValue, hin, h]

/-- A document with one field is read as what was written. -/
theorem read_write_document [DecidableEq τ] {dialect : Dialect τ} (hadmits : dialect.AdmitsFields) {style : Style}
    {spaces : List Char} (hseparator : style.keySeparator = ':' :: spaces) (hspaces : ∀ c ∈ spaces, isSpace c = true)
    {name : String} {key : τ} (hkey : dialect.text? (Text.pieces name) = some key) {v : Datum} {d : Value τ}
    (hv : IsAtom dialect style v d) : read dialect (write style (.dict [(name, v)])) = .ok (.dict [(key, d)]) := by
  obtain ⟨⟨c, cs, hstart, hc⟩, l, hscan, hatom⟩ := hv
  have htext : write style (.dict [(name, v)]) =
      '\x7b' :: (writeText style name.toList ++ (':' :: (spaces ++ (write style v ++ ['\x7d'])))) := by
    simp [write, writeEntries, hseparator]
  have hquote (rest : List Char) : (writeText style name.toList ++ rest).dropWhile isSpace =
      writeText style name.toList ++ rest :=
    List.dropWhile_cons_of_neg (by decide)
  have hopen : step dialect .start .openDict = .ok ⟨[], .key []⟩ := by
    simp [step, State.start, stepValue, hadmits.1]
  have hname : step dialect ⟨[], .key []⟩ (.text (name.toList.map .char)) = .ok ⟨[], .colon [] key⟩ := by
    rw [← Text.pieces]
    simp [step, hkey]
  have hcolon : step dialect ⟨[], .colon [] key⟩ .colon = .ok ⟨[.entry [] key], .value⟩ := rfl
  have hvalue : step dialect ⟨[.entry [] key], .value⟩ l = .ok ⟨[.entry [] key], .after d⟩ :=
    stepValue_atom hadmits hatom
  have hclose : step dialect ⟨[.entry [] key], .after d⟩ .closeDict = .ok ⟨[], .after (.dict [(key, d)])⟩ := rfl
  have hblank : (spaces ++ (write style v ++ ['\x7d'])).dropWhile isSpace = write style v ++ ['\x7d'] := by
    rw [List.dropWhile_append_of_pos hspaces, hstart, List.cons_append, List.dropWhile_cons_of_neg (by simp [hc])]
  have hmark {c : Char} (hc : isSpace c = false) (rest : List Char) : (c :: rest).dropWhile isSpace = c :: rest :=
    List.dropWhile_cons_of_neg (by simp [hc])
  rw [read, htext, readFrom_lexeme (hmark (by decide) _) rfl hopen, readFrom_lexeme (hquote _) (scan_writeText ..) hname,
    readFrom_lexeme (hmark (by decide) _) rfl hcolon, readFrom_lexeme hblank hscan hvalue,
    readFrom_lexeme (hmark (by decide) _) rfl hclose, readFrom_nil]
  rfl

end Reckoner.Json
