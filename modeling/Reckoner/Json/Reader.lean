import Reckoner.Number.DigitLimit
import Reckoner.Datum.Basic
import Reckoner.Json.Lexeme

/-!
# Reading documents

The lexemes of a document drive a machine that knows what it waits for and keeps a stack of the lists and dictionaries
that are still open. What differs between readers, how deep a document may nest, how many digits a number may have and
which texts there are, is a `Dialect`.
-/
namespace Reckoner.Json

open Text (Piece)

structure Dialect (τ : Type) where
  /-- Whether a value that begins with a lexeme may stand in so many lists and dictionaries. -/
  admits : Nat → Lexeme → Bool
  /-- Whether the digits before a point are limited as those of a whole number are. -/
  limitsDecimals : Bool
  /-- What a text is read as; without it a text is malformed. -/
  text? : List Piece → Option τ

inductive Fault where
  | malformed
  | digits (limit : DigitLimit)
  | tooDeep
  deriving DecidableEq, Repr

variable {τ : Type}

/-- What is open around an awaited value. -/
inductive Context (τ : Type) where
  /-- A list with these items before, the latest first. -/
  | list (items : List (Value τ))
  /-- A dictionary with these entries before, and the key of the value. -/
  | entry (entries : List (τ × Value τ)) (key : τ)

/-- What the reader waits for. -/
inductive Mode (τ : Type) where
  | value
  /-- A key of a dictionary with these entries, or its end if it has none. -/
  | key (entries : List (τ × Value τ))
  | colon (entries : List (τ × Value τ)) (key : τ)
  | after (value : Value τ)

structure State (τ : Type) where
  contexts : List (Context τ)
  mode : Mode τ

def State.start : State τ := ⟨[], .value⟩

def atom (dialect : Dialect τ) : Lexeme → Except Fault (Value τ)
  | .text ps =>
    match dialect.text? ps with
    | some t => .ok (.text t)
    | none => .error .malformed
  | .whole negative ds =>
    match DigitLimit.readDigits ds with
    | .ok n => .ok (.ofInt (Text.signed negative n))
    | .error limit => .error (.digits limit)
  | .decimal negative ds fraction exponent =>
    if dialect.limitsDecimals && DigitLimit.maxDigits < ds.length then .error (.digits (.reading ds.length))
    else .ok (.number (.double ((Decimal.ofParts ds fraction exponent).toBinary64 negative)))
  | .null => .ok .null
  | .bool b => .ok (.bool b)
  | .named x => .ok (.number (.double x))
  | _ => .error .malformed

def stepValue (dialect : Dialect τ) (contexts : List (Context τ)) (l : Lexeme) : Except Fault (State τ) :=
  match l, contexts with
  | .closeList, .list [] :: outer => .ok ⟨outer, .after (.list [])⟩
  | l, _ =>
    if dialect.admits contexts.length l then
      match l with
      | .openList => .ok ⟨.list [] :: contexts, .value⟩
      | .openDict => .ok ⟨contexts, .key []⟩
      | l => do
        let v ← atom dialect l
        return ⟨contexts, .after v⟩
    else .error .tooDeep

variable [DecidableEq τ]

def stepAfter (contexts : List (Context τ)) (v : Value τ) (l : Lexeme) : Except Fault (State τ) :=
  match contexts, l with
  | .list items :: outer, .comma => .ok ⟨.list (v :: items) :: outer, .value⟩
  | .list items :: outer, .closeList => .ok ⟨outer, .after (.list (v :: items).reverse)⟩
  | .entry entries key :: outer, .comma => .ok ⟨outer, .key (Keyed.assign key v entries)⟩
  | .entry entries key :: outer, .closeDict => .ok ⟨outer, .after (.dict (Keyed.assign key v entries))⟩
  | _, _ => .error .malformed

def step (dialect : Dialect τ) (st : State τ) (l : Lexeme) : Except Fault (State τ) :=
  match st.mode, l with
  | .value, l => stepValue dialect st.contexts l
  | .key entries, .text ps =>
    match dialect.text? ps with
    | some key => .ok ⟨st.contexts, .colon entries key⟩
    | none => .error .malformed
  | .key [], .closeDict => .ok ⟨st.contexts, .after (.dict [])⟩
  | .key _, _ => .error .malformed
  | .colon entries key, .colon => .ok ⟨.entry entries key :: st.contexts, .value⟩
  | .colon .., _ => .error .malformed
  | .after v, l => stepAfter st.contexts v l

/-- The document read, if the text may end here. -/
def State.finish (st : State τ) : Except Fault (Value τ) :=
  match st.contexts, st.mode with
  | [], .after v => .ok v
  | _, _ => .error .malformed

private theorem length_dropWhile_isSpace_le (cs : List Char) : (cs.dropWhile isSpace).length ≤ cs.length :=
  (List.dropWhile_sublist isSpace).length_le

def readFrom (dialect : Dialect τ) (st : State τ) (cs : List Char) : Except Fault (Value τ) :=
  match cs.dropWhile isSpace, length_dropWhile_isSpace_le cs with
  | [], _ => st.finish
  | c :: more, _ =>
    match _h : scan (c :: more) with
    | none => .error .malformed
    | some (l, rest) =>
      match step dialect st l with
      | .error e => .error e
      | .ok next => readFrom dialect next rest
termination_by cs.length
decreasing_by exact Nat.lt_of_lt_of_le (scan_length_lt ‹_›) ‹_›

def read (dialect : Dialect τ) (cs : List Char) : Except Fault (Value τ) :=
  readFrom dialect .start cs

end Reckoner.Json
