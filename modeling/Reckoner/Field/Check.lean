import Reckoner.Text.Utf8
import Reckoner.Number.Scientific
import Reckoner.Number.DigitLimit
import Reckoner.Datum.Basic
import Reckoner.Field.Problem
import Reckoner.Field.WholeNumber

/-!
# Checks of fields

What a field of a given type accepts. Types are read generously: a whole number may come as a text, a truth value or a
number with a zero fraction, a text as bytes.
-/
namespace Reckoner.Field

/-- The text of a text or of bytes, as far as they are one. -/
def chars? : Datum → Option (List Char)
  | .text s => some s.toList
  | .bytes bs => Text.ofUtf8? bs
  | _ => none

def isTextual : Datum → Bool
  | .text _ | .bytes _ => true
  | _ => false

def asText : Datum → Checked String
  | .text s => .ok s
  | .bytes bs =>
    match Text.ofUtf8? bs with
    | some cs => .ok (String.ofList cs)
    | none => .fail .stringUnicode
  | _ => .fail .stringType

/-- The whole number that a text writes. Too many digits are a problem of their own at the front of the text, whatever
follows them; elsewhere they are no number. -/
def intOfChars (cs : List Char) : Checked Int :=
  if DigitLimit.maxDigits < (leadingDigits cs).length then .fail .intParsingSize
  else
    match wholeDigits? cs with
    | none => .fail .intParsing
    | some (negative, ds) =>
      match DigitLimit.readDigits ds with
      | .error _ => .fail .intParsing
      | .ok n => .ok (Text.signed negative n)

/-- Whole numbers of which a sign and 63 bits hold the magnitude. -/
def fitsWord (n : Int) : Bool :=
  -0x8000000000000000 < n && n < 0x8000000000000000

/-- A whole number: as such, as truth value, as number without fraction that fits a word, or as text. -/
def asInt : Datum → Checked Int
  | .number (.int n) => .ok n
  | .bool b => .ok (if b then 1 else 0)
  | .number (.double x) =>
    if !x.isFinite then .fail .finiteNumber
    else
      match x.toInt? with
      | some n => if fitsWord n then .ok n else .fail .intParsingSize
      | none => .fail .intFromFloat
  | v =>
    if isTextual v then
      match chars? v with
      | some cs => intOfChars cs
      | none => .fail .intParsing
    else .fail .intType

def orNull {α : Type} (check : Datum → Checked α) : Datum → Checked (Option α)
  | .null => .ok none
  | v => (check v).map some

/-- The texts that say yes, in lower case. -/
def yesTexts : List String := ["1", "t", "y", "on", "yes", "true"]

/-- The texts that say no, in lower case. -/
def noTexts : List String := ["0", "f", "n", "no", "off", "false"]

/-- The truth value that a text says, in either case of its ASCII letters. -/
def boolOfChars (cs : List Char) : Checked Bool :=
  let word := String.ofList (cs.map Char.toLower)
  if yesTexts.contains word then .ok true
  else if noTexts.contains word then .ok false
  else .fail .boolParsing

def boolOfInt (n : Int) : Checked Bool :=
  if n = 1 then .ok true else if n = 0 then .ok false else .fail .boolParsing

/-- A truth value: as such, as the number one or zero, or as text. Of other numbers, those that fit a word are looked
at; the smallest word does so only when it is exact. -/
def asBool : Datum → Checked Bool
  | .bool b => .ok b
  | .number (.int n) => if fitsWord n || n = -0x8000000000000000 then boolOfInt n else .fail .boolType
  | .number (.double x) =>
    match x.toInt? with
    | some n => if fitsWord n then boolOfInt n else .fail .boolType
    | none => .fail .boolType
  | v =>
    if isTextual v then
      match chars? v with
      | some cs => boolOfChars cs
      | none => .fail .boolParsing
    else .fail .boolType

/-- The binary64 number that a text writes: with white space around it, or with underscores, but not with both. -/
def doubleOfChars? (cs : List Char) : Option Binary64 :=
  (Binary64.ofText? (Text.trimWhere Text.isWhiteSpace cs)).or (Binary64.ofText? (dropUnderscores cs))

/-- A binary64 number: as number, as truth value, or as text. -/
def asDouble : Datum → Checked Binary64
  | .number (.double x) => .ok x
  | .number (.int n) => .ok (.ofInt n)
  | .bool b => .ok (.ofInt (if b then 1 else 0))
  | v =>
    if isTextual v then
      match (chars? v).bind doubleOfChars? with
      | some x => .ok x
      | none => .fail .floatParsing
    else .fail .floatType

/-- A number: one that is whole stays whole, one in binary64 stays so, and all else is first read as a whole number. -/
def asNumber : Datum → Checked Number
  | .number n => .ok n
  | v =>
    match (asInt v).within "int" with
    | .ok n => .ok (.int n)
    | .error ps =>
      match (asDouble v).within "float" with
      | .ok x => .ok (.double x)
      | .error qs => .error (ps ++ qs)

def named? {α : Type} (fault : Fault) (value? : String → Option α) : Datum → Checked α
  | .text s =>
    match value? s with
    | some a => .ok a
    | none => .fail fault
  | _ => .fail fault

def required {α : Type} (entries : List (String × Datum)) (name : String) (check : Datum → Checked α) : Checked α :=
  match Keyed.get? name entries with
  | none => (Checked.fail .missing).within name
  | some v => (check v).within name

def optional {α : Type} (entries : List (String × Datum)) (name : String) (default : α) (check : Datum → Checked α) :
    Checked α :=
  match Keyed.get? name entries with
  | none => .ok default
  | some v => (check v).within name

end Reckoner.Field
