import Reckoner.Files
import Reckoner.Text.Digit

/-!
# Arguments of a command line

What an argument is by its form: an option, the double dash that ends options, or a plain argument. Long options may be
shortened as long as one known option is meant, and may carry their value behind an equals sign; short ones may stand
together behind one dash.
-/
namespace Reckoner.Command

inductive Flag where
  | help
  | host
  | port
  deriving DecidableEq, Repr

/-- Why a command line is not run: help is asked for, or it cannot be understood, or its file cannot be looked at. -/
inductive Exit where
  | help
  | usage
  | file (fault : Files.Fault)
  deriving DecidableEq, Repr

def Exit.code : Exit → Nat
  | .help => 0
  | .usage => 2
  | .file _ => 1

def Flag.names : Flag → List (List Char)
  | .help => ["-h".toList, "--help".toList]
  | .host => ["--host".toList]
  | .port => ["--port".toList]

def flagNames (flags : List Flag) : List (List Char × Flag) :=
  flags.flatMap fun f => f.names.map (·, f)

inductive Attachment where
  | nothing
  /-- A value behind a long option and an equals sign. -/
  | value (cs : List Char)
  /-- More behind a short option, with or without an equals sign between. -/
  | joined (cs : List Char)
  deriving DecidableEq, Repr

/-- An option that was recognised, and what is written together with it. -/
structure Match where
  flag : Flag
  attached : Attachment := .nothing
  deriving DecidableEq, Repr

inductive Shape where
  | plain
  | separator
  /-- An option, or something that looks like one. -/
  | option (found : Option Match)
  deriving DecidableEq, Repr

def splitEquals (cs : List Char) : Option (List Char × List Char) :=
  if cs.contains '=' then some (cs.takeWhile (· != '='), (cs.dropWhile (· != '=')).drop 1) else none

/-- A minus sign with digits, or with digits around a point of which the last may not be missing. A line feed may
follow. -/
def looksNegative (cs : List Char) : Bool :=
  let isDigit c := (Text.decimalDigit? c).isSome
  let body := if cs.getLast? = some '\n' then cs.dropLast else cs
  match body with
  | '-' :: ds =>
    match ds.dropWhile isDigit with
    | [] => !ds.isEmpty
    | '.' :: fs => !fs.isEmpty && fs.all isDigit
    | _ => false
  | _ => false

/-- The options that a text that is not exactly one may stand for: a beginning of a long option, with a value or not; or
a short option with more behind it. -/
def candidates (known : List (List Char × Flag)) (arg : List Char) : List Match :=
  match arg with
  | '-' :: '-' :: _ =>
    let (start, attached) :=
      match splitEquals arg with
      | some (start, value) => (start, Attachment.value value)
      | none => (arg, Attachment.nothing)
    known.filterMap fun (n, f) => if start.isPrefixOf n then some ⟨f, attached⟩ else none
  | _ =>
    known.filterMap fun (n, f) =>
      if n = arg.take 2 then some ⟨f, .joined (arg.drop 2)⟩
      else if arg.isPrefixOf n then some ⟨f, .nothing⟩
      else none

def exactMatch? (known : List (List Char × Flag)) (arg : List Char) : Option Match :=
  match known.find? (·.1 = arg) with
  | some (_, f) => some ⟨f, .nothing⟩
  | none =>
    match splitEquals arg with
    | none => none
    | some (start, value) =>
      (known.find? (·.1 = start)).map fun (n, f) => ⟨f, if n.length = 2 then .joined value else .value value⟩

/-- The form of an argument in front of any separator. A beginning of several options is an error. -/
def shapeOf (known : List (List Char × Flag)) (arg : List Char) : Except Exit Shape :=
  if arg.head? ≠ some '-' ∨ arg = ['-'] then .ok .plain
  else
    match exactMatch? known arg with
    | some m => .ok (.option (some m))
    | none =>
      match candidates known arg with
      | [m] => .ok (.option (some m))
      | _ :: _ :: _ => .error .usage
      | [] => if looksNegative arg || arg.contains ' ' then .ok .plain else .ok (.option none)

abbrev Shaped := Shape × List Char

/-- The forms of arguments: all are plain after the first separator. -/
def shapes (known : List (List Char × Flag)) : List (List Char) → Except Exit (List Shaped)
  | [] => .ok []
  | arg :: rest =>
    if arg = ['-', '-'] then .ok ((.separator, arg) :: rest.map (.plain, ·))
    else do
      let s ← shapeOf known arg
      let more ← shapes known rest
      return (s, arg) :: more

/-- Whether asking for help is written well: it takes no value, and joined to the short option may stand only more of
the same. -/
def isHelp (m : Match) : Bool :=
  match m.attached with
  | .nothing => true
  | .value _ => false
  | .joined cs => !cs.isEmpty && cs.all (· == 'h')

end Reckoner.Command
