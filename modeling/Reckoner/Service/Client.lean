import Reckoner.Text.Line
import Reckoner.Datum.Display
import Reckoner.Field.Assignment
import Reckoner.Net.Endpoint
import Reckoner.Service.Request

/-!
# The client

A client sends its expressions as request lines and reads one document from each line of the reply that holds more
than blanks. Nothing compares the two counts. A results file pairs the expressions of a file with the responses.
-/
namespace Reckoner.Service

open Text (Piece)

structure Client where
  endpoint : Net.Endpoint := .default
  deriving DecidableEq, Repr

/-- How many lists and dictionaries of a reply may be open at once: what the callers of a client leave of the stack. -/
structure StackRoom where
  levels : Nat
  one_le_levels : 1 ≤ levels := by decide

/-- Replies nest as deep as there is room for, only whole numbers have limited digits, and texts may have half a
surrogate pair. -/
def replyDialect (room : StackRoom) : Json.Dialect (List Piece) :=
  ⟨fun depth l => depth < room.levels || !l.opens, false, some⟩

inductive ReplyFault where
  | undecodable
  /-- A line is no document. -/
  | document (fault : Json.Fault)
  /-- There is no line for the only expression. -/
  | empty
  deriving DecidableEq, Repr

/-- Why a response cannot be written to a results file. -/
inductive ResponseFault where
  /-- It has neither a result nor an error text. -/
  | noError
  /-- It is a single value of the named type, in which no field can be looked for. -/
  | notSearchable (typeName : String)
  /-- It is a list or a text, whose parts have no names. -/
  | noFields (isList : Bool)
  /-- Its text has halves of surrogate pairs, which have no bytes: these units at this place of the line, and then a
  character. -/
  | unencodable (place : Nat) (units : List Nat)
  deriving DecidableEq, Repr

def ResponseFault.message : ResponseFault → String
  | .noError => Text.quoted "error"
  | .notSearchable typeName => "argument of type " ++ Text.quoted typeName ++ " is not iterable"
  | .noFields true => "list indices must be integers or slices, not str"
  | .noFields false => "string indices must be integers, not " ++ Text.quoted "str"
  | .unencodable place units =>
    let halves :=
      match units with
      | [unit] =>
        "character " ++ String.ofList ('\x27' :: Json.unitEscape unit ++ ['\x27']) ++ " in position " ++ toString place
      | _ => "characters in position " ++ toString place ++ "-" ++ toString (place + units.length - 1)
    Text.quoted "utf-8" ++ " codec can't encode " ++ halves ++ ": surrogates not allowed"

namespace Client

def ofFields (entries : List (String × Datum)) : Field.Checked Client :=
  (Net.Endpoint.ofFields entries).map fun e => ⟨e⟩

def form : Field.Form := ⟨"CalculatorClient", ["host", "port"], true⟩

/-- The bytes that ask for the values of expressions: one request a line. -/
def payload (expressions : List String) : List UInt8 :=
  Text.toUtf8 (expressions.flatMap fun e => (Request.mk e).text ++ ['\n'])

def readReply (room : StackRoom) (reply : List UInt8) : Except ReplyFault (List Document) :=
  match Text.ofUtf8? reply with
  | none => .error .undecodable
  | some cs =>
    ((Text.splitLines cs).filter fun l => !Text.isBlankText l).mapM fun l =>
      (Json.read (replyDialect room) l).mapError .document

def firstResponse : List Document → Except ReplyFault Document
  | [] => .error .empty
  | v :: _ => .ok v

/-- What is seen of an exchange: an endpoint is connected to, and the bytes sent are ended. -/
def exchangeEvents (c : Client) : List Net.Event :=
  [.connect c.endpoint, .shutdownWrite]

end Client

namespace ResultsFile

/-- The expressions in the bytes of a file: its lines that hold more than blanks, without the blanks at their ends. -/
def expressions (file : List UInt8) : Option (List String) :=
  (Text.ofUtf8? file).map fun cs => (Text.filledLines (Text.unifyNewlines cs)).map String.ofList

def encode (ps : List Piece) : Except ResponseFault String :=
  match Text.ofPieces? ps with
  | some s => .ok s
  | none =>
    let place := (ps.takeWhile (·.unit?.isNone)).length
    .error (.unencodable place (((ps.drop place).takeWhile (·.unit?.isSome)).filterMap Piece.unit?))

/-- The line for an expression and its response. -/
def line (expression : String) : Document → Except ResponseFault String
  | .dict entries =>
    match Keyed.get? (Text.pieces "result") entries with
    | some v => encode (Text.pieces (expression ++ " = ") ++ v.display ++ Text.pieces "\n")
    | none =>
      match Keyed.get? (Text.pieces "error") entries with
      | some v => encode (Text.pieces (expression ++ " -> ERROR: ") ++ v.display ++ Text.pieces "\n")
      | none => .error .noError
  | .list _ => .error (.noFields true)
  | .text _ => .error (.noFields false)
  | v => .error (.notSearchable v.typeName)

/-- The lines for expressions with their responses as far as both go, up to the first response that has none. -/
def lines : List (String × Document) → String × Option ResponseFault
  | [] => ("", none)
  | (e, v) :: rest =>
    match line e v with
    | .error fault => ("", some fault)
    | .ok l =>
      let (more, fault) := lines rest
      (l ++ more, fault)

inductive Fault where
  | undecodable
  | reply (fault : ReplyFault)
  | response (fault : ResponseFault)
  deriving DecidableEq, Repr

structure Run where
  /-- The bytes sent, if a connection was made. -/
  payload : Option (List UInt8)
  /-- The text written, if the results file was opened. -/
  written : Option String
  fault : Option Fault
  deriving DecidableEq

/-- Send the expressions of a file to whoever replies, and write the results. -/
def send (room : StackRoom) (reply : List UInt8 → List UInt8) (file : List UInt8) : Run :=
  match expressions file with
  | none => ⟨none, none, some .undecodable⟩
  | some es =>
    let payload := Client.payload es
    match Client.readReply room (reply payload) with
    | .error f => ⟨some payload, none, some (.reply f)⟩
    | .ok responses =>
      let (text, fault) := lines (es.zip responses)
      ⟨some payload, some text, fault.map .response⟩

end ResultsFile
end Reckoner.Service
