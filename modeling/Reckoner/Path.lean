import Reckoner.Text.Parts
import Reckoner.Text.Quoted

/-!
# Paths

Paths of files as parts between slashes, the extensions of a name, and the name of the results file that belongs to an
input file.
-/
namespace Reckoner

/-- A path: the slashes that it begins with, none, one or two, and its parts. -/
structure Path where
  root : List Char
  parts : List (List Char)
  deriving DecidableEq, Repr

namespace Path

/-- The root of a text: exactly two slashes in front stay two, any other number of them is one. -/
def rootOf (cs : List Char) : List Char :=
  match (cs.takeWhile (· == '/')).length with
  | 0 => []
  | 2 => ['/', '/']
  | _ => ['/']

/-- A path from its text. Empty parts and those of a single point are dropped. -/
def ofText (cs : List Char) : Path :=
  ⟨rootOf cs, (Text.parts '/' cs).filter fun p => p != [] && p != ['.']⟩

/-- The text of a path; the empty one is a point. -/
def text (p : Path) : List Char :=
  if p.root.isEmpty && p.parts.isEmpty then ['.'] else p.root ++ ['/'].intercalate p.parts

def name (p : Path) : List Char :=
  p.parts.getLastD []

/-- The extensions of a name, each with its point: what stands after the first point behind the points in front. A name
that ends with a point has none. -/
def extension (name : List Char) : List Char :=
  if name.getLast? = some '.' then [] else (name.dropWhile (· == '.')).dropWhile (· != '.')

inductive Fault where
  | emptyName (path : Path)
  deriving DecidableEq, Repr

def Fault.message : Fault → String
  | .emptyName p => "PosixPath(" ++ Text.quoted (String.ofList p.text) ++ ") has an empty name"

def resultsSuffix : List Char := "_results.txt".toList

/-- The name of the results file: the points of the extensions become underscores. -/
def resultsName (name : List Char) : List Char :=
  let ext := extension name
  let stem := name.take (name.length - ext.length)
  stem ++ ext.map (fun c => if c = '.' then '_' else c) ++ resultsSuffix

def resultsFile (p : Path) : Except Fault Path :=
  if p.name.isEmpty then .error (.emptyName p)
  else .ok { p with parts := p.parts.dropLast ++ [resultsName p.name] }

end Path
end Reckoner
