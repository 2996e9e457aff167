import Reckoner.Keyed
import Reckoner.Path
import Reckoner.Text.Utf8

/-!
# Files

The files in a folder and the folders below it, by their paths from there. A path is looked up part by part: all parts
but the last must lead to folders, and two points lead back. A folder is there if some file is in it.
-/
namespace Reckoner

/-- The files in a folder and below it, with their bytes. -/
structure Files where
  entries : List (Path × List UInt8)

namespace Files

/-- The place that the parts of a path lead to, if there may be a file. -/
inductive Place where
  | found (parts : List (List Char))
  | nowhere
  /-- A name on the way has more bytes than names may have. -/
  | tooLong
  deriving DecidableEq, Repr

inductive Target where
  | file (contents : List UInt8)
  | folder
  | nothing
  | tooLong
  deriving DecidableEq, Repr

/-- How many bytes the name of a file has at most, … -/
def maxNameBytes : Nat := 255

/-- … and how many the text of a path. -/
def maxPathBytes : Nat := 4095

def byteCount (cs : List Char) : Nat :=
  (Text.toUtf8 cs).length

def isFolder (fs : Files) (parts : List (List Char)) : Bool :=
  parts.isEmpty || fs.entries.any fun f => parts.length < f.1.parts.length && parts.isPrefixOf f.1.parts

/-- Go on through more parts from where some parts led. What is outside the folder is not known. -/
def walk (fs : Files) (done : List (List Char)) : List (List Char) → Place
  | [] => .found done
  | part :: rest =>
    if !fs.isFolder done then .nowhere
    else if part = ['.', '.'] then (if done.isEmpty then .nowhere else fs.walk done.dropLast rest)
    else if maxNameBytes < byteCount part then .tooLong
    else fs.walk (done ++ [part]) rest

def place (fs : Files) (p : Path) : Place :=
  if maxPathBytes < byteCount p.text then .tooLong
  else if p.root.isEmpty then fs.walk [] p.parts
  else if p.parts.head?.any fun part => decide (maxNameBytes < byteCount part) then .tooLong
  else .nowhere

def look (fs : Files) (p : Path) : Target :=
  match fs.place p with
  | .nowhere => .nothing
  | .tooLong => .tooLong
  | .found parts =>
    if fs.isFolder parts then .folder
    else (Keyed.get? (⟨[], parts⟩ : Path) fs.entries).elim .nothing .file

inductive Fault where
  | isFolder (path : Path)
  | nameTooLong (path : Path)
  deriving DecidableEq, Repr

def Fault.message : Fault → String
  | .isFolder p => "[Errno 21] Is a directory: " ++ Text.quoted (String.ofList p.text)
  | .nameTooLong p => "[Errno 36] File name too long: " ++ Text.quoted (String.ofList p.text)

/-- Why a path that leads to a target cannot be opened for writing, if it cannot. -/
def Target.writeFault? (p : Path) : Target → Option Fault
  | .folder => some (.isFolder p)
  | .tooLong => some (.nameTooLong p)
  | .file _ | .nothing => none

end Files
end Reckoner
