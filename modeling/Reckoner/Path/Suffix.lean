import Reckoner.Path

/-!
# Folders and suffixes

The folder that a path leads into, the suffixes of a name one by one, and the paths that their own texts are read as.
-/
namespace Reckoner.Path

def folder (p : Path) : Path :=
  { p with parts := p.parts.dropLast }

/-- The suffixes of a name, each with its point: what stands behind the points, of which those in front of the name do
not count. A name that ends with a point has none. -/
def suffixes (name : List Char) : List (List Char) :=
  if name.getLast? = some '.' then []
  else (Text.parts '.' (name.dropWhile (· == '.'))).tail.map fun part => '.' :: part

/-- A path that is what its text is read as. -/
def IsNormal (p : Path) : Prop :=
  ofText p.text = p

end Reckoner.Path
