/-!
# Blanks

The characters that pad and separate text, and the two ways of removing them: everywhere, or at both ends.
-/
namespace Reckoner.Text

/-- The Unicode property `White_Space`. -/
def isWhiteSpace (c : Char) : Bool :=
  let n := c.toNat
  (9 ≤ n && n ≤ 13) || n == 0x20 || n == 0x85 || n == 0xA0 || n == 0x1680 ||
    (0x2000 ≤ n && n ≤ 0x200A) || n == 0x2028 || n == 0x2029 || n == 0x202F || n == 0x205F || n == 0x3000

/-- The four separators of data records, U+001C to U+001F. -/
def isRecordSeparator (c : Char) : Bool :=
  28 ≤ c.toNat && c.toNat ≤ 31

/-- A blank is white space or a record separator. -/
def isBlank (c : Char) : Bool :=
  isWhiteSpace c || isRecordSeparator c

/-- The text without the characters of a class at its two ends. -/
def trimWhere (p : Char → Bool) (cs : List Char) : List Char :=
  ((cs.dropWhile p).reverse.dropWhile p).reverse

def trimBlanks (cs : List Char) : List Char :=
  trimWhere isBlank cs

def dropBlanks (cs : List Char) : List Char :=
  cs.filter fun c => !isBlank c

/-- A text of blanks only, the empty one included. -/
def isBlankText (cs : List Char) : Bool :=
  cs.all isBlank

theorem dropBlanks_append (xs ys : List Char) : dropBlanks (xs ++ ys) = dropBlanks xs ++ dropBlanks ys :=
  List.filter_append ..

end Reckoner.Text
