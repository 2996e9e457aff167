import Reckoner.Text.Utf8
import Reckoner.Text.Quoted
import Reckoner.Datum.Basic

/-!
# Writing documents

The text of a value as a JSON document. A `Style` says what stands between its parts and which characters are written
as themselves.
-/
namespace Reckoner.Json

structure Style where
  itemSeparator : List Char
  keySeparator : List Char
  /-- The characters above U+001F, other than quote and backslash, that need no escape. -/
  isPlain : Char → Bool

namespace Style

/-- No blanks, and every character as itself. -/
def compact : Style :=
  ⟨[','], [':'], fun _ => true⟩

/-- A blank after each comma and colon, and no character beyond ASCII. -/
def ascii : Style :=
  ⟨[',', ' '], [':', ' '], fun c => c.toNat ≤ 0x7E⟩

end Style

def unitEscape (n : Nat) : List Char :=
  '\\' :: 'u' :: Text.hexDigits 4 n

/-- A character as an escape: one unit, or the two halves of a pair. -/
def charEscape (c : Char) : List Char :=
  let n := c.toNat
  if n < 0x10000 then unitEscape n
  else unitEscape (0xD800 + (n - 0x10000) / 0x400) ++ unitEscape (0xDC00 + (n - 0x10000) % 0x400)

def writeChar (style : Style) (c : Char) : List Char :=
  if c = '\x22' ∨ c = '\\' then ['\\', c]
  else if 0x20 ≤ c.toNat ∧ style.isPlain c then [c]
  else if c = '\x08' then ['\\', 'b']
  else if c = '\t' then ['\\', 't']
  else if c = '\n' then ['\\', 'n']
  else if c = '\x0c' then ['\\', 'f']
  else if c = '\r' then ['\\', 'r']
  else charEscape c

def writeText (style : Style) (cs : List Char) : List Char :=
  '\x22' :: cs.flatMap (writeChar style) ++ ['\x22']

/-- A number; those that are not finite by their names. -/
def writeNumber : Number → List Char
  | .double .nan => "NaN".toList
  | .double (.infinite s) => (if s then "-Infinity" else "Infinity").toList
  | n => n.text

mutual

/-- The text of a value. Bytes are written as the text that they hold. -/
def write (style : Style) : Datum → List Char
  | .null => "null".toList
  | .bool b => (if b then "true" else "false").toList
  | .number n => writeNumber n
  | .text s => writeText style s.toList
  | .bytes bs => writeText style (Text.ofUtf8Lossy bs)
  | .list items => '[' :: writeItems style items ++ [']']
  | .dict entries => '\x7b' :: writeEntries style entries ++ ['\x7d']

def writeItems (style : Style) : List Datum → List Char
  | [] => []
  | [v] => write style v
  | v :: rest => write style v ++ style.itemSeparator ++ writeItems style rest

def writeEntries (style : Style) : List (String × Datum) → List Char
  | [] => []
  | [(k, v)] => writeText style k.toList ++ style.keySeparator ++ write style v
  | (k, v) :: rest =>
    writeText style k.toList ++ style.keySeparator ++ write style v ++ style.itemSeparator
      ++ writeEntries style rest

end

end Reckoner.Json
