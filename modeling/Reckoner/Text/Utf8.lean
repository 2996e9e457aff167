/-!
# UTF-8

Texts as bytes. Reading bytes splits them into well-formed characters and *faults*; a fault is a longest
run of bytes that begins a character without finishing it, or a single byte that begins none. A strict reading
refuses faults, a lenient one puts U+FFFD for each.
-/
namespace Reckoner.Text

def toUtf8 (cs : List Char) : List UInt8 :=
  cs.flatMap String.utf8EncodeChar

/-- The ranges of the bytes that must follow a first byte, or nothing if no character begins so. -/
def utf8Followers (b : UInt8) : Option (List (UInt8 × UInt8)) :=
  let any : UInt8 × UInt8 := (0x80, 0xBF)
  if b < 0x80 then some []
  else if b < 0xC2 then none
  else if b < 0xE0 then some [any]
  else if b = 0xE0 then some [(0xA0, 0xBF), any]
  else if b = 0xED then some [(0x80, 0x9F), any]
  else if b < 0xF0 then some [any, any]
  else if b = 0xF0 then some [(0x90, 0xBF), any, any]
  else if b < 0xF4 then some [any, any, any]
  else if b = 0xF4 then some [(0x80, 0x8F), any, any]
  else none

/-- The longest run of bytes in the given ranges, one range a byte, and what is left. -/
def takeInRanges : List (UInt8 × UInt8) → List UInt8 → List UInt8 × List UInt8
  | (lo, hi) :: ranges, b :: bs =>
    if lo ≤ b ∧ b ≤ hi then
      let (taken, rest) := takeInRanges ranges bs
      (b :: taken, rest)
    else ([], b :: bs)
  | _, bs => ([], bs)

theorem takeInRanges_rest_length_le (ranges : List (UInt8 × UInt8)) (bs : List UInt8) :
    (takeInRanges ranges bs).2.length ≤ bs.length := by
  induction ranges generalizing bs with
  | nil => cases bs <;> simp [takeInRanges]
  | cons r ranges ih =>
    cases bs with
    | nil => simp [takeInRanges]
    | cons b bs =>
      have := ih bs
      simp only [takeInRanges]
      split
      · simp only [List.length_cons]; omega
      · simp

/-- The character that a first byte and its followers spell. -/
def utf8Char (b : UInt8) (followers : List UInt8) : Char :=
  let lead :=
    if b < 0x80 then b.toNat
    else if b < 0xE0 then b.toNat - 0xC0
    else if b < 0xF0 then b.toNat - 0xE0
    else b.toNat - 0xF0
  Char.ofNat (followers.foldl (fun n f => n * 64 + (f.toNat - 0x80)) lead)

/-- The characters and the faults of a byte string, in order; a fault is `none`. -/
def readUtf8 : List UInt8 → List (Option Char)
  | [] => []
  | b :: bs =>
    match utf8Followers b with
    | none => none :: readUtf8 bs
    | some ranges =>
      let parts := takeInRanges ranges bs
      (if parts.1.length = ranges.length then some (utf8Char b parts.1) else none) :: readUtf8 parts.2
termination_by bs => bs.length
decreasing_by
  · simp
  · have := takeInRanges_rest_length_le ranges bs
    simp only [List.length_cons]
    omega

def ofUtf8? (bs : List UInt8) : Option (List Char) :=
  (readUtf8 bs).mapM id

/-- The text of a byte string, with U+FFFD for each fault. -/
def ofUtf8Lossy (bs : List UInt8) : List Char :=
  (readUtf8 bs).map fun c => c.getD '\uFFFD'

end Reckoner.Text
