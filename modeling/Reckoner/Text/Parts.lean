/-!
# Parts of texts

Cutting a text at every occurrence of a character. There is always one part more than separators.
-/
namespace Reckoner.Text

/-- The parts of a text between separators. -/
def parts (sep : Char) : List Char → List (List Char)
  | [] => [[]]
  | c :: cs =>
    if c = sep then [] :: parts sep cs
    else
      match parts sep cs with
      | [] => [[c]]
      | p :: ps => (c :: p) :: ps

theorem parts_ne_nil (sep : Char) (cs : List Char) : parts sep cs ≠ [] := by
  cases cs with
  | nil => simp [parts]
  | cons c cs =>
    simp only [parts]
    split
    · simp
    · split <;> simp

theorem intercalate_parts (sep : Char) (cs : List Char) : [sep].intercalate (parts sep cs) = cs := by
  induction cs with
  | nil => rfl
  | cons c cs ih =>
    simp only [parts]
    match h : parts sep cs with
    | [] => exact absurd h (parts_ne_nil sep cs)
    | p :: ps =>
      rw [h] at ih
      split
      · next hc => simpa [hc, List.intercalate, List.intersperse] using ih
      · cases ps with
        | nil => simpa [List.intercalate, List.intersperse] using ih
        | cons q qs => simpa [List.intercalate, List.intersperse] using ih

end Reckoner.Text
