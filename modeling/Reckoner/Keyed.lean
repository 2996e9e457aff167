/-!
# Keyed lists

Lists of keys with values, in the order in which the keys came.
-/
namespace Reckoner.Keyed

/-- Give a key a value: a known key keeps its place, a new one comes last. -/
def assign {κ ν : Type} [DecidableEq κ] (key : κ) (value : ν) : List (κ × ν) → List (κ × ν)
  | [] => [(key, value)]
  | (k, v) :: rest => if k = key then (k, value) :: rest else (k, v) :: assign key value rest

def get? {κ ν : Type} [DecidableEq κ] (key : κ) : List (κ × ν) → Option ν
  | [] => none
  | (k, v) :: rest => if k = key then some v else get? key rest

@[simp] theorem get?_assign_self {κ ν : Type} [DecidableEq κ] (key : κ) (value : ν) (es : List (κ × ν)) :
    get? key (assign key value es) = some value := by
  induction es with
  | nil => simp [assign, get?]
  | cons e es ih => by_cases h : e.1 = key <;> simp [assign, get?, h, ih]

theorem get?_assign_of_ne {κ ν : Type} [DecidableEq κ] {key other : κ} (h : other ≠ key) (value : ν)
    (es : List (κ × ν)) : get? other (assign key value es) = get? other es := by
  induction es with
  | nil => simp [assign, get?, h.symm]
  | cons e es ih =>
    by_cases hk : e.1 = key
    · simp [assign, get?, hk, h.symm]
    · simp [assign, get?, hk, ih]

end Reckoner.Keyed
