import Reckoner.Log.Record

/-!
# Values with a log

A value and the records that were written while it was computed, in order.
-/
namespace Reckoner.Log

/-- A value and what was reported on the way to it. -/
structure Logged (α : Type) where
  value : α
  log : List Record

namespace Logged

def pure {α : Type} (a : α) : Logged α := ⟨a, []⟩

def bind {α β : Type} (x : Logged α) (f : α → Logged β) : Logged β :=
  let y := f x.value
  ⟨y.value, x.log ++ y.log⟩

instance : Monad Logged where
  pure := pure
  bind := bind

@[simp] theorem value_pure {α : Type} (a : α) : (Pure.pure a : Logged α).value = a := rfl

@[simp] theorem log_pure {α : Type} (a : α) : (Pure.pure a : Logged α).log = [] := rfl

@[simp] theorem value_bind {α β : Type} (x : Logged α) (f : α → Logged β) : (x >>= f).value = (f x.value).value := rfl

@[simp] theorem log_bind {α β : Type} (x : Logged α) (f : α → Logged β) :
    (x >>= f).log = x.log ++ (f x.value).log := rfl

def say (level : Level) (message : String) : Logged Unit :=
  ⟨(), [⟨level, message⟩]⟩

@[simp] theorem log_say (level : Level) (message : String) : (say level message).log = [⟨level, message⟩] := rfl

end Logged
end Reckoner.Log
