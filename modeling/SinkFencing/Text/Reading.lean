namespace SinkFencing

inductive Reading (α : Type)
  | got (a : α)
  | mismatch
  | torn

namespace Reading

variable {α β : Type}

def bind : Reading α → (α → Reading β) → Reading β
  | got a, f => f a
  | mismatch, _ => mismatch
  | torn, _ => torn

instance : Monad Reading where
  pure := got
  bind := bind

instance : LawfulMonad Reading := LawfulMonad.mk' Reading
  (by intro α r; cases r <;> rfl)
  (by intros; rfl)
  (by intro α β γ r f g; cases r <;> rfl)

def orElse : Reading α → (Unit → Reading α) → Reading α
  | got a, _ => got a
  | mismatch, other => other ()
  | torn, _ => torn

instance : Alternative Reading where
  failure := mismatch
  orElse := orElse

def ofOption : Option α → Reading α
  | some a => got a
  | none => mismatch

instance : MonadLift Option Reading := ⟨ofOption⟩

def value? : Reading α → Option α
  | got a => some a
  | mismatch => none
  | torn => none

end Reading

end SinkFencing
