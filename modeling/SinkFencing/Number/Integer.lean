namespace SinkFencing

inductive IntegerFault
  | empty
  | invalidDigit
  | tooLarge
  | tooSmall
deriving DecidableEq

def IntegerFault.message : IntegerFault → String
  | empty => "cannot parse integer from empty string"
  | invalidDigit => "invalid digit found in string"
  | tooLarge => "number too large to fit in target type"
  | tooSmall => "number too small to fit in target type"

namespace Integer

/-- One more than the greatest integer of 64 bits, and the least one without its sign. -/
def int64Bound : Nat := 9223372036854775808

/-- The value of digits after `sofar`, no more than `limit`. -/
def magnitude (limit : Nat) (beyond : IntegerFault) (sofar : Nat) :
    List Char → Except IntegerFault Nat
  | [] => .ok sofar
  | c :: rest =>
    if c.isDigit then
      let n := 10 * sofar + (c.toNat - '0'.toNat)
      if n ≤ limit then magnitude limit beyond n rest else .error beyond
    else .error .invalidDigit

/-- Reads an integer from `-low` to `high`; without room below zero a minus is no sign. -/
def read (low high : Nat) (text : String) : Except IntegerFault Int :=
  match text.toList with
  | [] => .error .empty
  | ['+'] | ['-'] => .error .invalidDigit
  | '+' :: digits => (magnitude high .tooLarge 0 digits).map Int.ofNat
  | '-' :: digits =>
    if low = 0 then .error .invalidDigit
    else (magnitude low .tooSmall 0 digits).map fun n => -(n : Int)
  | digits => (magnitude high .tooLarge 0 digits).map Int.ofNat

def readInt64 (text : String) : Except IntegerFault Int := read int64Bound (int64Bound - 1) text

def readUInt32 (text : String) : Except IntegerFault UInt32 :=
  (read 0 (UInt32.size - 1) text).map fun n => .ofNat n.toNat

end Integer

end SinkFencing
