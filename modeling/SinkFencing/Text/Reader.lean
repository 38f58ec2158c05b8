import SinkFencing.Number.Binary64
import SinkFencing.Text.Reading

namespace SinkFencing

abbrev Reader : Type → Type := StateT (List Char) Reading

namespace Reader

variable {α : Type}

def all (r : Reader α) (text : List Char) : Reading α := do
  let (a, rest) ← r.run text
  guard rest.isEmpty
  return a

def all? (r : Reader α) (text : List Char) : Option α := (all r text).value?

def tear : Reader α := fun _ => .torn

def rest : Reader (List Char) := get

def peek? : Reader (Option Char) := fun cs => .got (cs.head?, cs)

def next : Reader Char
  | [] => .mismatch
  | c :: cs => .got (c, cs)

def satisfy (p : Char → Bool) : Reader Char
  | [] => .mismatch
  | c :: cs => if p c then .got (c, cs) else .mismatch

def accept (c : Char) : Reader Unit := do
  let _ ← satisfy (· = c)

def eats (text : String) : Reader Bool := fun cs =>
  if text.toList.isPrefixOf cs then .got (true, cs.drop text.length) else .got (false, cs)

def acceptText (text : String) : Reader Unit := do
  guard (← eats text)

def takeWhile (p : Char → Bool) : Reader (List Char) := fun cs =>
  .got (cs.takeWhile p, cs.dropWhile p)

def takeWhile1 (p : Char → Bool) : Reader (List Char) := do
  let taken ← takeWhile p
  guard !taken.isEmpty
  return taken

def skipWhile (p : Char → Bool) : Reader Unit := do
  let _ ← takeWhile p

/-- At most `n` items of a sequence, up to where one has no item any more. -/
def upTo (step : Reader (Option α)) : Nat → Reader (List α)
  | 0 => return []
  | n + 1 => do
    match ← step with
    | none => return []
    | some a => return a :: (← upTo step n)

/-- All items of a sequence, each of which takes at least one character. -/
def repeated (step : Reader (Option α)) : Reader (List α) := do
  upTo step ((← rest).length + 1)

def member (close : Char) (item : Reader α) : Reader (Option α) := do
  let a ← item
  if (← peek?) = some close then
    return some a
  accept ','
  return some a

/-- Items between commas up to a closing character, which a comma may precede. -/
def items (close : Char) (gap : Reader Unit) (item : Reader α) : Reader (List α) := do
  let read ← repeated do
    gap
    if (← peek?) = some close then return none
    member close item
  accept close
  return read

def isDigit (c : Char) : Bool := c.isDigit

def isHexDigit (c : Char) : Bool :=
  c.isDigit || ('a' ≤ c && c ≤ 'f') || ('A' ≤ c && c ≤ 'F')

def digitValue (c : Char) : Nat :=
  if c.isDigit then c.toNat - '0'.toNat
  else if 'a' ≤ c then c.toNat - 'a'.toNat + 10
  else c.toNat - 'A'.toNat + 10

def ofDigits (base : Nat) (digits : List Char) : Nat :=
  digits.foldl (fun n c => base * n + digitValue c) 0

def scalar? (n : Nat) : Option Char :=
  if n < 0xd800 ∨ (0xdfff < n ∧ n < 0x110000) then some (Char.ofNat n) else none

def hexScalar (digits : Nat) : Reader Char := do
  let text ← rest
  let code := text.take digits
  guard (code.length = digits ∧ code.all isHexDigit)
  set (text.drop digits)
  scalar? (ofDigits 16 code)

def escaped : Reader Char := do
  match ← next with
  | 'b' => return '\x08'
  | 't' => return '\t'
  | 'n' => return '\n'
  | 'f' => return '\x0c'
  | 'r' => return '\r'
  | '"' => return '"'
  | '\\' => return '\\'
  | 'u' => hexScalar 4
  | 'U' => hexScalar 8
  | _ => failure

/-- A character that may stand in a quoted text as it is: no control but the tabulator. -/
def isPlain (c : Char) : Bool := c = '\t' || (0x20 ≤ c.toNat && c.toNat ≠ 0x7f)

/-- The decimal with these digits before and after the point and this exponent. -/
def decimalOf (negative : Bool) (whole fraction : List Char) (exponent : Int) : Decimal :=
  ⟨negative, ofDigits 10 (whole ++ fraction), exponent - fraction.length⟩

def sign : Reader Bool := do
  if ← eats "-" then return true
  let _ ← eats "+"
  return false

def signed (negative : Bool) (n : Nat) : Int := if negative then -n else n

end Reader

end SinkFencing
