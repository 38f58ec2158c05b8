import SinkFencing.Config.Value
import SinkFencing.Number.Integer
import SinkFencing.Text.Blank
import SinkFencing.Text.Reader

namespace SinkFencing.EnvValue

open Reader

def isSpace (c : Char) : Bool :=
  c = ' ' || c = '\t' || c = '\n' || c = '\x0c' || c = '\r'

def isSeparator (c : Char) : Bool := c = ',' || c = '\x7b' || c = '\x7d' || c = '[' || c = ']'

def isKeyChar (c : Char) : Bool := c.isAlphanum || c = '_' || c = '-'

/-- An exponent is taken if digits follow it. -/
def exponent : Reader Int := do
  if (← peek?) = some 'e' ∨ (← peek?) = some 'E' then
    let _ ← next
    let negative ← sign
    return signed negative (ofDigits 10 (← takeWhile1 isDigit))
  return 0

/-- A decimal with a point, on one side of which the digits may be missing. -/
def decimal : Reader Decimal := do
  let negative ← sign
  let whole ← takeWhile isDigit
  accept '.'
  let fraction ← takeWhile isDigit
  guard (!(whole ++ fraction).isEmpty)
  return decimalOf negative whole fraction (← exponent)

/-- An integer with an optional sign. Only a negative one needs the minus to be read. -/
def integer (minus : Bool) : Reader Nat := do
  if minus then accept '-' else let _ ← eats "+"
  return ofDigits 10 (← takeWhile1 isDigit)

def float? (text : List Char) : Option Value :=
  (all? decimal text).map fun d => .float .environment (.ofDecimal d)

def unsigned? (text : List Char) : Option Value := do
  let n ← all? (integer false) text
  guard (n < UInt64.size)
  return .unsigned .environment n

def signed? (text : List Char) : Option Value := do
  let n ← all? (integer true) text
  guard (n ≤ Integer.int64Bound)
  return .signed .environment (-n)

/-- A text without separators: a number if it has the form of one. -/
def bare (text : List Char) : Value :=
  match float? text <|> unsigned? text <|> signed? text with
  | some number => number
  | none => .text .environment (String.ofList text)

/-- What stands before the quote that closes a text, and after it. A quote behind a backslash does
not close it. -/
def splitAtQuote : List Char → Option (List Char × List Char)
  | [] => none
  | '"' :: rest => some ([], rest)
  | '\\' :: c :: rest => (splitAtQuote rest).map fun (inner, after) => ('\\' :: c :: inner, after)
  | c :: rest => (splitAtQuote rest).map fun (inner, after) => (c :: inner, after)

def untilQuote : Reader (List Char) := fun cs => .ofOption (splitAtQuote cs)

/-- The characters at the beginning that take so many bytes together, unless one of them reaches
beyond. -/
def takeBytes : Nat → List Char → Option (List Char)
  | 0, _ => some []
  | _ + 1, [] => none
  | n + 1, c :: rest =>
    if c.utf8Size ≤ n + 1 then (takeBytes (n + 1 - c.utf8Size) rest).map (c :: ·) else none

example : takeBytes 3 ['é', 'a', 'b'] = some ['é', 'a'] := by decide
example : takeBytes 1 ['é', 'a', 'b'] = none := by decide

/-- A character of a text that may be written as an escape. -/
def innerChar : Reader (Option Char) := do
  match ← peek? with
  | none => return none
  | some '\\' =>
    accept '\\'
    return some (← escaped)
  | some _ => return some (← satisfy isPlain)

/-- Characters cut to as many bytes as there are characters. A cut through a character tears the
text. -/
def cut (cs : List Char) : Reader (List Char) :=
  match takeBytes cs.length cs with
  | some kept => pure kept
  | none => tear

/-- The text that is meant by what stands between quotes. If it has an escape, what stands before
the first one is cut. -/
def inner : Reader String := do
  let before ← takeWhile fun c => isPlain c && c ≠ '\\'
  if (← peek?) = some '\\' then
    let kept ← cut before
    return String.ofList (kept ++ (← repeated innerChar))
  return String.ofList before

def quoted : Reader String := do
  accept '"'
  all inner (← untilQuote)

def spaced {α : Type} (r : Reader α) : Reader α := do
  skipWhile isSpace
  let a ← r
  skipWhile isSpace
  return a

def key : Reader String := do
  if (← peek?) = some '"' then quoted
  else return String.ofList (← takeWhile1 isKeyChar)

def entry (value : Reader Value) : Reader (String × Value) := do
  let k ← spaced key
  accept '='
  return (k, ← value)

def ofEntries (entries : List (String × Value)) : Value :=
  .table .environment (entries.foldl (fun map (k, v) => Assoc.set k v map) [])

/-- One value with the blanks around it; `depth` bounds how deep lists and tables are nested. -/
def value : Nat → Reader Value
  | 0 => failure
  | depth + 1 => spaced do
    if ← eats "true" then return .flag .environment true
    if ← eats "false" then return .flag .environment false
    match ← peek? with
    | some '[' =>
      accept '['
      return .list .environment (← items ']' (pure ()) (value depth))
    | some '\x7b' =>
      accept '\x7b'
      return ofEntries (← items '\x7d' (pure ()) (entry (value depth)))
    | some '"' => return .text .environment (← quoted)
    | some '\'' =>
      accept '\''
      let c ← next
      accept '\''
      return .letter .environment c
    | _ => return bare (Text.trim (← takeWhile fun c => !isSeparator c))

/-- The value that a variable's text stands for, unless it is torn. -/
def read (text : String) : Option Value :=
  match all (value (text.length + 1)) text.toList with
  | .got v => some v
  | .mismatch => some (.text .environment text)
  | .torn => none

end SinkFencing.EnvValue
