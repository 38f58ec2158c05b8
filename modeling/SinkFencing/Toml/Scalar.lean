import SinkFencing.Number.Integer
import SinkFencing.Text.Reader
import SinkFencing.Toml.Table

namespace SinkFencing.Toml

open Reader

def isSpace (c : Char) : Bool := c = ' ' || c = '\t'

def spaces : Reader Unit := skipWhile isSpace

/-- A line ends with a line feed, before which a carriage return may stand. -/
def newline? : Reader Bool := do
  if ← eats "\n" then return true
  eats "\r\n"

def basicChar (quote : Char) (escapes : Bool) : Reader (Option Char) := do
  match ← peek? with
  | some c =>
    if c = quote then return none
    if escapes ∧ c = '\\' then
      let _ ← next
      return some (← escaped)
    return some (← satisfy isPlain)
  | none => failure

def lineText (quote : Char) (escapes : Bool) : Reader String := do
  accept quote
  let chars ← repeated (basicChar quote escapes)
  accept quote
  return String.ofList chars

/-- A backslash at the end of a line hides the blanks up to the next visible character. -/
def foldedEnd? : Reader Bool := do
  let folded ← optional do
    accept '\\'
    spaces
    guard (← newline?)
  if folded.isNone then return false
  skipWhile fun c => isSpace c || c = '\n'
  let _ ← repeated do
    if ← eats "\r\n" then
      skipWhile fun c => isSpace c || c = '\n'
      return some ()
    else return none
  return true

/-- A piece of a text over several lines, up to a run of three quotes or more. -/
def blockPiece (quote : Char) (escapes : Bool) : Reader (Option (List Char)) := do
  let quotes := (← rest).takeWhile (· = quote)
  if 3 ≤ quotes.length then return none
  if !quotes.isEmpty then
    skipWhile (· = quote)
    return some quotes
  if ← newline? then return some ['\n']
  if escapes then
    if ← foldedEnd? then return some []
  match ← basicChar quote escapes with
  | some c => return some [c]
  | none => failure

/-- A text over several lines. Up to two quotes before the closing three belong to it, and so does
no line break right after the opening three. -/
def blockText (quote : Char) (escapes : Bool) : Reader String := do
  let fence := String.ofList [quote, quote, quote]
  acceptText fence
  let _ ← newline?
  let pieces ← repeated (blockPiece quote escapes)
  let run := (← rest).takeWhile (· = quote)
  let own := run.take (min 2 (run.length - 3))
  acceptText (String.ofList own)
  acceptText fence
  return String.ofList (pieces.flatten ++ own)

def textOf (quote : Char) (escapes : Bool) : Reader String := do
  if [quote, quote, quote].isPrefixOf (← rest) then blockText quote escapes
  else lineText quote escapes

/-- Digits, between any two of which an underscore may stand. -/
def groupedDigits (digit : Char → Bool) : Reader (List Char) := do
  let first ← satisfy digit
  let more ← repeated do
    if ← eats "_" then return some (← satisfy digit)
    match ← peek? with
    | some c => if digit c then return some (← next) else return none
    | none => return none
  return first :: more

/-- The digits of an integer, which begin with a zero only if it is the one digit. -/
def wholeDigits : Reader (List Char) := do
  if ← eats "0" then return ['0'] else groupedDigits isDigit

def integerOf (n : Int) : Reader Value := do
  guard (-(Integer.int64Bound : Int) ≤ n ∧ n < Integer.int64Bound)
  return .integer n

/-- An integer in a base other than ten, after its mark. -/
def basedInteger? : Reader (Option Value) := do
  if ← eats "0x" then return some (← integerOf (ofDigits 16 (← groupedDigits isHexDigit)))
  if ← eats "0o" then
    return some (← integerOf (ofDigits 8 (← groupedDigits fun c => '0' ≤ c ∧ c ≤ '7')))
  if ← eats "0b" then
    return some (← integerOf (ofDigits 2 (← groupedDigits fun c => c = '0' ∨ c = '1')))
  return none

def fraction? : Reader (Option (List Char)) := do
  if ← eats "." then return some (← groupedDigits isDigit) else return none

def exponent? : Reader (Option Int) := do
  if (← peek?) = some 'e' ∨ (← peek?) = some 'E' then
    let _ ← next
    let negative ← sign
    return some (signed negative (ofDigits 10 (← groupedDigits isDigit)))
  return none

/-- A float beyond the range above is refused; beyond the range below it is infinite. -/
def floatOf (d : Decimal) : Reader Value := do
  let x := Binary64.ofDecimal d
  guard (x ≠ .infinite false)
  return .float x

def signedNumber : Reader Value := do
  let negative ← sign
  if ← eats "inf" then return .float (.infinite negative)
  if ← eats "nan" then return .float .nan
  let whole ← wholeDigits
  match ← fraction?, ← exponent? with
  | none, none => integerOf (signed negative (ofDigits 10 whole))
  | fraction, power => floatOf (decimalOf negative whole (fraction.getD []) (power.getD 0))

def number : Reader Value := do
  match ← basedInteger? with
  | some n => return n
  | none => signedNumber

/-- A number of exactly so many digits within limits. -/
def fixedNumber (digits low high : Nat) : Reader Nat := do
  let code := (← rest).take digits
  guard (code.length = digits ∧ code.all isDigit)
  acceptText (String.ofList code)
  let n := ofDigits 10 code
  guard (low ≤ n ∧ n ≤ high)
  return n

def daysIn (year month : Nat) : Nat :=
  if month = 2 then
    if year % 4 = 0 ∧ (year % 100 ≠ 0 ∨ year % 400 = 0) then 29 else 28
  else if month = 4 ∨ month = 6 ∨ month = 9 ∨ month = 11 then 30
  else 31

def date : Reader Unit := do
  let year ← fixedNumber 4 0 9999
  accept '-'
  let month ← fixedNumber 2 1 12
  accept '-'
  let _ ← fixedNumber 2 1 (daysIn year month)

def time : Reader Unit := do
  let _ ← fixedNumber 2 0 23
  accept ':'
  let _ ← fixedNumber 2 0 59
  accept ':'
  let _ ← fixedNumber 2 0 60
  let _ ← optional do
    accept '.'
    takeWhile1 isDigit

def offset : Reader Unit := do
  match ← next with
  | 'Z' | 'z' => return
  | '+' | '-' =>
    let _ ← fixedNumber 2 0 23
    accept ':'
    let _ ← fixedNumber 2 0 59
  | _ => failure

/-- A date, after which a time may follow, and after that an offset. -/
def dateTime : Reader Unit := do
  date
  let _ ← optional do
    let _ ← satisfy fun c => c = 'T' || c = 't' || c = ' '
    time
    let _ ← optional offset

def moment : Reader Value := do
  let start ← rest
  dateTime <|> time
  return .moment (String.ofList (start.take (start.length - (← rest).length)))

def flag : Reader Value := do
  if ← eats "true" then return .flag true
  acceptText "false"
  return .flag false

/-- Whether digits and then one of the marks stand next, as in a moment. -/
def looksLike (digits : Nat) (mark : Char) : Reader Bool := do
  let front := (← rest).take (digits + 1)
  return front.length = digits + 1 ∧ (front.take digits).all isDigit ∧ front.getLast? = some mark

def scalar : Reader Value := do
  match ← peek? with
  | some '"' => return .text (← textOf '"' true)
  | some '\'' => return .text (← textOf '\'' false)
  | some 't' | some 'f' => flag
  | _ => do
    if (← looksLike 4 '-') || (← looksLike 2 ':') then moment else number

end SinkFencing.Toml
