import SinkFencing.Toml.Scalar

namespace SinkFencing.Toml

open Reader

/-- Values are nested, and keys are dotted, less deeply than this. -/
def maxDepth : Nat := 80

def isBareKeyChar (c : Char) : Bool := c.isAlphanum || c = '_' || c = '-'

def keyPart : Reader String := do
  match ← peek? with
  | some '"' => lineText '"' true
  | some '\'' => lineText '\'' false
  | _ => return String.ofList (← takeWhile1 isBareKeyChar)

structure Key where
  path : List String
  last : String

def key : Reader Key := do
  let part := do
    spaces
    let k ← keyPart
    spaces
    return k
  let first ← part
  let more ← repeated do
    if ← eats "." then return some (← part) else return none
  let parts := first :: more
  guard (parts.length < maxDepth)
  return ⟨parts.dropLast, parts.getLastD ""⟩

/-- A comment reaches to the end of its line and holds no control characters. -/
def comment : Reader Unit := do
  if ← eats "#" then skipWhile isPlain

def gap : Reader Unit := do
  let _ ← repeated do
    let start ← rest
    spaces
    comment
    let broken ← newline?
    return if broken ∨ (← rest).length < start.length then some () else none

def pairOf (value : Reader Value) : Reader (Key × Value) := do
  let k ← key
  accept '='
  spaces
  let v ← value
  spaces
  return (k, v)

def tableOf (pairs : List (Key × Value)) : Option Entries :=
  pairs.foldlM (fun entries (k, v) => putAt k.path k.last v .headed entries) []

/-- The pairs of a table on one line, without a comma after the last. -/
def linePairs (value : Reader Value) : Reader (List (Key × Value)) := do
  spaces
  if (← peek?) = some '\x7d' then return []
  let first ← pairOf value
  let more ← repeated do
    if ← eats "," then return some (← pairOf value) else return none
  return first :: more

/-- A value, in which lists and tables are nested to less than `depth`. -/
def value : Nat → Reader Value
  | 0 => failure
  | depth + 1 => do
    match ← peek? with
    | some '[' =>
      guard (0 < depth)
      accept '['
      let item := do
        let v ← value depth
        gap
        return v
      return .list (← items ']' gap item)
    | some '\x7b' =>
      guard (0 < depth)
      accept '\x7b'
      let pairs ← linePairs (value depth)
      accept '\x7d'
      return .table (valuesOf (← (tableOf pairs : Option Entries)))
    | _ => scalar

inductive Line
  | blank
  | pair (key : Key) (value : Value)
  | header (key : Key)
  | item (key : Key)

def line : Reader Line := do
  spaces
  if ← eats "[[" then
    let k ← key
    acceptText "]]"
    return .item k
  if ← eats "[" then
    let k ← key
    accept ']'
    return .header k
  match ← peek? with
  | none | some '#' | some '\n' | some '\r' => return .blank
  | _ => do
    let (k, v) ← pairOf (value maxDepth)
    return .pair k v

/-- The root, and the path of the table that pairs are added to. -/
structure Builder where
  root : Entries := []
  current : List String := []

def Builder.add (b : Builder) : Line → Option Builder
  | .blank => some b
  | .pair k v => do
    return { b with root := ← (putAt k.path k.last v).at .passed b.current .headed b.root }
  | .header k => do
    return ⟨← (beginTable k.last).at .passed k.path .headed b.root, k.path ++ [k.last]⟩
  | .item k => do
    return ⟨← (beginItem k.last).at .passed k.path .headed b.root, k.path ++ [k.last]⟩

/-- A line with its end, unless the text has ended. -/
def nextLine : Reader (Option Line) := do
  if (← rest).isEmpty then return none
  let l ← line
  spaces
  comment
  if !(← newline?) then guard (← rest).isEmpty
  return some l

def document : Reader Builder := do
  let _ ← eats "\ufeff"
  let lines ← repeated nextLine
  (lines.foldlM Builder.add {} : Option Builder)

def read? (text : String) : Option (List (String × Value)) :=
  (all? document text.toList).map fun b => valuesOf b.root

end SinkFencing.Toml
