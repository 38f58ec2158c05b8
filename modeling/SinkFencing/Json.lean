namespace SinkFencing

inductive Json
  | null
  | bool (b : Bool)
  | number (literal : String)
  | text (s : String)
  | list (items : List Json)
  | object (entries : List (String × Json))
deriving Inhabited

namespace Json

def ofNat (n : Nat) : Json := number n.repr

def ofTexts (items : List String) : Json := list (items.map text)

def shortEscape? : Char → Option Char
  | '"' => some '"'
  | '\\' => some '\\'
  | '\x08' => some 'b'
  | '\t' => some 't'
  | '\n' => some 'n'
  | '\x0c' => some 'f'
  | '\r' => some 'r'
  | _ => none

def hexPair (n : Nat) : List Char := [Nat.digitChar (n / 16 % 16), Nat.digitChar (n % 16)]

def escapeChar (c : Char) : List Char :=
  match shortEscape? c with
  | some short => ['\\', short]
  | none => if c.toNat < 0x20 then "\\u00".toList ++ hexPair c.toNat else [c]

def quoted (s : String) : String := String.ofList ('"' :: s.toList.flatMap escapeChar ++ ['"'])

def atom? : Json → Option String
  | null => some "null"
  | bool b => some (if b then "true" else "false")
  | number literal => some literal
  | text s => some (quoted s)
  | list [] => some "[]"
  | object [] => some "\x7b\x7d"
  | _ => none

mutual

def compact : Json → String
  | list items => "[" ++ ",".intercalate (compactItems items) ++ "]"
  | object entries => "\x7b" ++ ",".intercalate (compactEntries entries) ++ "\x7d"
  | other => (atom? other).getD ""

def compactItems : List Json → List String
  | [] => []
  | item :: rest => compact item :: compactItems rest

def compactEntries : List (String × Json) → List String
  | [] => []
  | (key, value) :: rest => (quoted key ++ ":" ++ compact value) :: compactEntries rest

end

def lineAt (depth : Nat) : String := String.ofList ('\n' :: List.replicate (2 * depth) ' ')

def block (depth : Nat) (left right : String) (parts : List String) : String :=
  left ++ ",".intercalate (parts.map fun part => lineAt (depth + 1) ++ part) ++ lineAt depth
    ++ right

mutual

def prettyAt (depth : Nat) : Json → String
  | list (item :: rest) =>
    block depth "[" "]" (prettyAt (depth + 1) item :: prettyItems (depth + 1) rest)
  | object (entry :: rest) =>
    block depth "\x7b" "\x7d" (prettyEntries (depth + 1) (entry :: rest))
  | other => (atom? other).getD ""

def prettyItems (depth : Nat) : List Json → List String
  | [] => []
  | item :: rest => prettyAt depth item :: prettyItems depth rest

def prettyEntries (depth : Nat) : List (String × Json) → List String
  | [] => []
  | (key, value) :: rest => (quoted key ++ ": " ++ prettyAt depth value) :: prettyEntries depth rest

end

def pretty (j : Json) : String := prettyAt 0 j

end Json

end SinkFencing
