import SinkFencing.Text.Hidden

namespace SinkFencing.Text

def shortForm? : Char → Option Char
  | '\x00' => some '0'
  | '\t' => some 't'
  | '\r' => some 'r'
  | '\n' => some 'n'
  | '"' => some '"'
  | '\\' => some '\\'
  | _ => none

def quoteChar (c : Char) : List Char :=
  match shortForm? c with
  | some short => ['\\', short]
  | none =>
    if 0x20 ≤ c.toNat ∧ c.toNat < 0x7f then [c]
    else if isHidden c then "\\u\x7b".toList ++ Nat.toDigits 16 c.toNat ++ ['\x7d']
    else [c]

def quote (s : String) : String := String.ofList ('"' :: s.toList.flatMap quoteChar ++ ['"'])

def quoteList (items : List String) : String := "[" ++ ", ".intercalate (items.map quote) ++ "]"

end SinkFencing.Text
