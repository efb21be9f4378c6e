import TableLoad.Json.Basic
import TableLoad.Number.Shortest

namespace TableLoad.Json

/-- Whole floats keep a zero behind the point, and the point is written out from `10 ^ (-5)` up to
`10 ^ 16`. -/
def numberLayout : NumberLayout :=
  ⟨some (-4, 16), ".0"⟩

/-- Strings escape the quote, the backslash and the control characters below the space, nothing
else. -/
def escapeChar (c : Char) : List Char :=
  if c = '"' then ['\\', '"']
  else if c = '\\' then ['\\', '\\']
  else if c = '\n' then ['\\', 'n']
  else if c = '\r' then ['\\', 'r']
  else if c = '\t' then ['\\', 't']
  else if c.toNat = 8 then ['\\', 'b']
  else if c.toNat = 12 then ['\\', 'f']
  else if c.toNat < 0x10 then ['\\', 'u', '0', '0', '0'] ++ Nat.toDigits 16 c.toNat
  else if c.toNat < 0x20 then ['\\', 'u', '0', '0'] ++ Nat.toDigits 16 c.toNat
  else [c]

def stringText (s : String) : String :=
  String.ofList ('"' :: s.toList.flatMap escapeChar ++ ['"'])

/-- A float that is not finite has no JSON number and is written as null. -/
def Number.text : Number → String
  | .int i => toString i
  | .float x => if x.isFinite then numberLayout.text x else "null"

mutual

/-- The text without any space. -/
def compact : Json → String
  | null => "null"
  | bool b => if b then "true" else "false"
  | number n => n.text
  | string s => stringText s
  | array es => "[" ++ ",".intercalate (compactElements es) ++ "]"
  | object ms => "\x7b" ++ ",".intercalate (compactMembers ms) ++ "\x7d"

def compactElements : List Json → List String
  | [] => []
  | v :: vs => compact v :: compactElements vs

def compactMembers : List (String × Json) → List String
  | [] => []
  | (k, v) :: ms => (stringText k ++ ":" ++ compact v) :: compactMembers ms

end

def indentation (depth : Nat) : String :=
  String.ofList (List.replicate (2 * depth) ' ')

/-- The items of an array or object, one a line. -/
def block (opening closing : String) (depth : Nat) (items : List String) : String :=
  match items with
  | [] => opening ++ closing
  | items =>
    let inner := "\n" ++ indentation (depth + 1)
    opening ++ inner ++ ("," ++ inner).intercalate items ++ "\n" ++ indentation depth ++ closing

mutual

/-- The text with every member and element on a line of its own, two spaces a level. -/
def indented (depth : Nat) : Json → String
  | array es => block "[" "]" depth (indentedElements (depth + 1) es)
  | object ms => block "\x7b" "\x7d" depth (indentedMembers (depth + 1) ms)
  | null => "null"
  | bool b => if b then "true" else "false"
  | number n => n.text
  | string s => stringText s

def indentedElements (depth : Nat) : List Json → List String
  | [] => []
  | v :: vs => indented depth v :: indentedElements depth vs

def indentedMembers (depth : Nat) : List (String × Json) → List String
  | [] => []
  | (k, v) :: ms => (stringText k ++ ": " ++ indented depth v) :: indentedMembers depth ms

end

end TableLoad.Json
