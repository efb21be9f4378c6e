import TableLoad.Text.Blank
import TableLoad.Text.DecimalDigit

namespace TableLoad.LiteralDefault

open Text (isBlank isDecimalDigit trimChars)

/-- A character in lower case: ASCII letters, and the two other characters whose lower or upper
case is one, the long s and the Kelvin sign. -/
def fold (c : Char) : Char :=
  if c = 'ſ' then 's' else if c = '\u212A' then 'k' else c.toLower

/-- What follows a word, in whatever case it is written. -/
def afterWord? : List Char → List Char → Option (List Char)
  | [], cs => some cs
  | w :: ws, c :: cs => if fold c = w then afterWord? ws cs else none
  | _ :: _, [] => none

def skipBlanks (cs : List Char) : List Char :=
  cs.dropWhile isBlank

/-- What follows a character that must be there. -/
def afterChar? (c : Char) : List Char → Option (List Char)
  | d :: cs => if d = c then some cs else none
  | [] => none

/-- What follows a character that may be there. -/
def skipChar (c : Char) (cs : List Char) : List Char :=
  (afterChar? c cs).getD cs

/-- What follows the closing quote; a quote inside the text is written twice. -/
def afterQuoted? : List Char → Option (List Char)
  | [] => none
  | '\'' :: '\'' :: cs => afterQuoted? cs
  | '\'' :: cs => some cs
  | _ :: cs => afterQuoted? cs

def isSign (c : Char) : Bool :=
  c == '+' || c == '-'

/-- What follows a sign that may be there. -/
def skipSign : List Char → List Char
  | [] => []
  | c :: cs => if isSign c then cs else c :: cs

/-- What follows the exponent, if there is a whole one. -/
def skipExponent : List Char → List Char
  | [] => []
  | c :: cs =>
    let digits := skipSign cs
    if fold c = 'e' && digits.head?.any isDecimalDigit then digits.dropWhile isDecimalDigit
    else c :: cs

/-- What follows digits with a point among them or at either end. -/
def afterMantissa? : List Char → Option (List Char)
  | [] => none
  | c :: cs =>
    if isDecimalDigit c then
      some ((skipChar '.' (cs.dropWhile isDecimalDigit)).dropWhile isDecimalDigit)
    else if c = '.' && cs.head?.any isDecimalDigit then some (cs.dropWhile isDecimalDigit)
    else none

/-- What follows a number: a sign, digits and a point, an exponent. -/
def afterNumber? (cs : List Char) : Option (List Char) :=
  (afterMantissa? (skipSign cs)).map skipExponent

/-- What follows a literal without its parentheses and casts. -/
def afterLiteral? (cs : List Char) : Option (List Char) :=
  (afterChar? '\'' cs).bind afterQuoted? <|> afterNumber? cs <|>
    afterWord? "null".toList cs <|> afterWord? "true".toList cs <|> afterWord? "false".toList cs

def isTypeStart (c : Char) : Bool :=
  (fold c).isLower || c == '_'

def isTypeChar (c : Char) : Bool :=
  isTypeStart c || c.isDigit || isBlank c

def isSizeChar (c : Char) : Bool :=
  isDecimalDigit c || c == ',' || isBlank c

/-- What follows sizes in parentheses. -/
def afterSizes? (cs : List Char) : Option (List Char) := do
  let inside ← afterChar? '(' cs
  afterChar? ')' (inside.dropWhile isSizeChar)

def skipSizes (cs : List Char) : List Char :=
  (afterSizes? cs).getD cs

def skipBrackets (cs : List Char) : List Char :=
  ((afterChar? '[' cs).bind (afterChar? ']')).getD cs

/-- What follows a type, perhaps with sizes and `[]`. -/
def afterType? : List Char → Option (List Char)
  | [] => none
  | c :: cs =>
    if isTypeStart c then some (skipBrackets (skipSizes (cs.dropWhile isTypeChar))) else none

/-- What follows `::` and a type. -/
def afterCast? (cs : List Char) : Option (List Char) := do
  let type ← afterChar? ':' (← afterChar? ':' (skipBlanks cs))
  afterType? (skipBlanks type)

/-- Nothing but casts; `fuel` bounds their number and is never short when it is the length of the
text, as each cast takes characters away. -/
def isCasts : (fuel : Nat) → List Char → Bool
  | _, [] => true
  | 0, _ :: _ => false
  | fuel + 1, cs =>
    match afterCast? cs with
    | some rest => isCasts fuel rest
    | none => false

/-- A literal, perhaps in parentheses, and casts behind it. Neither parenthesis asks for the other.
No piece can begin with what may follow the piece before it, so the longest one is the only one to
try. -/
def isLiteral (cs : List Char) : Bool :=
  match afterLiteral? (skipBlanks (skipChar '(' cs)) with
  | some rest =>
    let rest := skipChar ')' (skipBlanks rest)
    isCasts rest.length rest
  | none => false

def isOutside (c : Char) : Bool :=
  c != '(' && c != ')'

/-- The end of `CAST(... AS type)` behind `AS`: a blank, a type, its sizes and the parenthesis
that closes the text. -/
def isCastEnd : List Char → Bool
  | [] => false
  | c :: type =>
    isBlank c && type.head?.any isOutside &&
      skipBlanks (skipSizes (type.dropWhile isOutside)) == [')']

/-- What stands before the last `AS` that the end of a cast can follow. -/
def beforeLastAs? : List Char → Option (List Char)
  | [] => none
  | c :: cs =>
    match beforeLastAs? cs with
    | some before => some (c :: before)
    | none =>
      if isBlank c && ((afterWord? "as".toList cs).any isCastEnd) then some [] else none

/-- What follows `CAST(`. -/
def afterCastOpen? (cs : List Char) : Option (List Char) := do
  afterChar? '(' (skipBlanks (← afterWord? "cast".toList cs))

/-- What `CAST(... AS type)` casts. -/
def castOperand? (cs : List Char) : Option (List Char) := do
  let operand ← beforeLastAs? (← afterCastOpen? cs)
  return trimChars operand

/-- Whether a default is a literal: a quoted text, a number, `NULL`, `TRUE` or `FALSE`, perhaps in
parentheses, with type casts behind it, or inside `CAST(... AS type)`. Every other default is an
expression that the database has to work out. -/
def isLiteralDefault (default : String) : Bool :=
  let cs := trimChars default.toList
  isLiteral ((castOperand? cs).getD cs)

end TableLoad.LiteralDefault
