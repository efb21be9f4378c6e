import TableLoad.Text.HexDigit
import TableLoad.Yaml.Scalar.Gap

namespace TableLoad.Yaml

inductive QuotedStage
  | text
  /-- Behind a backslash. -/
  | escape
  /-- Inside a numbered escape: how many digits are owed, and the number so far. -/
  | hex (owed value : Nat)
  /-- Behind a single quote, which ends the scalar unless another one follows. -/
  | quote
deriving DecidableEq, Repr

/-- A quoted scalar as far as it was read, its characters latest first. Between single quotes only
the quote itself is special, and is written twice; between double quotes a backslash escapes. -/
structure Quoted where
  isDouble : Bool
  stage : QuotedStage
  text : List Char
  gap : Gap
deriving DecidableEq, Repr

namespace Quoted

def start (isDouble : Bool) : Quoted :=
  ⟨isDouble, .text, [], .empty⟩

/-- What one character behind a backslash stands for. -/
def escape? (c : Char) : Option Char :=
  match c with
  | '0' => some '\x00'
  | 'a' => some '\x07'
  | 'b' => some '\x08'
  | 't' | '\t' => some '\t'
  | 'n' => some '\n'
  | 'v' => some '\x0b'
  | 'f' => some '\x0c'
  | 'r' => some '\r'
  | 'e' => some '\x1b'
  | ' ' | '"' | '/' | '\\' => some c
  | 'N' => some '\u0085'
  | '_' => some '\u00a0'
  | 'L' => some '\u2028'
  | 'P' => some '\u2029'
  | _ => none

/-- How many digits a numbered escape has. -/
def hexLength? (c : Char) : Option Nat :=
  match c with
  | 'x' => some 2
  | 'u' => some 4
  | 'U' => some 8
  | _ => none

/-- One more character of the text. -/
def push (q : Quoted) (c : Char) : Quoted :=
  { q with stage := .text, text := c :: q.text }

/-- A character behind a backslash. -/
def escapeStep (q : Quoted) (c : Char) : Outcome Quoted :=
  if isBreak c then .more { q with stage := .text, gap := .breaks none [] }
  else match escape? c, hexLength? c with
    | some d, _ => .more (q.push d)
    | none, some n => .more { q with stage := .hex n 0 }
    | none, none => .refused

/-- A digit of a numbered escape; the number must be that of a character. -/
def hexStep (q : Quoted) (owed value : Nat) (c : Char) : Outcome Quoted :=
  match Text.hexDigitValue? c with
  | none => .refused
  | some d =>
    let n := value * 16 + d
    if 1 < owed then .more { q with stage := .hex (owed - 1) n }
    else if n.isValidChar then .more (q.push (Char.ofNat n))
    else .refused

/-- A character that is not escaped. -/
def textStep (column : Nat) (q : Quoted) (c : Char) (cs : List Char) : Outcome Quoted :=
  if column == 0 && isDocumentMark (c :: cs) then .refused
  else if isBreak c || isSpaceOrTab c then .more { q with gap := q.gap.add c }
  else
    let q := { q with text := q.gap.folded ++ q.text, gap := .empty }
    if q.isDouble then
      if c == '"' then .closed (textOfReversed q.text)
      else if c == '\\' then .more { q with stage := .escape }
      else .more (q.push c)
    else if c == '\'' then .more { q with stage := .quote }
    else .more (q.push c)

/-- One more character, with what follows it. -/
def step (column : Nat) (q : Quoted) (c : Char) (cs : List Char) : Outcome Quoted :=
  match q.stage with
  | .text => textStep column q c cs
  | .escape => q.escapeStep c
  | .hex owed value => q.hexStep owed value c
  | .quote => if c == '\'' then .more (q.push c) else .endedBefore (textOfReversed q.text)

/-- The text, if the stream may end here. -/
def finish? (q : Quoted) : Option String :=
  if q.stage = .quote then some (textOfReversed q.text) else none

end Quoted

end TableLoad.Yaml
