import TableLoad.Yaml.Scalar.Gap

namespace TableLoad.Yaml

/-- What becomes of the line breaks at the end: all but the first go, all go, or all stay. -/
inductive Chomping
  | clip | strip | keep
deriving DecidableEq, Repr

inductive BlockStage
  /-- In the header, which may still hold a sign and a digit. -/
  | header (sign digit : Bool)
  | headerBlanks
  | headerComment
  /-- Before the first character of a line that is not indentation. -/
  | indentation
  | line
deriving DecidableEq, Repr

/-- A block scalar as far as it was read: the indented lines below a `|` or a `>`, their characters
latest first. Behind `>` a break between two lines that begin with no blank is folded into a space.
-/
structure Block where
  folds : Bool
  /-- The column of the collection around the scalar; none at the outermost level. -/
  parent : Option Nat
  chomping : Chomping
  /-- How deep the lines are indented, once that is known. -/
  indent : Option Nat
  /-- The widest indentation of an empty line. -/
  widest : Nat
  stage : BlockStage
  text : List Char
  /-- The break at the end of the last line. -/
  lastBreak : Option Char
  /-- The breaks of the empty lines behind it. -/
  emptyLines : List Char
  /-- The last line began with a blank. -/
  beganBlank : Bool
deriving DecidableEq, Repr

namespace Block

def start (folds : Bool) (parent : Option Nat) : Block where
  folds := folds
  parent := parent
  chomping := .clip
  indent := none
  widest := 0
  stage := .header true true
  text := []
  lastBreak := none
  emptyLines := []
  beganBlank := false

/-- A column is still part of the indentation. -/
def indents (b : Block) (column : Nat) : Bool :=
  b.indent.all (column < ·)

/-- The indentation that the first line that is not empty settles: its own or that of an empty
line before it, but deeper than what is around the scalar. -/
def settledIndent (b : Block) (column : Nat) : Nat :=
  b.indent.getD (max (max b.widest column) (b.parent.elim 1 (· + 1)))

/-- The breaks between the last line and a new one. -/
def joined (b : Block) (beginsBlank : Bool) : List Char :=
  if b.folds && b.lastBreak = some '\n' && !b.beganBlank && !beginsBlank then
    if b.emptyLines.isEmpty then [' '] else b.emptyLines
  else b.emptyLines ++ b.lastBreak.toList

/-- The text with what the header leaves of the breaks at its end. -/
def chomped (b : Block) : String :=
  let tail := match b.chomping with
    | .strip => []
    | .clip => b.lastBreak.toList
    | .keep => b.emptyLines ++ b.lastBreak.toList
  textOfReversed (tail ++ b.text)

/-- A character of the header. -/
def headerStep (b : Block) (c : Char) : Outcome Block :=
  let blanks : Outcome Block :=
    if isBreak c then .more { b with stage := .indentation }
    else if isSpaceOrTab c then .more { b with stage := .headerBlanks }
    else if c == '#' then .more { b with stage := .headerComment }
    else .refused
  match b.stage with
  | .header sign digit =>
    if sign && c == '+' then .more { b with chomping := .keep, stage := .header false digit }
    else if sign && c == '-' then .more { b with chomping := .strip, stage := .header false digit }
    else if digit && c.isDigit then
      if c == '0' then .refused
      else .more { b with
        indent := some (b.parent.getD 0 + (c.toNat - '0'.toNat)), stage := .header sign false }
    else blanks
  | _ => blanks

/-- A character at the beginning of a line. -/
def indentationStep (column : Nat) (b : Block) (c : Char) : Outcome Block :=
  if isBreak c then
    .more { b with emptyLines := c :: b.emptyLines, widest := max b.widest column }
  else if b.indents column && c == ' ' then .more b
  else if b.indents column && c == '\t' then .refused
  else
    let indent := b.settledIndent column
    if column = indent then
      let beginsBlank := isSpaceOrTab c
      .more { b with
        indent := some indent, stage := .line, text := c :: b.joined beginsBlank ++ b.text,
        lastBreak := none, emptyLines := [], beganBlank := beginsBlank }
    else .endedBefore b.chomped

/-- One more character. -/
def step (column : Nat) (b : Block) (c : Char) : Outcome Block :=
  match b.stage with
  | .header .. | .headerBlanks => b.headerStep c
  | .headerComment => if isBreak c then .more { b with stage := .indentation } else .more b
  | .indentation => b.indentationStep column c
  | .line =>
    if isBreak c then .more { b with stage := .indentation, lastBreak := some c }
    else .more { b with text := c :: b.text }

end Block

end TableLoad.Yaml
