namespace TableLoad.Yaml

/-- A character that may stand in a stream. -/
def isAllowed (c : Char) : Bool :=
  let n := c.toNat
  n == 9 || n == 10 || n == 13 || (0x20 ≤ n && n ≤ 0x7E) || n == 0x85 ||
    (0xA0 ≤ n && n ≤ 0xFFFD) || 0x10000 ≤ n

/-- A character that ends a line. -/
def isBreak (c : Char) : Bool :=
  c == '\n' || c == '\u2028' || c == '\u2029'

def isSpaceOrTab (c : Char) : Bool :=
  c == ' ' || c == '\t'

/-- A blank, the end of a line or the end of the stream comes next. -/
def blankNext : List Char → Bool
  | [] => true
  | c :: _ => isSpaceOrTab c || isBreak c

/-- Every way to end a line but the two separators becomes a line feed. -/
def normalizeBreaks : List Char → List Char
  | [] => []
  | '\r' :: '\n' :: cs => '\n' :: normalizeBreaks cs
  | c :: cs => (if c = '\r' || c = '\u0085' then '\n' else c) :: normalizeBreaks cs

/-- Three hyphens or three points, and then nothing but blanks may follow at once. -/
def isDocumentMark : List Char → Bool
  | '-' :: '-' :: '-' :: cs => blankNext cs
  | '.' :: '.' :: '.' :: cs => blankNext cs
  | _ => false

/-- A place in the stream. -/
structure Place where
  line : Nat
  column : Nat
  /-- Characters before the place. -/
  index : Nat
deriving DecidableEq, Repr

/-- The place behind a character. -/
def Place.after (p : Place) (c : Char) : Place :=
  if isBreak c then ⟨p.line + 1, 0, p.index + 1⟩ else ⟨p.line, p.column + 1, p.index + 1⟩

def Place.start : Place :=
  ⟨0, 0, 0⟩

end TableLoad.Yaml
