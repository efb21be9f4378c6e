import TableLoad.Yaml.Scalar.Gap

namespace TableLoad.Yaml

/-- Text without quotes as far as it was read, its characters latest first. It ends at a colon or a
comment, at a line that is indented too little, and inside brackets at every character that has a
meaning there. -/
structure Plain where
  text : List Char
  gap : Gap
deriving DecidableEq, Repr

namespace Plain

/-- Where a plain scalar stands. -/
structure Context where
  /-- Inside brackets. -/
  inFlow : Bool
  /-- The least column at which a further line may begin. -/
  leastColumn : Nat
deriving DecidableEq, Repr

def isFlowIndicator (c : Char) : Bool :=
  c == ',' || c == '[' || c == ']' || c == '\x7b' || c == '\x7d'

/-- The scalar ends before a character that is neither blank nor break. -/
def endsBefore (ctx : Context) (column : Nat) (gap : Gap) (c : Char) (cs : List Char) : Bool :=
  (gap.hasBreaks && !ctx.inFlow && column < ctx.leastColumn) ||
    (gap.hasBreaks && column == 0 && isDocumentMark (c :: cs)) ||
    (!gap.isEmpty && c == '#') ||
    (c == ':' && blankNext cs) ||
    (ctx.inFlow && isFlowIndicator c)

/-- A colon that inside brackets neither ends the scalar nor belongs to it. -/
def isStrayColon (ctx : Context) (c : Char) : List Char → Bool
  | d :: _ => ctx.inFlow && c == ':' && (isFlowIndicator d || d == '?')
  | [] => false

/-- One more character, with what follows it. -/
def step (ctx : Context) (column : Nat) (p : Plain) (c : Char) (cs : List Char) : Outcome Plain :=
  if isBreak c || isSpaceOrTab c then
    if c == '\t' && p.gap.hasBreaks && column < ctx.leastColumn then .refused
    else .more { p with gap := p.gap.add c }
  else if endsBefore ctx column p.gap c cs then .endedBefore (textOfReversed p.text)
  else if isStrayColon ctx c cs then .refused
  else .more ⟨c :: p.gap.folded ++ p.text, .empty⟩

/-- A scalar that begins with a character. -/
def start (c : Char) : Plain :=
  ⟨[c], .empty⟩

end Plain

end TableLoad.Yaml
