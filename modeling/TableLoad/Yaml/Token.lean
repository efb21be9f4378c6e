import TableLoad.Yaml.Scalar.Block
import TableLoad.Yaml.Scalar.Plain
import TableLoad.Yaml.Scalar.Quoted

namespace TableLoad.Yaml

inductive Token
  /-- Three hyphens. -/
  | documentStart
  /-- Three points. -/
  | documentEnd
  | blockSequence | blockMapping | blockEnd
  | flowSequence | flowSequenceEnd | flowMapping | flowMappingEnd
  /-- A hyphen in front of an item. -/
  | blockEntry
  /-- A comma. -/
  | flowEntry
  | key | value
  | anchor (name : String)
  | alias (name : String)
  | scalar (text : String) (isPlain : Bool)
deriving DecidableEq, Repr

namespace Token

/-- A place where a key may have begun. -/
structure PossibleKey where
  place : Place
  /-- The tokens before it. -/
  tokensBefore : Nat
  /-- Nothing but a key can stand there. -/
  required : Bool
deriving DecidableEq, Repr

/-- What the machine is in. -/
inductive Mode
  | between
  | comment
  /-- The last characters of a document mark. -/
  | mark (owed : Nat)
  /-- The name of an anchor or alias, latest first. -/
  | name (isAnchor : Bool) (cs : List Char)
  | plain (p : Plain)
  | quoted (q : Quoted)
  | block (b : Block)
deriving Repr

/-- A machine that reads tokens one character after the other. It keeps the columns of the open
blocks, whose ends become tokens of their own, and remembers where a key may have begun until a
colon settles that it was one. -/
structure Machine where
  /-- The latest first. -/
  tokens : List Token
  place : Place
  /-- The columns of the open blocks, the innermost first. -/
  columns : List Nat
  /-- A key may begin here. -/
  keyAllowed : Bool
  possibleKey : Option PossibleKey
  /-- The possible keys outside of each open bracket. -/
  outerKeys : List (Option PossibleKey)
  mode : Mode
deriving Repr

namespace Machine

def start : Machine where
  tokens := []
  place := .start
  columns := []
  keyAllowed := true
  possibleKey := none
  outerKeys := []
  mode := .between

/-- Inside brackets, where indentation has no meaning. -/
def inFlow (m : Machine) : Bool :=
  !m.outerKeys.isEmpty

def emit (m : Machine) (t : Token) : Machine :=
  { m with tokens := t :: m.tokens }

/-- Puts a token behind the first `n` ones. -/
def emitAt (m : Machine) (n : Nat) (t : Token) : Machine :=
  let later := m.tokens.length - n
  { m with tokens := m.tokens.take later ++ t :: m.tokens.drop later }

/-- Ends the open blocks that lie deeper than a column; none ends them all. -/
def closeBlocks (m : Machine) (column : Option Nat) : Machine :=
  if m.inFlow then m
  else
    let deeper (c : Nat) : Bool := column.all (· < c)
    let closed := (m.columns.takeWhile deeper).length
    { m with
      tokens := List.replicate closed .blockEnd ++ m.tokens
      columns := m.columns.drop closed }

/-- Opens a block at a column behind the first `n` tokens, if it lies deeper than the others. -/
def openBlock (m : Machine) (column n : Nat) (t : Token) : Machine :=
  if !m.inFlow && m.columns.head?.all (· < column) then
    { m.emitAt n t with columns := column :: m.columns }
  else m

/-- A key ends on the line on which it began, and within 1024 characters. -/
def isStale (m : Machine) (k : PossibleKey) : Bool :=
  k.place.line < m.place.line || k.place.index + 1024 < m.place.index

/-- Gives up a possible key; one that is required cannot be given up. -/
def giveUp? : Option PossibleKey → Option (Option PossibleKey)
  | some k => if k.required then none else some none
  | none => some none

/-- Gives up the possible keys that have become stale. -/
def expireKeys? (m : Machine) : Option Machine := do
  let expire (k : Option PossibleKey) : Option (Option PossibleKey) :=
    if k.any m.isStale then giveUp? k else some k
  return { m with
    possibleKey := ← expire m.possibleKey
    outerKeys := ← m.outerKeys.mapM expire }

/-- Gives up the innermost possible key. -/
def dropKey? (m : Machine) : Option Machine :=
  (giveUp? m.possibleKey).map fun k => { m with possibleKey := k }

/-- Remembers that a key may begin here, if one is allowed to. -/
def noteKey? (m : Machine) : Option Machine :=
  if m.keyAllowed then
    m.dropKey?.map fun m => { m with
      possibleKey := some {
        place := m.place
        tokensBefore := m.tokens.length
        required := !m.inFlow && m.columns.head? == some m.place.column } }
  else some m

/-- Passes over a character that stays in the mode. -/
def pass (m : Machine) (c : Char) : Machine :=
  { m with place := m.place.after c }

/-- Passes over the first character of something. -/
def enter (m : Machine) (c : Char) (mode : Mode) : Machine :=
  { m.pass c with mode := mode }

/-- Passes over the last character of something. -/
def leave (m : Machine) (c : Char) : Machine :=
  m.enter c .between

/-- Three hyphens or three points. -/
def documentMark? (m : Machine) (c : Char) (t : Token) : Option Machine := do
  let m ← (m.closeBlocks none).dropKey?
  return ({ m with keyAllowed := false }.emit t).enter c (.mark 2)

/-- An opening bracket. -/
def openFlow? (m : Machine) (c : Char) (t : Token) : Option Machine := do
  let m ← m.noteKey?
  let m := { m with
    outerKeys := m.possibleKey :: m.outerKeys, possibleKey := none, keyAllowed := true }
  return (m.emit t).leave c

/-- A closing bracket. -/
def closeFlow? (m : Machine) (c : Char) (t : Token) : Option Machine := do
  let m ← m.dropKey?
  let m := match m.outerKeys with
    | [] => m
    | k :: ks => { m with possibleKey := k, outerKeys := ks }
  return ({ m with keyAllowed := false }.emit t).leave c

def flowEntry? (m : Machine) (c : Char) : Option Machine := do
  let m ← m.dropKey?
  return ({ m with keyAllowed := true }.emit .flowEntry).leave c

/-- A hyphen in front of an item, or a question mark in front of a key. -/
def indicator? (m : Machine) (c : Char) (opening t : Token) (keyBehind : Bool) :
    Option Machine := do
  if !m.inFlow && !m.keyAllowed then none
  else
    let m ← (m.openBlock m.place.column m.tokens.length opening).dropKey?
    return ({ m with keyAllowed := keyBehind }.emit t).leave c

/-- A colon in front of a value. A possible key before it was one. -/
def value? (m : Machine) (c : Char) : Option Machine :=
  match m.possibleKey with
  | some k =>
    let m := (m.emitAt k.tokensBefore .key).openBlock k.place.column k.tokensBefore .blockMapping
    some (({ m with possibleKey := none, keyAllowed := false }.emit .value).leave c)
  | none =>
    if m.inFlow then some (({ m with keyAllowed := false }.emit .value).leave c)
    else if m.keyAllowed then
      some (((m.openBlock m.place.column m.tokens.length .blockMapping).emit .value).leave c)
    else none

/-- Begins a scalar on one line, an anchor or an alias; each may begin a key. -/
def begin? (m : Machine) (c : Char) (mode : Mode) : Option Machine := do
  let m ← m.noteKey?
  return { m with keyAllowed := false }.enter c mode

/-- Begins a block scalar. -/
def beginBlock? (m : Machine) (c : Char) (folds : Bool) : Option Machine := do
  let m ← m.dropKey?
  return { m with keyAllowed := true }.enter c (.block (.start folds m.columns.head?))

/-- A character that cannot begin a plain scalar, unless it is one of the three that may when no
blank follows. -/
def isIndicator (c : Char) : Bool :=
  "-?:,[]\x7b\x7d#&*!|>'\"%@\x60".toList.contains c

/-- A plain scalar may begin with a character. -/
def beginsPlain (m : Machine) (c : Char) (cs : List Char) : Bool :=
  !isIndicator c || (c == '-' && !(cs.head?.any isSpaceOrTab)) ||
    (!m.inFlow && (c == '?' || c == ':') && !blankNext cs)

/-- The first character of a token. Tags and directives are refused. -/
def dispatch? (m : Machine) (c : Char) (cs : List Char) : Option Machine := do
  let m := (← m.expireKeys?).closeBlocks (some m.place.column)
  let inBlock := !m.inFlow
  if m.place.column == 0 && isDocumentMark (c :: cs) then
    m.documentMark? c (if c == '-' then .documentStart else .documentEnd)
  else if m.place.column == 0 && c == '%' then none
  else if c == '[' then m.openFlow? c .flowSequence
  else if c == '\x7b' then m.openFlow? c .flowMapping
  else if c == ']' then m.closeFlow? c .flowSequenceEnd
  else if c == '\x7d' then m.closeFlow? c .flowMappingEnd
  else if c == ',' then m.flowEntry? c
  else if c == '-' && blankNext cs then m.indicator? c .blockSequence .blockEntry true
  else if c == '?' && (m.inFlow || blankNext cs) then m.indicator? c .blockMapping .key inBlock
  else if c == ':' && (m.inFlow || blankNext cs) then m.value? c
  else if c == '*' then m.begin? c (.name false [])
  else if c == '&' then m.begin? c (.name true [])
  else if c == '|' && inBlock then m.beginBlock? c false
  else if c == '>' && inBlock then m.beginBlock? c true
  else if c == '\'' then m.begin? c (.quoted (.start false))
  else if c == '"' then m.begin? c (.quoted (.start true))
  else if m.beginsPlain c cs then m.begin? c (.plain (.start c))
  else none

/-- A character between tokens. A tab is no indentation. -/
def betweenStep? (m : Machine) (c : Char) (cs : List Char) : Option Machine :=
  if c == ' ' || (c == '\t' && (m.inFlow || !m.keyAllowed)) then some (m.pass c)
  else if c == '#' then some (m.enter c .comment)
  else if isBreak c then some { m.pass c with keyAllowed := m.keyAllowed || !m.inFlow }
  else m.dispatch? c cs

def isNameChar (c : Char) : Bool :=
  c.isAlphanum || c == '_' || c == '-'

/-- What may stand right behind the name of an anchor or alias. -/
def endsName : List Char → Bool
  | [] => true
  | c :: cs => blankNext (c :: cs) || "?:,]\x7d%@\x60".toList.contains c

/-- The token of a name that ends before some characters. -/
def name? (isAnchor : Bool) (name rest : List Char) : Option Token :=
  if name.isEmpty || !endsName rest then none
  else some (if isAnchor then .anchor (textOfReversed name) else .alias (textOfReversed name))

/-- Where a further line of a plain scalar may begin. -/
def plainContext (m : Machine) : Plain.Context :=
  ⟨m.inFlow, m.columns.head?.elim 0 (· + 1)⟩

/-- A plain scalar that went over a line break leaves room for a key behind it. -/
def endPlain (m : Machine) (p : Plain) (text : String) : Machine :=
  { m with keyAllowed := p.gap.hasBreaks, mode := .between }.emit (.scalar text true)

/-- One character, with what follows it. -/
def step? (m : Machine) (c : Char) (cs : List Char) : Option Machine :=
  match m.mode with
  | .between => m.betweenStep? c cs
  | .comment => if isBreak c then { m with mode := .between }.betweenStep? c cs else some (m.pass c)
  | .mark owed => some (m.enter c (if owed ≤ 1 then .between else .mark (owed - 1)))
  | .name isAnchor held =>
    if isNameChar c then some (m.enter c (.name isAnchor (c :: held)))
    else do ({ m with mode := .between }.emit (← name? isAnchor held (c :: cs))).betweenStep? c cs
  | .plain p =>
    match p.step m.plainContext m.place.column c cs with
    | .more p => some (m.enter c (.plain p))
    | .endedBefore text => (m.endPlain p text).betweenStep? c cs
    | .closed _ | .refused => none
  | .quoted q =>
    match q.step m.place.column c cs with
    | .more q => some (m.enter c (.quoted q))
    | .closed text => some ((m.emit (.scalar text false)).leave c)
    | .endedBefore text => ({ m with mode := .between }.emit (.scalar text false)).betweenStep? c cs
    | .refused => none
  | .block b =>
    match b.step m.place.column c with
    | .more b => some (m.enter c (.block b))
    | .endedBefore text => ({ m with mode := .between }.emit (.scalar text false)).betweenStep? c cs
    | .closed _ | .refused => none

/-- The machine at work. -/
def run? : Machine → List Char → Option Machine
  | m, [] => some m
  | m, c :: cs => do run? (← m.step? c cs) cs

/-- The token that the stream ends with, if it may end in this mode. -/
def lastToken? (m : Machine) : Option (List Token) :=
  match m.mode with
  | .between | .comment | .mark _ => some []
  | .name isAnchor held => do return [← name? isAnchor held []]
  | .plain p => some [.scalar (textOfReversed p.text) true]
  | .quoted q => do return [.scalar (← q.finish?) false]
  | .block b => some [.scalar b.chomped false]

/-- The tokens of the stream when it ends here. -/
def finish? (m : Machine) : Option (List Token) := do
  let m := { m with tokens := (← m.lastToken?) ++ m.tokens }
  let m ← (← m.expireKeys?).dropKey?
  return (m.closeBlocks none).tokens.reverse

end Machine

/-- The tokens of a text. -/
def ofText? (text : String) : Option (List Token) :=
  match normalizeBreaks text.toList with
  | cs =>
    let cs := if cs.head? == some '\uFEFF' then cs.tail else cs
    if cs.all isAllowed then do (← Machine.start.run? cs).finish? else none

end Token

end TableLoad.Yaml
