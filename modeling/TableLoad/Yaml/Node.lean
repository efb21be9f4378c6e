import TableLoad.Yaml.Token

namespace TableLoad.Yaml

/-- The node of a document. What is left out, a value behind a colon or an item behind a hyphen, is
an empty plain scalar. -/
inductive Node
  | scalar (text : String) (isPlain : Bool)
  | sequence (items : List Node)
  | mapping (entries : List (Node × Node))
deriving Repr, Inhabited

namespace Node

/-- What stands where nothing was written. -/
def empty : Node :=
  scalar "" true

/-- How a sequence is written. -/
inductive SequenceStyle
  | block
  /-- The items of a value, no deeper than its key. -/
  | indentless
  | flow
deriving DecidableEq, Repr

/-- A collection that is open, what it holds coming latest first. A mapping with a key waits for
the value. -/
inductive Frame
  | sequence (style : SequenceStyle) (items : List Node) (anchor : Option String)
  | mapping (isFlow : Bool) (entries : List (Node × Node)) (key : Option Node)
      (anchor : Option String)
  /-- One entry that stands among the items of a flow sequence. -/
  | pair (key : Option Node)
  /-- A key of a flow mapping that has no value. -/
  | loneKey
deriving Repr

/-- What comes next. -/
inductive Expected
  /-- The document. -/
  | start
  /-- A node, behind an anchor or not; where it may be missing, it is empty. -/
  | node (anchor : Option String) (mayMiss : Bool)
  /-- The beginning of an item or entry inside brackets, or their end. -/
  | member
  /-- Whatever the innermost collection goes on with. -/
  | more
  /-- The document is complete. -/
  | done (n : Node)
deriving Repr

/-- A machine with a stack that reads the node of a document from its tokens. -/
structure Builder where
  expected : Expected
  frames : List Frame
  /-- The nodes that have a name; the latest of one name counts. -/
  anchors : List (String × Node)
deriving Repr

/-- How many collections may be open at once. -/
def maxDepth : Nat := 128

namespace Builder

/-- Remembers a node under its name. -/
def name (b : Builder) (anchor : Option String) (n : Node) : Builder :=
  match anchor with
  | some a => { b with anchors := (a, n) :: b.anchors }
  | none => b

/-- Puts a complete node into its place. -/
def complete (b : Builder) (n : Node) : Builder :=
  match b.frames with
  | [] => { b with expected := .done n }
  | .sequence style items a :: fs =>
    { b with expected := .more, frames := .sequence style (n :: items) a :: fs }
  | .mapping isFlow entries none a :: fs =>
    { b with expected := .more, frames := .mapping isFlow entries (some n) a :: fs }
  | .mapping isFlow entries (some k) a :: fs =>
    { b with expected := .more, frames := .mapping isFlow ((k, n) :: entries) none a :: fs }
  | .pair none :: fs => { b with expected := .more, frames := .pair (some n) :: fs }
  | .pair (some k) :: .sequence style items a :: fs =>
    { b with expected := .more, frames := .sequence style (mapping [(k, n)] :: items) a :: fs }
  | .loneKey :: .mapping isFlow entries none a :: fs =>
    { b with expected := .more, frames := .mapping isFlow ((n, empty) :: entries) none a :: fs }
  | _ :: fs => { b with expected := .more, frames := fs }

/-- Completes the innermost collection. -/
def close (b : Builder) : Builder :=
  match b.frames with
  | .sequence _ items a :: fs =>
    let n := sequence items.reverse
    ({ b with frames := fs }.name a n).complete n
  | .mapping _ entries _ a :: fs =>
    let n := mapping entries.reverse
    ({ b with frames := fs }.name a n).complete n
  | _ => b

/-- Opens a collection. -/
def push? (b : Builder) (f : Frame) (expected : Expected) : Option Builder :=
  if b.frames.length < maxDepth then some { b with expected := expected, frames := f :: b.frames }
  else none

def expect (b : Builder) (e : Expected) : Builder :=
  { b with expected := e }

/-- Completes a node, under its name if it has one. -/
def finish (b : Builder) (anchor : Option String) (n : Node) : Builder :=
  (b.name anchor n).complete n

/-- A block collection may stand here: everywhere but inside brackets. -/
def allowsBlock (b : Builder) : Bool :=
  match b.frames with
  | .sequence .flow .. :: _ | .mapping true .. :: _ | .pair _ :: _ | .loneKey :: _ => false
  | _ => true

/-- A sequence may stand here whose items are no deeper than the key. -/
def allowsIndentless (b : Builder) : Bool :=
  match b.frames with
  | .mapping false .. :: _ => true
  | _ => false

/-- The first token of a node, with the anchor before it. -/
def begin? (b : Builder) (anchor : Option String) (t : Token) : Option Builder :=
  match t with
  | .alias a =>
    if anchor.isSome then none
    else (b.anchors.find? (·.1 == a)).map fun e => b.complete e.2
  | .anchor a => if anchor.isSome then none else some (b.expect (.node (some a) true))
  | .scalar text isPlain => some (b.finish anchor (scalar text isPlain))
  | .flowSequence => b.push? (.sequence .flow [] anchor) .member
  | .flowMapping => b.push? (.mapping true [] none anchor) .member
  | .blockSequence => if b.allowsBlock then b.push? (.sequence .block [] anchor) .more else none
  | .blockMapping => if b.allowsBlock then b.push? (.mapping false [] none anchor) .more else none
  | .blockEntry =>
    if b.allowsIndentless then b.push? (.sequence .indentless [] anchor) (.node none true) else none
  | _ => none

/-- A token that a node can begin with. -/
def beginsNode (b : Builder) : Token → Bool
  | .alias _ | .anchor _ | .scalar .. | .flowSequence | .flowMapping | .blockSequence
  | .blockMapping => true
  | .blockEntry => b.allowsIndentless
  | _ => false

/-- Completes a node that is missing before a token. -/
def fillNode (b : Builder) (t : Option Token) : Builder :=
  match b.expected with
  | .node anchor mayMiss =>
    if mayMiss && !t.any b.beginsNode then b.finish anchor empty else b
  | _ => b

/-- Completes a sequence whose items are no deeper than the key, if a token does not go on
with it. -/
def endIndentless (b : Builder) (t : Option Token) : Builder :=
  match b.expected, b.frames with
  | .more, .sequence .indentless .. :: _ => if t = some .blockEntry then b else b.close
  | _, _ => b

/-- Completes a value that is missing before a token. -/
def fillValue (b : Builder) (t : Option Token) : Builder :=
  match b.expected, b.frames with
  | .more, .mapping _ _ (some _) _ :: _ | .more, .pair (some _) :: _ =>
    if t = some .value then b else b.complete empty
  | _, _ => b

/-- Completes all that is missing before a token; none stands for the end of the stream. -/
def settle (b : Builder) (t : Option Token) : Builder :=
  ((b.fillNode t).endIndentless t).fillValue t

/-- What an open collection goes on with. -/
def moreStep? (b : Builder) (t : Token) : Option Builder :=
  match b.frames, t with
  | .sequence .flow .. :: _, .flowEntry => some (b.expect .member)
  | .sequence .flow .. :: _, .flowSequenceEnd => some b.close
  | .sequence .flow .. :: _, _ => none
  | .sequence .block .. :: _, .blockEntry => some (b.expect (.node none true))
  | .sequence .block .. :: _, .blockEnd => some b.close
  | .sequence .indentless .. :: _, .blockEntry => some (b.expect (.node none true))
  | .mapping _ _ (some _) _ :: _, .value => some (b.expect (.node none true))
  | .mapping false _ none _ :: _, .key => some (b.expect (.node none true))
  | .mapping false _ none _ :: _, .blockEnd => some b.close
  | .mapping true _ none _ :: _, .flowEntry => some (b.expect .member)
  | .mapping true _ none _ :: _, .flowMappingEnd => some b.close
  | .pair (some _) :: _, .value => some (b.expect (.node none true))
  | _, _ => none

/-- A token right behind an opening bracket or a comma. -/
def memberStep? (b : Builder) (t : Token) : Option Builder :=
  match b.frames, t with
  | .sequence .flow .. :: _, .flowSequenceEnd => some b.close
  | .mapping true .. :: _, .flowMappingEnd => some b.close
  | .sequence .flow .. :: _, .key => b.push? (.pair none) (.node none true)
  | .mapping true .. :: _, .key => some (b.expect (.node none true))
  | .sequence .flow .. :: _, t => b.begin? none t
  | .mapping true .. :: _, t => do (← b.push? .loneKey .member).begin? none t
  | _, _ => none

/-- One token. -/
def step? (b : Builder) (t : Token) : Option Builder :=
  let b := b.settle (some t)
  match b.expected with
  | .start => if t = .documentStart then some (b.expect (.node none true)) else b.begin? none t
  | .node anchor _ => b.begin? anchor t
  | .member => b.memberStep? t
  | .more => b.moreStep? t
  | .done _ => if t = .documentEnd then some b else none

end Builder

/-- The node of a stream that holds exactly one document. -/
def ofTokens? (ts : List Token) : Option Node := do
  let b ← ts.foldlM Builder.step? ⟨.start, [], []⟩
  match (b.settle none).expected with
  | .done n => some n
  | _ => none

end Node

end TableLoad.Yaml
