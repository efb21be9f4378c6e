import TableLoad.Yaml.Character

namespace TableLoad.Yaml

/-- What stands between two visible characters of a scalar that may go over several lines. Blanks
inside a line are kept. A single line break is folded into a space, and of several the first is
dropped; blanks around breaks do not count. -/
inductive Gap
  /-- Blanks inside a line, the latest first. -/
  | blanks (cs : List Char)
  /-- Line breaks, the latest first, behind the first one; that one is absent when it was
  escaped. -/
  | breaks (first : Option Char) (more : List Char)
deriving DecidableEq, Repr

namespace Gap

def empty : Gap :=
  blanks []

def isEmpty : Gap → Bool
  | blanks cs => cs.isEmpty
  | breaks .. => false

def hasBreaks : Gap → Bool
  | blanks _ => false
  | breaks .. => true

/-- One more blank or break. -/
def add (g : Gap) (c : Char) : Gap :=
  match g, isBreak c with
  | blanks _, true => breaks (some c) []
  | breaks first more, true => breaks first (c :: more)
  | blanks cs, false => blanks (c :: cs)
  | breaks first more, false => breaks first more

/-- What the gap stands for in the text, the latest character first. -/
def folded : Gap → List Char
  | blanks cs => cs
  | breaks (some '\n') [] => [' ']
  | breaks (some '\n') more => more
  | breaks (some c) more => more ++ [c]
  | breaks none more => more

end Gap

/-- What a character did to a scalar that is being read. -/
inductive Outcome (σ : Type)
  /-- The scalar goes on. -/
  | more (s : σ)
  /-- The scalar ended with the character. -/
  | closed (text : String)
  /-- The scalar ended before the character, which belongs to what follows. -/
  | endedBefore (text : String)
  | refused
deriving Repr

/-- A text from its characters, the latest first. -/
def textOfReversed (cs : List Char) : String :=
  String.ofList cs.reverse

end TableLoad.Yaml
