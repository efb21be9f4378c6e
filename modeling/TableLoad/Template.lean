import TableLoad.Json.Printer
import TableLoad.LoadError
import TableLoad.Text.Blank

namespace TableLoad.Template

open Text (isBlank splitOnChar)

def isIdentStart (c : Char) : Bool :=
  c.isAlpha || c == '_'

def isIdentChar (c : Char) : Bool :=
  c.isAlphanum || c == '_'

/-- An identifier: ASCII letters, digits and underscores, the first no digit. -/
def isIdent : List Char → Bool
  | [] => false
  | c :: cs => isIdentStart c && cs.all isIdentChar

/-- Identifiers joined by points. -/
def isPath (cs : List Char) : Bool :=
  (splitOnChar '.' cs).all isIdent

/-- The variable at the front of a text: its path and the length of the whole occurrence. No blank
and no brace belongs to a path, so the path is the longest run of path characters. -/
def occurrence? : List Char → Option (List Char × Nat)
  | '\x7b' :: '\x7b' :: inner =>
    let cs := inner.dropWhile isBlank
    let path := cs.takeWhile fun c => isIdentChar c || c == '.'
    match (cs.dropWhile fun c => isIdentChar c || c == '.').dropWhile isBlank with
    | '\x7d' :: '\x7d' :: rest =>
      if isPath path then some (path, inner.length + 2 - rest.length) else none
    | _ => none
  | _ => none

/-- A template in pieces: characters that stand for themselves, and variables. -/
inductive Segment
  | char (c : Char)
  | variable (path : String)
deriving DecidableEq, Repr

/-- The pieces of a template, from the left; `skip` characters belong to the variable before. -/
def scan : (skip : Nat) → List Char → List Segment
  | _, [] => []
  | skip + 1, _ :: cs => scan skip cs
  | 0, c :: cs =>
    match occurrence? (c :: cs) with
    | some (path, length) => .variable (String.ofList path) :: scan (length - 1) cs
    | none => .char c :: scan 0 cs

def segments (template : String) : List Segment :=
  scan 0 template.toList

def Segment.path? : Segment → Option String
  | .char _ => none
  | .variable path => some path

/-- The paths of all variables, in order and with repeats. -/
def paths (template : String) : List String :=
  (segments template).filterMap Segment.path?

/-- A variable stands somewhere in the template. -/
def hasVariables (template : String) : Bool :=
  !(paths template).isEmpty

/-- What variables are looked up in. -/
structure Context where
  config : Json
  environment : String → Option String

/-- The value at a path through nested objects. -/
def nested? : Json → List String → Option Json
  | v, [] => some v
  | v, key :: keys => do nested? (← v.member? key) keys

/-- How a configured value stands in a text. -/
def valueText : Json → String
  | .string s => s
  | .null => ""
  | v => v.compact

/-- `env.NAME` is a variable of the environment; every other path leads into the configuration,
with or without `config` in front. -/
def Context.lookup (ctx : Context) (path : String) : Option String :=
  match (splitOnChar '.' path.toList).map String.ofList with
  | ["env", name] => ctx.environment name
  | "config" :: key :: keys => (nested? ctx.config (key :: keys)).map valueText
  | keys => (nested? ctx.config keys).map valueText

/-- The variables of the environment that a template asks for. -/
def environmentNames (template : String) : List String :=
  (paths template).filterMap fun path =>
    match (splitOnChar '.' path.toList).map String.ofList with
    | ["env", name] => some name
    | _ => none

/-- What a piece is replaced by. -/
def Segment.text (ctx : Context) : Segment → String
  | .char c => String.singleton c
  | .variable path => (ctx.lookup path).getD ""

/-- The text with every variable replaced, or all the variables that have no value. Each is replaced
once; what replaces it is never read again. -/
def render (ctx : Context) (template : String) : Except LoadError String :=
  match (paths template).filter fun path => (ctx.lookup path).isNone with
  | [] => .ok (String.join ((segments template).map (Segment.text ctx)))
  | undefined => .error (.undefinedVariable (", ".intercalate undefined))

end TableLoad.Template
