import TableLoad.Record.Input

namespace TableLoad.CommandLine

inductive OutputFormat
  /-- One message a line. -/
  | json
  | pretty
deriving DecidableEq, Repr

def OutputFormat.ofName? (s : String) : Option OutputFormat :=
  if s == "json" then some json else if s == "pretty" then some pretty else none

inductive Verb
  | load | schema | check | tables | validate
deriving DecidableEq, Repr

def Verb.ofName? (s : String) : Option Verb :=
  match s with
  | "load" => some load
  | "schema" => some schema
  | "check" => some check
  | "tables" => some tables
  | "validate" => some validate
  | _ => none

inductive Flag
  | job | config | format | verbose | input | inputFormat | configJson
deriving DecidableEq, Repr

namespace Flag

def ofLetter? (c : Char) : Option Flag :=
  match c with
  | 'j' => some job
  | 'C' => some config
  | 'f' => some format
  | 'v' => some verbose
  | 'i' => some input
  | _ => none

def ofWord? (s : String) : Option Flag :=
  match s with
  | "job" => some job
  | "config" => some config
  | "format" => some format
  | "verbose" => some verbose
  | "input" => some input
  | "input-format" => some inputFormat
  | "config-json" => some configJson
  | _ => none

def takesValue (f : Flag) : Bool :=
  f != verbose

/-- Whether an option may stand behind a command, or with none before it. -/
def isKnown (f : Flag) (verb : Option Verb) : Bool :=
  match f with
  | job | config | format | verbose => true
  | input | inputFormat => verb == some .load
  | configJson => verb.any (· != .validate)

/-- Whether an option takes a value. Paths are not empty. -/
def accepts (f : Flag) (value : String) : Bool :=
  match f with
  | job | config => !value.isEmpty
  | format => (OutputFormat.ofName? value).isSome
  | inputFormat => (RecordFormat.parse value).toOption.isSome
  | verbose | input | configJson => true

end Flag

/-- Options with their values, in order. -/
abbrev Settings := List (Flag × String)

/-- What has been read of the command line. -/
structure Progress where
  verb : Option Verb
  before : Settings
  behind : Settings
  /-- An option whose value is the next word. -/
  pending : Option Flag
  /-- Two hyphens have said that no option follows. -/
  closed : Bool
deriving Repr

namespace Progress

def start : Progress :=
  ⟨none, [], [], none, false⟩

/-- Adds an option, which must not be there already. -/
def set? (p : Progress) (f : Flag) (value : String) : Option Progress :=
  let here := if p.verb.isSome then p.behind else p.before
  if !f.isKnown p.verb || !f.accepts value || here.any (·.1 == f) then none
  else if p.verb.isSome then some { p with behind := (f, value) :: here, pending := none }
  else some { p with before := (f, value) :: here, pending := none }

/-- Begins an option; its value may be attached to it. -/
def begin? (p : Progress) (f : Flag) (attached : Option String) : Option Progress :=
  match f.takesValue, attached with
  | true, some v => p.set? f v
  | true, none => if f.isKnown p.verb then some { p with pending := some f } else none
  | false, none => p.set? f ""
  | false, some _ => none

/-- Letters behind one hyphen. What follows a letter that takes a value is the value. -/
def letters? (p : Progress) : List Char → Option Progress
  | [] => some p
  | c :: cs => do
    let f ← Flag.ofLetter? c
    if f.takesValue then
      match cs with
      | [] => p.begin? f none
      | '=' :: value => p.begin? f (some (String.ofList value))
      | value => p.begin? f (some (String.ofList value))
    else letters? (← p.begin? f none) cs

/-- A word behind two hyphens, perhaps with its value. -/
def word? (p : Progress) (cs : List Char) : Option Progress := do
  let f ← Flag.ofWord? (String.ofList (cs.takeWhile (· != '=')))
  match cs.dropWhile (· != '=') with
  | [] => p.begin? f none
  | _ :: value => p.begin? f (some (String.ofList value))

/-- A word that is an option and no value. -/
def isOption : List Char → Bool
  | '-' :: _ :: _ => true
  | _ => false

/-- One more word. -/
def step? (p : Progress) (word : String) : Option Progress :=
  let cs := word.toList
  if p.closed then none
  else match p.pending, cs with
    | some f, cs => if isOption cs then none else p.set? f word
    | none, ['-', '-'] => some { p with closed := true }
    | none, '-' :: '-' :: cs => p.word? cs
    | none, '-' :: c :: cs => p.letters? (c :: cs)
    | none, _ =>
      if p.verb.isSome then none
      else (Verb.ofName? word).map fun v => { p with verb := some v }

/-- The value of an option; the one behind the command counts. -/
def value? (p : Progress) (f : Flag) : Option String :=
  ((p.behind ++ p.before).find? (·.1 == f)).map (·.2)

end Progress

inductive Command
  /-- `input` names a file, or the standard input with a hyphen. -/
  | load (input : String) (format : RecordFormat) (config : Option String)
  | schema (config : Option String)
  | check (config : Option String)
  | tables (config : Option String)
  | validate
deriving DecidableEq, Repr

structure Options where
  job : Option String
  config : Option String
  format : OutputFormat
  verbose : Bool
  command : Command
deriving DecidableEq, Repr

namespace Options

def commandOf (p : Progress) (verb : Verb) : Command :=
  let config := p.value? .configJson
  match verb with
  | .load =>
    .load ((p.value? .input).getD "-")
      (((p.value? .inputFormat).bind fun s => (RecordFormat.parse s).toOption).getD .lines) config
  | .schema => .schema config
  | .check => .check config
  | .tables => .tables config
  | .validate => .validate

/-- The options that the words of a command line give; none where it is not well formed. Options may
stand before the command or behind it. None is given twice on one side; of one given on both sides
the one behind it counts. -/
def parse? (words : List String) : Option Options := do
  let p ← words.foldlM Progress.step? Progress.start
  let verb ← p.verb
  if p.pending.isSome then none
  else return {
    job := p.value? .job
    config := p.value? .config
    format := ((p.value? .format).bind OutputFormat.ofName?).getD .json
    verbose := (p.value? .verbose).isSome
    command := commandOf p verb }

/-- How a command line is formed. -/
def usage : String :=
  "usage: load [-i FILE|-] [--input-format jsonl|json] [--config-json JSON]\n" ++
  "       schema|check|tables [--config-json JSON]\n" ++
  "       validate\n" ++
  "with:  -j|--job FILE, -C|--config FILE, -f|--format json|pretty, -v|--verbose"

end Options

end TableLoad.CommandLine
