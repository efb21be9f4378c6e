import TableLoad.CommandLine.Host

namespace TableLoad

namespace Workspace

inductive Entry
  | directory
  | octets (bs : List UInt8)
  | database (d : Database)
deriving DecidableEq, Repr

/-- Where a path leads. -/
inductive Location
  | entry (names : List String)
  /-- Nothing is there, but the directory around it is. -/
  | free (names : List String)
  | missing
  /-- The path goes on behind something that is no directory. -/
  | throughFile
deriving DecidableEq, Repr

end Workspace

/-- A working directory in memory, in which commands can run: files, directories and databases, an
environment, an input, and what was printed. Outside of it nothing lies. -/
structure Workspace where
  /-- What lies where; the directories around an entry need no entries of their own. -/
  entries : List (List String × Workspace.Entry)
  environment : String → Option String
  input : List UInt8
  clock : Timestamp
  /-- The latest first. -/
  printed : List CommandLine.Message

namespace Workspace

def find? (w : Workspace) (names : List String) : Option Entry :=
  (w.entries.find? (·.1 == names)).map (·.2)

/-- The root of all directories. -/
def root : List String := ["/"]

/-- The working directory, the ones around it and the root are there without an entry. -/
def isGiven (names : List String) : Bool :=
  names == root || names.all (· == "..")

/-- The directory around one. -/
def around (names : List String) : List String :=
  if names == root then root else if isGiven names then names ++ [".."] else names.dropLast

/-- Something lies there, or below. -/
def has (w : Workspace) (names : List String) : Bool :=
  isGiven names || w.entries.any fun e => names.isPrefixOf e.1

def isDirectory (w : Workspace) (names : List String) : Bool :=
  w.has names && match w.find? names with
    | some .directory | none => true
    | some _ => false

/-- Follows the names of a path. What a name is followed by has to be a directory, also when
nothing but a slash follows. -/
def walk (w : Workspace) (here : List String) : List String → Location
  | [] => .entry here
  | name :: rest =>
    if !w.isDirectory here then .throughFile
    else if name == "" || name == "." then walk w here rest
    else if name == ".." then walk w (around here) rest
    else if w.has (here ++ [name]) then walk w (here ++ [name]) rest
    else if rest.isEmpty then .free (here ++ [name])
    else .missing

/-- Where a path leads; one that begins with a slash goes from the root. -/
def locate (w : Workspace) (path : String) : Location :=
  let names := (Text.splitOnChar '/' path.toList).map String.ofList
  match names with
  | [""] => .missing
  | "" :: names => w.walk root names
  | names => w.walk [] names

/-- Puts an entry in the place of the one that is there. -/
def put (w : Workspace) (names : List String) (e : Entry) : Workspace :=
  { w with entries := (names, e) :: w.entries.filter (·.1 != names) }

def file (w : Workspace) (path : String) : FileContent :=
  match w.locate path with
  | .entry names =>
    match w.find? names with
    | some (.octets bs) => .octets bs
    | some (.database _) => .unreadable "is a database"
    | some .directory | none => .directory
  | .free _ | .missing => .missing
  | .throughFile => .unreadable "not a directory"

/-- A path of this form asks for a storage that only an extension has: two or more letters, digits
or underscores before the first colon, and no URL. -/
def asksForExtension (path : String) : Bool :=
  let cs := path.toList
  let name := cs.takeWhile (· != ':')
  match cs.dropWhile (· != ':') with
  | ':' :: '/' :: '/' :: _ => false
  | ':' :: _ => 2 ≤ name.length && name.all fun c => c.isAlphanum || c == '_'
  | _ => false

/-- The database at a path; where nothing lies it is made. -/
def openDatabase (w : Workspace) (path : String) : Except String Database × Workspace :=
  if asksForExtension path then (.error "there is no extension for it", w)
  else match w.locate path with
    | .entry names =>
      match w.find? names with
      | some (.database d) => (.ok d, w)
      | some (.octets []) => (.ok .empty, w.put names (.database .empty))
      | _ => (.error "it is no database", w)
    | .free names => (.ok .empty, w.put names (.database .empty))
    | .missing | .throughFile => (.error "there is no such directory", w)

def saveDatabase (w : Workspace) (path : String) (d : Database) : Workspace :=
  match w.locate path with
  | .entry names | .free names => w.put names (.database d)
  | .missing | .throughFile => w

/-- The database that lies at a path. -/
def database? (w : Workspace) (path : String) : Option Database :=
  match w.locate path with
  | .entry names =>
    match w.find? names with
    | some (.database d) => some d
    | _ => none
  | _ => none

/-- The directory as the system that commands run on. -/
def host : CommandLine.Host (StateM Workspace) where
  environment name := do return (← get).environment name
  file path := do return (← get).file path
  standardInput := do return (← get).input
  openDatabase path := modifyGet fun w => w.openDatabase path
  saveDatabase path d := modify fun w => w.saveDatabase path d
  now := do return (← get).clock
  print message := modify fun w => { w with printed := message :: w.printed }

end Workspace

end TableLoad
