import TableLoad.Json.Basic

namespace TableLoad

/-- One scalar with everything that it can be read as. -/
structure Scalar where
  /-- Where a text is wanted. -/
  text : Option String
  /-- Where a count is wanted. -/
  count : Option Nat
  /-- Where a truth value is wanted. -/
  flag : Option Bool
  /-- Where something may be missing, this is how it is written out. -/
  null : Bool
  /-- Where a map is wanted, nothing is written, which makes it a map without entries. -/
  blank : Bool
  /-- Where nothing in particular is wanted. -/
  value : Option Json
deriving Repr

/-- What a definition is read from, in whichever language it was written. The languages differ in
what a scalar may be read as, so a scalar carries its readings. -/
inductive Document
  | scalar (s : Scalar)
  /-- A list; in some languages it may also stand for the fields of a definition in their order. -/
  | list (items : List Document) (asFields : Bool)
  /-- A map; in some languages one key without a value may also stand for the key, where the name
  of something is wanted. -/
  | map (entries : List (String × Document)) (asName : Bool)
deriving Repr, Inhabited

namespace Document

mutual

/-- A JSON value as it was written. Only strings are text. -/
def ofJson : Json → Document
  | .array es => list (ofElements es) true
  | .object ms => map (ofMembers ms) true
  | .null => scalar ⟨none, none, none, true, false, some .null⟩
  | .bool b => scalar ⟨none, none, some b, false, false, some (.bool b)⟩
  | .number (.int i) =>
    scalar ⟨none, if 0 ≤ i then some i.toNat else none, none, false, false,
      some (.number (.int i))⟩
  | .number (.float x) => scalar ⟨none, none, none, false, false, some (.number (.float x))⟩
  | .string s => scalar ⟨some s, none, none, false, false, some (.string s)⟩

def ofElements : List Json → List Document
  | [] => []
  | v :: vs => ofJson v :: ofElements vs

def ofMembers : List (String × Json) → List (String × Document)
  | [] => []
  | (k, v) :: ms => (k, ofJson v) :: ofMembers ms

end

mutual

/-- The JSON value that a document stands for where nothing in particular is wanted. -/
def toJson? : Document → Option Json
  | scalar s => s.value
  | list items _ => do return .array (← toElements? items)
  | map entries _ => do return .object (Keyed.ofList (← toMembers? entries)).entries

def toElements? : List Document → Option (List Json)
  | [] => some []
  | d :: ds => do return (← toJson? d) :: (← toElements? ds)

def toMembers? : List (String × Document) → Option (List (String × Json))
  | [] => some []
  | (k, d) :: ds => do return (k, ← toJson? d) :: (← toMembers? ds)

end

def text? : Document → Option String
  | scalar s => s.text
  | _ => none

/-- The name of one of several things. -/
def name? : Document → Option String
  | scalar s => s.text
  | map [(k, scalar s)] true => if s.null then some k else none
  | _ => none

def count? : Document → Option Nat
  | scalar s => s.count
  | _ => none

def flag? : Document → Option Bool
  | scalar s => s.flag
  | _ => none

def isNull : Document → Bool
  | scalar s => s.null
  | _ => false

def list? : Document → Option (List Document)
  | list items _ => some items
  | _ => none

/-- The entries of a map, as they were written. -/
def entries? : Document → Option (List (String × Document))
  | map entries _ => some entries
  | scalar s => if s.blank then some [] else none
  | _ => none

/-- The entries of a map whose values a function reads; of several with one key the last. -/
def keyed? {α : Type} (read : Document → Option α) (d : Document) : Option (Keyed α) := do
  return Keyed.ofList (← (← d.entries?).mapM fun (k, v) => (read v).map (k, ·))

/-- The fields of a definition, each under any of its names. A field may be missing but not be
there twice, and other entries do not matter. -/
def fields? (names : List (List String)) (d : Document) : Option (List (Option Document)) :=
  match d, d.entries? with
  | list items true, _ =>
    if items.length ≤ names.length then
      some (items.map some ++ List.replicate (names.length - items.length) none)
    else none
  | _, some entries =>
    names.mapM fun aliases =>
      match entries.filter fun e => aliases.contains e.1 with
      | [] => some none
      | [e] => some (some e.2)
      | _ => none
  | _, none => none

/-- A field that may be missing or null. -/
def optional {α : Type} (read : Document → Option α) : Option Document → Option (Option α)
  | none => some none
  | some d => if d.isNull then some none else (read d).map some

/-- A field that has a value when it is missing. -/
def orDefault {α : Type} (default : α) (read : Document → Option α) : Option Document → Option α
  | none => some default
  | some d => read d

end Document

end TableLoad
