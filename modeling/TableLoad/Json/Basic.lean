import TableLoad.Keyed
import TableLoad.Number.Binary64

namespace TableLoad

/-- A JSON number: a whole number in `[-2 ^ 63, 2 ^ 64)` that was written without point and
exponent, or a finite floating-point number. -/
inductive Json.Number
  | int (i : Int)
  | float (x : Binary64)
deriving DecidableEq, Repr

/-- A JSON value. An object that was read keeps its members as they were written; `Json.settled`
puts them in ascending order and drops all but the last of those with one key. -/
inductive Json
  | null
  | bool (b : Bool)
  | number (n : Json.Number)
  | string (s : String)
  | array (elements : List Json)
  | object (members : List (String × Json))
deriving Repr, Inhabited

/-- A record: the members of an object, each key once and in ascending order. -/
abbrev Record := Keyed Json

namespace Json

mutual

/-- The value with the members of every object in ascending order, the last of those with one
key in their place. -/
def settled : Json → Json
  | array es => array (settledElements es)
  | object ms => object (Keyed.ofList (settledMembers ms)).entries
  | v => v

def settledElements : List Json → List Json
  | [] => []
  | v :: vs => settled v :: settledElements vs

def settledMembers : List (String × Json) → List (String × Json)
  | [] => []
  | (k, v) :: ms => (k, settled v) :: settledMembers ms

end

/-- The record that an object stands for. -/
def record? : Json → Option Record
  | object ms => some (Keyed.ofList ms)
  | _ => none

/-- The member of an object; of several with one key the last. -/
def member? (k : String) : Json → Option Json
  | object ms => (Keyed.ofList ms).find? k
  | _ => none

def isNull : Json → Bool
  | null => true
  | _ => false

/-- A value that holds no others. -/
def isScalar : Json → Bool
  | array _ | object _ => false
  | _ => true

/-- The name of the value's kind. -/
def kind : Json → String
  | null => "null"
  | bool _ => "bool"
  | number _ => "number"
  | string _ => "string"
  | array _ => "array"
  | object _ => "object"

/-- The kind with its article, as it stands after "got". -/
def kindWithArticle : Json → String
  | null => "null"
  | bool _ => "a bool"
  | number _ => "a number"
  | string _ => "a string"
  | array _ => "an array"
  | object _ => "an object"

end Json

end TableLoad
