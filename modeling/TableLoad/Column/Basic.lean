import TableLoad.Column.LiteralDefault
import TableLoad.Column.LogicalType
import TableLoad.Document

namespace TableLoad

/-- A column of a table as its catalog describes it. -/
structure Column where
  name : String
  declaredType : String
  logicalType : LogicalType
  nullable : Bool
  /-- The default expression, as the catalog spells it. -/
  default : Option String
  /-- The record key that the column is read from. -/
  sourceKey : String
deriving DecidableEq, Repr

namespace Column

/-- A column of a catalog: its type is read off the declaration, and it is read from the key of
its own name. -/
def declared (name declaredType : String) (nullable : Bool) (default : Option String) : Column :=
  ⟨name, declaredType, .ofDeclared declaredType, nullable, default, name⟩

/-- The database works the column's default out; such a column is never loaded. -/
def hasExpressionDefault (c : Column) : Bool :=
  c.default.any fun d => !LiteralDefault.isLiteralDefault d

def toMembers (c : Column) : List (String × Json) :=
  [("declared_type", .string c.declaredType), ("logical_type", .string c.logicalType.name),
    ("name", .string c.name), ("nullable", .bool c.nullable), ("source_key", .string c.sourceKey)] ++
    (c.default.map fun d => ("default", Json.string d)).toList

def toJson (c : Column) : Json :=
  .object (Keyed.ofList c.toMembers).entries

def ofDocument? (d : Document) : Option Column := do
  match ← d.fields? [["name"], ["declared_type"], ["logical_type"], ["nullable"], ["default"],
    ["source_key"]] with
  | [some name, some declaredType, some logicalType, some nullable, default, some sourceKey] =>
    return {
      name := ← name.text?
      declaredType := ← declaredType.text?
      logicalType := ← LogicalType.ofName? (← logicalType.name?)
      nullable := ← nullable.flag?
      default := ← Document.optional Document.text? default
      sourceKey := ← sourceKey.text? }
  | _ => none

end Column

end TableLoad
