import TableLoad.Database.Basic
import TableLoad.Json.Reader

namespace TableLoad.Database

namespace Archive

/-- A value as the text of a database keeps it; floats by their bits. -/
def ofValue : Value → Json
  | .float x => .object [("bits", .number (.int x.bits))]
  | v => v.toJson

def toValue? : Json → Option Value
  | .object [("bits", .number (.int i))] => some (.float (.ofBits i.toNat))
  | v => Value.ofScalar? v

theorem toValue?_ofValue {v : Value} (h : ∀ i, v = .int i → Value.fitsInt i) :
    toValue? (ofValue v) = some v := by
  cases v with
  | float x => simp [ofValue, toValue?, Binary64.ofBits_bits]
  | int i => simp [ofValue, toValue?, Value.toJson, Value.ofScalar?, Value.ofJson, Value.ofNumber,
      h i rfl]
  | _ => rfl

def ofColumn (c : TableColumn) : Json :=
  .object ([("name", .string c.name), ("type", .string c.declaredType),
    ("not_null", .bool c.notNull), ("primary_key", .bool c.primaryKey)] ++
    (c.default.map fun d => ("default", Json.string d)).toList)

def ofTable (t : Table) : Json :=
  .object [("schema", .string t.schema), ("name", .string t.name),
    ("columns", .array (t.columns.map ofColumn)),
    ("rows", .array (t.rows.map fun row => .array (row.map ofValue)))]

def text? : Json → Option String
  | .string s => some s
  | _ => none

/-- The elements of an array that a function reads. -/
def list? {α : Type} (read : Json → Option α) : Json → Option (List α)
  | .array es => es.mapM read
  | _ => none

/-- A truth value, which may be missing. -/
def flag? : Option Json → Option Bool
  | none => some false
  | some (.bool b) => some b
  | some _ => none

def toColumn? (v : Json) : Option TableColumn := do
  return {
    name := ← text? (← v.member? "name")
    declaredType := ← text? (← v.member? "type")
    notNull := ← flag? (v.member? "not_null")
    primaryKey := ← flag? (v.member? "primary_key")
    default := ← match v.member? "default" with
      | none => some none
      | some d => (text? d).map some }

def toTable? (v : Json) : Option Table := do
  let columns ← list? toColumn? (← v.member? "columns")
  let rows ← list? (list? toValue?) ((v.member? "rows").getD (.array []))
  if rows.any (·.length ≠ columns.length) then none
  else return ⟨← text? (← v.member? "schema"), ← text? (← v.member? "name"), columns, rows⟩

end Archive

/-- The text of a database, a table a member of its list. -/
def archive (d : Database) : String :=
  (Json.object [("tables", .array (d.tables.map Archive.ofTable))]).compact ++ "\n"

/-- The database that a text keeps; an empty text keeps an empty one. -/
def ofArchive? (text : String) : Option Database :=
  if text.isEmpty then some .empty
  else do return ⟨← Archive.list? Archive.toTable? (← (← Json.readText? text).member? "tables")⟩

end TableLoad.Database
