import TableLoad.Column.ColumnSet
import TableLoad.Proofs.Keyed

namespace TableLoad

theorem Document.ofMembers_eq (ms : List (String × Json)) :
    Document.ofMembers ms = ms.map fun e => (e.1, Document.ofJson e.2) := by
  induction ms with
  | nil => rfl
  | cons e ms ih => rw [Document.ofMembers, ih, List.map_cons]

/-- The fields of a record are its members. -/
theorem Document.fields?_record (m : Keyed Json) (names : List String) :
    (Document.ofJson (.object m.entries)).fields? (names.map fun name => [name]) =
      some (names.map fun name => (m.find? name).map Document.ofJson) := by
  rw [Document.ofJson, Document.ofMembers_eq]
  simp only [Document.fields?, Document.entries?]
  induction names with
  | nil => rfl
  | cons name names ih =>
    have hfilter : (m.entries.map fun e => (e.1, Document.ofJson e.2)).filter
          (fun e => [name].contains e.1) =
        (m.find? name).toList.map fun v => (name, Document.ofJson v) := by
      have hkeys : ((fun e : String × Document => [name].contains e.1) ∘
          fun e : String × Json => (e.1, Document.ofJson e.2)) = fun e => [name].contains e.1 := rfl
      rw [List.filter_map, hkeys, m.filter_key name, List.map_map]
      rfl
    rw [List.map_cons, List.map_cons, List.mapM_cons, hfilter, ih]
    cases m.find? name <;> rfl

/-- A column comes back from its JSON form. -/
theorem Column.ofDocument?_toJson (c : Column) : Column.ofDocument? (.ofJson c.toJson) = some c := by
  have hfields := Document.fields?_record (Keyed.ofList c.toMembers)
    ["name", "declared_type", "logical_type", "nullable", "default", "source_key"]
  simp only [List.map_cons, List.map_nil] at hfields
  rw [ofDocument?, toJson, hfields]
  obtain ⟨name, declaredType, logicalType, nullable, default, sourceKey⟩ := c
  cases default with
  | none =>
    simp [toMembers, Keyed.ofList, Keyed.find?_insert, Document.ofJson, Document.text?,
      Document.name?, Document.flag?, Document.optional, LogicalType.ofName?_name]
  | some d =>
    simp [toMembers, Keyed.ofList, Keyed.find?_insert, Document.ofJson, Document.text?,
      Document.name?, Document.flag?, Document.optional, Document.isNull, LogicalType.ofName?_name]

theorem Document.ofElements_eq (vs : List Json) :
    Document.ofElements vs = vs.map Document.ofJson := by
  induction vs with
  | nil => rfl
  | cons v vs ih => rw [Document.ofElements, ih, List.map_cons]

/-- A set comes back from its JSON form. -/
theorem ColumnSet.ofDocument?_toJson (s : ColumnSet) :
    ColumnSet.ofDocument? (.ofJson s.toJson) = some s := by
  have hcolumns (cs : List Column) :
      (cs.map fun c => Document.ofJson c.toJson).mapM Column.ofDocument? = some cs := by
    induction cs with
    | nil => rfl
    | cons c cs ih =>
      rw [List.map_cons, List.mapM_cons, Column.ofDocument?_toJson, ih]
      rfl
  rw [ofDocument?, toJson, Document.ofJson, Document.ofElements_eq, List.map_map, Document.list?]
  simp only [Function.comp_def, bind, Option.bind_some, hcolumns]
  rfl

end TableLoad
