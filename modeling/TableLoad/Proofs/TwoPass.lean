import TableLoad.Dataset.Basic
import TableLoad.Proofs.CoercedValue
import TableLoad.Proofs.ColumnSet
import TableLoad.Proofs.Keyed

namespace TableLoad.TwoPass

variable (catalog : ColumnSet) (mapping : FieldMap)

/-- The name under which a key's column is looked for: the one that the mapping gives, or the key
itself. A discarded key has none. -/
def target? (mapping : FieldMap) (key : String) : Option String :=
  match mapping.find? key with
  | some .discard => none
  | some (.column name) => some name
  | none => some key

/-- The column that a key leads to, read from that key: the one of its name in the catalog, unless
the database works it out. -/
def column? (key : String) : Option Column :=
  match (target? mapping key).bind catalog.find? with
  | none => none
  | some c => if c.hasExpressionDefault then none else some { c with sourceKey := key }

/-- Why a key leads to no column: it is discarded, or the catalog has no column of its name, or the
database works that column out. -/
def reason? (key : String) : Option IgnoreReason :=
  match target? mapping key with
  | none => some .discarded
  | some name =>
    match catalog.find? name with
    | none => some .notInCatalog
    | some c => if c.hasExpressionDefault then some .databaseDefault else none

/-- The first pass: every column once, read from the first key that leads to it. -/
def columns (keys : List String) : ColumnSet :=
  .ofList (keys.filterMap (column? catalog mapping))

/-- The first pass: the keys that lead nowhere. -/
def ignored (keys : List String) : Keyed IgnoreReason :=
  .ofKeys (reason? catalog mapping) keys

def leadsTo (c : Column) (entry : String × Json) : Bool :=
  (column? catalog mapping entry.1).any (·.name == c.name)

/-- The second pass: a cell holds the last of the values that lead to its column. Entries stand in
ascending order of their keys, so that is the value under the greatest key. -/
def cell (entries : List (String × Json)) (c : Column) : Except LoadError Value :=
  match (entries.filter (leadsTo catalog mapping c)).getLast? with
  | none => .ok c.fill
  | some entry => c.coerce entry.2

/-- Whether a value fits the column that its key leads to, if there is one. -/
def check (entry : String × Json) : Except LoadError Unit :=
  match column? catalog mapping entry.1 with
  | none => .ok ()
  | some c => (c.coerce entry.2).map fun _ => ()

/-- The first value that does not fit decides. -/
def verdict : List (String × Json) → Except LoadError Unit
  | [] => .ok ()
  | entry :: entries =>
    match check catalog mapping entry with
    | .ok () => verdict entries
    | .error e => .error e

/-- All values fit, those included that a later key overrides. -/
def accepts (record : Record) : Bool :=
  record.entries.all fun entry => (check catalog mapping entry).isOk

/-- The row of some entries, cell by cell. -/
def IsRow (columns : ColumnSet) (entries : List (String × Json)) (row : Row) : Prop :=
  List.Forall₂ (fun c v => cell catalog mapping entries c = .ok v) columns.columns row

/-- All keys in the order in which the records bring them. -/
def keysOf (records : List Record) : List String :=
  records.flatMap Keyed.keys

variable {catalog : ColumnSet} {mapping : FieldMap}

theorem keysOf_append_singleton (records : List Record) (record : Record) :
    keysOf (records ++ [record]) = keysOf records ++ record.keys := by
  simp [keysOf]

theorem resolve_eq (catalog : ColumnSet) (mapping : FieldMap) (key : String) :
    resolve catalog mapping key =
      match target? mapping key with
      | none => .ignored .discarded
      | some name =>
        match catalog.find? name with
        | none => .ignored .notInCatalog
        | some c => if c.hasExpressionDefault then .ignored .databaseDefault else .column c := by
  rw [resolve, target?]
  cases mapping.find? key with
  | none => rfl
  | some target => cases target <;> rfl

/-- A key leads only to a column of the catalog that loads. -/
theorem resolve_column {key : String} {c : Column} (h : resolve catalog mapping key = .column c) :
    catalog.get? c.name = some c ∧ c.hasExpressionDefault = false := by
  rw [resolve_eq] at h
  split at h
  · cases h
  split at h
  · cases h
  next d hd =>
  split at h
  · cases h
  next hloads =>
  cases h
  exact ⟨ColumnSet.get?_of_find? hd, Bool.eq_false_iff.mpr hloads⟩

/-- A key is resolved to its column, or to the reason why it has none. -/
theorem resolve_cases (catalog : ColumnSet) (mapping : FieldMap) (key : String) :
    (∃ reason, resolve catalog mapping key = .ignored reason ∧
      column? catalog mapping key = none ∧ reason? catalog mapping key = some reason) ∨
    ∃ entry, resolve catalog mapping key = .column entry ∧
      column? catalog mapping key = some { entry with sourceKey := key } ∧
      reason? catalog mapping key = none := by
  rw [resolve_eq, column?, reason?]
  cases target? mapping key with
  | none => exact Or.inl ⟨_, rfl, rfl, rfl⟩
  | some name =>
    simp only [Option.bind_some]
    cases catalog.find? name with
    | none => exact Or.inl ⟨_, rfl, rfl, rfl⟩
    | some c =>
      simp only
      split
      · exact Or.inl ⟨_, rfl, rfl, rfl⟩
      · exact Or.inr ⟨c, rfl, rfl, rfl⟩

theorem column?_eq_some {key : String} {c : Column} (h : column? catalog mapping key = some c) :
    ∃ entry, resolve catalog mapping key = .column entry ∧ c = { entry with sourceKey := key } := by
  rcases resolve_cases catalog mapping key with ⟨_, -, hnone, -⟩ | ⟨entry, hentry, hcolumn, -⟩
  · rw [hnone] at h
    cases h
  · rw [hcolumn] at h
    exact ⟨entry, hentry, (Option.some.inj h).symm⟩

theorem reason?_eq_none {key : String} :
    reason? catalog mapping key = none ↔ column? catalog mapping key ≠ none := by
  rcases resolve_cases catalog mapping key with ⟨_, -, hcolumn, hreason⟩ | ⟨_, -, hcolumn, hreason⟩
  · simp [hcolumn, hreason]
  · simp [hcolumn, hreason]

/-- Keys that lead to columns of one name lead to one column. -/
theorem column?_unique {k l : String} {c d : Column} (hk : column? catalog mapping k = some c)
    (hl : column? catalog mapping l = some d) (hn : d.name = c.name) :
    d = { c with sourceKey := l } := by
  obtain ⟨a, ha, rfl⟩ := column?_eq_some hk
  obtain ⟨b, hb, rfl⟩ := column?_eq_some hl
  have hga := (resolve_column ha).1
  have hgb := (resolve_column hb).1
  have hab : b.name = a.name := hn
  rw [hab, hga] at hgb
  rw [Option.some.inj hgb]

theorem columns_append_singleton (keys : List String) (key : String) :
    columns catalog mapping (keys ++ [key]) =
      match column? catalog mapping key with
      | none => columns catalog mapping keys
      | some c =>
        if c.name ∈ (columns catalog mapping keys).names then columns catalog mapping keys
        else (columns catalog mapping keys).append c := by
  simp only [columns, List.filterMap_append]
  cases h : column? catalog mapping key with
  | none => simp [h]
  | some c =>
    simp only [List.filterMap_cons, h, List.filterMap_nil]
    exact ColumnSet.ofList_append_singleton _ c

theorem ignored_append_singleton (keys : List String) (key : String) :
    ignored catalog mapping (keys ++ [key]) =
      match reason? catalog mapping key with
      | some reason => (ignored catalog mapping keys).insert key reason
      | none => ignored catalog mapping keys := by
  cases h : reason? catalog mapping key with
  | none => simp only [ignored, Keyed.ofKeys_append_singleton, h]
  | some reason => simp only [ignored, Keyed.ofKeys_append_singleton, h]

theorem columns_prefix (keys more : List String) :
    (columns catalog mapping keys).columns <+: (columns catalog mapping (keys ++ more)).columns := by
  simp only [columns, List.filterMap_append]
  exact ColumnSet.ofList_prefix _ _

theorem names_columns_nodup (keys : List String) :
    (columns catalog mapping keys).names.Nodup :=
  ColumnSet.names_ofList_nodup _

/-- Every column was found by a key that came. -/
theorem column?_of_mem_columns {keys : List String} {c : Column}
    (h : c ∈ (columns catalog mapping keys).columns) :
    ∃ key ∈ keys, column? catalog mapping key = some c :=
  List.mem_filterMap.mp (ColumnSet.mem_of_mem_ofList h)

theorem name_mem_columns {keys : List String} {key : String} {c : Column} (hk : key ∈ keys)
    (h : column? catalog mapping key = some c) : c.name ∈ (columns catalog mapping keys).names :=
  ColumnSet.mem_names_ofList.mpr (List.mem_map_of_mem (List.mem_filterMap.mpr ⟨key, hk, h⟩))

/-- A key that came before brings no column. -/
theorem columns_append_of_mem {keys : List String} {key : String} (h : key ∈ keys) :
    columns catalog mapping (keys ++ [key]) = columns catalog mapping keys := by
  rw [columns_append_singleton]
  cases hc : column? catalog mapping key with
  | none => rfl
  | some c => exact if_pos (name_mem_columns h hc)

theorem ignored_append_of_mem {keys : List String} {key : String} (h : key ∈ keys) :
    ignored catalog mapping (keys ++ [key]) = ignored catalog mapping keys :=
  Keyed.ofKeys_append_of_mem _ h

theorem find?_ignored (keys : List String) (key : String) :
    (ignored catalog mapping keys).find? key =
      if key ∈ keys then reason? catalog mapping key else none :=
  Keyed.find?_ofKeys _ _ _

theorem leadsTo_of_none {entry : String × Json}
    (h : column? catalog mapping entry.1 = none) (c : Column) :
    leadsTo catalog mapping c entry = false := by
  rw [leadsTo, h, Option.any_none]

theorem leadsTo_of_some {entry : String × Json} {d : Column}
    (h : column? catalog mapping entry.1 = some d) (c : Column) :
    leadsTo catalog mapping c entry = (d.name == c.name) := by
  rw [leadsTo, h, Option.any_some]

theorem cell_nil (c : Column) : cell catalog mapping [] c = .ok c.fill := rfl

/-- Only the entries that lead to a column count, and the last of them wins. -/
theorem cell_append_singleton (entries : List (String × Json)) (entry : String × Json)
    (c : Column) : cell catalog mapping (entries ++ [entry]) c =
      if leadsTo catalog mapping c entry then c.coerce entry.2
      else cell catalog mapping entries c := by
  simp only [cell, List.filter_append]
  cases h : leadsTo catalog mapping c entry with
  | true => simp [h]
  | false => simp [h]

theorem cell_eq_fill {entries : List (String × Json)} {c : Column}
    (h : ∀ entry ∈ entries, leadsTo catalog mapping c entry = false) :
    cell catalog mapping entries c = .ok c.fill := by
  have hf : entries.filter (leadsTo catalog mapping c) = [] := by
    simpa [List.filter_eq_nil_iff] using h
  simp [cell, hf]

theorem verdict_append_singleton (entries : List (String × Json)) (entry : String × Json) :
    verdict catalog mapping (entries ++ [entry]) =
      (verdict catalog mapping entries).bind fun _ => check catalog mapping entry := by
  induction entries with
  | nil =>
    cases h : check catalog mapping entry <;> simp [verdict, h, Except.bind]
  | cons e es ih =>
    simp only [List.cons_append, verdict]
    cases h : check catalog mapping e with
    | error err => rfl
    | ok u => exact ih

theorem verdict_isOk (entries : List (String × Json)) :
    (verdict catalog mapping entries).isOk =
      entries.all fun entry => (check catalog mapping entry).isOk := by
  induction entries with
  | nil => rfl
  | cons e es ih =>
    simp only [verdict, List.all_cons]
    cases h : check catalog mapping e with
    | error err => rfl
    | ok u => simpa [Except.isOk, Except.toBool] using ih

theorem accepts_iff {record : Record} :
    accepts catalog mapping record = true ↔ verdict catalog mapping record.entries = .ok () := by
  rw [accepts, ← verdict_isOk]
  cases verdict catalog mapping record.entries with
  | ok u => simp [Except.isOk, Except.toBool]
  | error e => simp [Except.isOk, Except.toBool]

section Values

variable (catalog mapping)

/-- The value for a column among some entries: the last of those that lead to it, or what stands for
the column where none does. -/
def valueFor (entries : List (String × Json)) (c : Column) : Json :=
  match (entries.filter (leadsTo catalog mapping c)).getLast? with
  | none => c.unfilled
  | some entry => entry.2

/-- Every value of a record whose key leads to a column becomes something there. -/
def Fits (record : Record) : Prop :=
  ∀ entry ∈ record.entries, ∀ c, column? catalog mapping entry.1 = some c →
    ∃ x, c.Becomes entry.2 x

variable {catalog mapping}

theorem cell_eq_ok {entries : List (String × Json)} {c : Column} {x : Value} :
    cell catalog mapping entries c = .ok x ↔ c.Becomes (valueFor catalog mapping entries c) x := by
  rw [← Column.coerce_eq_ok, cell, valueFor]
  cases (entries.filter (leadsTo catalog mapping c)).getLast? with
  | none => rw [Column.coerce_eq_ok.mpr c.becomes_fill]
  | some entry => rfl

theorem isRow_iff {columns : ColumnSet} {entries : List (String × Json)} {row : Row} :
    IsRow catalog mapping columns entries row ↔
      List.Forall₂ (fun c x => c.Becomes (valueFor catalog mapping entries c) x)
        columns.columns row := by
  simp only [IsRow, cell_eq_ok]

theorem check_isOk {entry : String × Json} : (check catalog mapping entry).isOk = true ↔
    ∀ c, column? catalog mapping entry.1 = some c → ∃ x, c.Becomes entry.2 x := by
  rw [check]
  cases column? catalog mapping entry.1 with
  | none => simp [Except.isOk, Except.toBool]
  | some c =>
    simp only [Option.some.injEq, forall_eq', ← Column.coerce_eq_ok]
    cases c.coerce entry.2 <;> simp [Except.map, Except.isOk, Except.toBool]

theorem accepts_iff_fits {record : Record} :
    accepts catalog mapping record = true ↔ Fits catalog mapping record := by
  simp only [accepts, List.all_eq_true, check_isOk, Fits]

instance (record : Record) : Decidable (Fits catalog mapping record) :=
  decidable_of_iff _ accepts_iff_fits

theorem filter_fits (records : List Record) :
    records.filter (accepts catalog mapping) = records.filter (Fits catalog mapping ·) := by
  congr
  funext record
  rw [Bool.eq_iff_iff, accepts_iff_fits, decide_eq_true_eq]

end Values

end TableLoad.TwoPass
