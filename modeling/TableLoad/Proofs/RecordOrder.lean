import TableLoad.Proofs.Trace

namespace TableLoad

/-- The column without the key that it is read from. -/
def Column.unsourced (c : Column) : Column :=
  { c with sourceKey := "" }

namespace TwoPass

section Keys

variable (catalog : ColumnSet) (mapping : FieldMap)

/-- What entries hold in the column of a name, if it is one that some keys led to. -/
def valueOf? (keys : List String) (entries : List (String × Json)) (name : String) :
    Option Value :=
  ((columns catalog mapping keys).get? name).bind fun c =>
    (cell catalog mapping entries c).toOption

end Keys

variable {catalog : ColumnSet} {mapping : FieldMap} {keys keys' : List String}

theorem unsourced_of_column? {k l : String} {c d : Column}
    (hk : column? catalog mapping k = some c) (hl : column? catalog mapping l = some d)
    (hn : d.name = c.name) : d.unsourced = c.unsourced := by
  rw [column?_unique hk hl hn]
  rfl

theorem mem_unsourced {c : Column} :
    c ∈ (columns catalog mapping keys).columns.map Column.unsourced ↔
      ∃ key ∈ keys, (column? catalog mapping key).map Column.unsourced = some c := by
  constructor
  · intro h
    obtain ⟨d, hd, rfl⟩ := List.mem_map.mp h
    obtain ⟨key, hkey, hcolumn⟩ := column?_of_mem_columns hd
    exact ⟨key, hkey, by rw [hcolumn, Option.map_some]⟩
  · rintro ⟨key, hkey, hc⟩
    obtain ⟨d, hd, rfl⟩ := Option.map_eq_some_iff.mp hc
    obtain ⟨e, he, hname⟩ := List.mem_map.mp (name_mem_columns hkey hd)
    obtain ⟨l, -, hl⟩ := column?_of_mem_columns he
    rw [← unsourced_of_column? hd hl hname]
    exact List.mem_map_of_mem he

theorem unsourced_nodup (keys : List String) :
    ((columns catalog mapping keys).columns.map Column.unsourced).Nodup := by
  apply List.Nodup.of_map Column.name
  rw [List.map_map]
  exact names_columns_nodup keys

theorem columns_perm (h : ∀ key, key ∈ keys ↔ key ∈ keys') :
    ((columns catalog mapping keys).columns.map Column.unsourced).Perm
      ((columns catalog mapping keys').columns.map Column.unsourced) := by
  apply (List.perm_ext_iff_of_nodup (unsourced_nodup keys) (unsourced_nodup keys')).mpr
  intro c
  simp only [mem_unsourced, h]

theorem ignored_congr (h : ∀ key, key ∈ keys ↔ key ∈ keys') :
    ignored catalog mapping keys = ignored catalog mapping keys' := by
  apply Keyed.ext_find?
  intro key
  simp only [find?_ignored, h]

theorem get?_columns {name : String} {c : Column}
    (h : (columns catalog mapping keys).get? name = some c) :
    c ∈ (columns catalog mapping keys).columns ∧ c.name = name :=
  ⟨List.mem_of_find?_eq_some h, by simpa using List.find?_some h⟩

theorem valueOf?_eq_some {entries : List (String × Json)} {name : String} {v : Value} :
    valueOf? catalog mapping keys entries name = some v ↔
      ∃ key ∈ keys, ∃ c, column? catalog mapping key = some c ∧ c.name = name ∧
        cell catalog mapping entries c = .ok v := by
  rw [valueOf?, Option.bind_eq_some_iff]
  constructor
  · rintro ⟨c, hget, hv⟩
    obtain ⟨hmem, hname⟩ := get?_columns hget
    obtain ⟨key, hkey, hc⟩ := column?_of_mem_columns hmem
    refine ⟨key, hkey, c, hc, hname, ?_⟩
    cases hcell : cell catalog mapping entries c with
    | error e => simp [hcell, Except.toOption] at hv
    | ok u => simpa [hcell, Except.toOption] using hv
  · rintro ⟨key, hkey, c, hc, rfl, hcell⟩
    have hcontains := ColumnSet.contains_iff.mpr (name_mem_columns hkey hc)
    obtain ⟨d, hget⟩ := Option.isSome_iff_exists.mp hcontains
    obtain ⟨hmem, hname⟩ := get?_columns hget
    obtain ⟨l, -, hl⟩ := column?_of_mem_columns hmem
    refine ⟨d, hget, ?_⟩
    rw [cell_eq hc hl hname, hcell]
    rfl

theorem valueOf?_congr (h : ∀ key, key ∈ keys ↔ key ∈ keys') (entries : List (String × Json)) :
    valueOf? catalog mapping keys entries = valueOf? catalog mapping keys' entries := by
  funext name
  apply Option.ext
  intro v
  simp only [valueOf?_eq_some, h]

/-- A row read by the names of its columns. -/
theorem lookup_row {entries : List (String × Json)} {row : Row}
    (h : IsRow catalog mapping (columns catalog mapping keys) entries row) :
    (((columns catalog mapping keys).names.zip row).lookup ·) =
      valueOf? catalog mapping keys entries := by
  funext name
  rw [valueOf?]
  cases hget : (columns catalog mapping keys).get? name with
  | none =>
    have hmem : name ∉ (columns catalog mapping keys).names := by
      rw [← ColumnSet.contains_iff, ColumnSet.contains, hget]
      simp
    rw [lookup_zip_of_notMem hmem, Option.bind_none]
  | some c =>
    obtain ⟨hmem, rfl⟩ := get?_columns hget
    obtain ⟨v, hlookup, hcell⟩ := lookup_zip h (names_columns_nodup keys) hmem
    rw [Option.bind_some, hcell]
    exact hlookup

end TwoPass

namespace Dataset

open TwoPass

/-- What adding records one after the other comes to for each of them. -/
def results (d : Dataset) : List Record → List (Except LoadError Unit)
  | [] => []
  | record :: records => (d.add record).1 :: (d.add record).2.results records

/-- The rows, each as what it holds under the name of a column. -/
def readings (d : Dataset) : List (String → Option Value) :=
  d.rows.toList.map fun row name => (d.columns.names.zip row).lookup name

variable {catalog : ColumnSet} {mapping : FieldMap}

theorem Reconciled.results_eq {d : Dataset} {seen : List Record} (h : d.Reconciled seen)
    (records : List Record) :
    d.results records = records.map fun record => verdict d.catalog d.mapping record.entries := by
  induction records generalizing d seen with
  | nil => rfl
  | cons record records ih =>
    obtain ⟨d', -, hadd, hrec, hc, hm, -⟩ := h.add record
    rw [results, hadd, ih hrec, hc, hm, List.map_cons]

theorem readings_addAll (catalog : ColumnSet) (mapping : FieldMap) (records : List Record) :
    ((new catalog mapping).addAll records).readings =
      (records.filter (accepts catalog mapping)).map fun record =>
        valueOf? catalog mapping (keysOf records) record.entries := by
  obtain ⟨hrec, hc, hm⟩ := Reconciled.addAll catalog mapping records
  have hcolumns := hrec.discovered.columns_eq
  have hrows := hrec.rows
  simp only [hc, hm] at hcolumns hrows
  rw [readings, hcolumns]
  rw [hcolumns] at hrows
  symm
  rw [← List.forall₂_eq_eq_eq, List.forall₂_map_left_iff, List.forall₂_map_right_iff]
  exact hrows.imp fun record row his => (lookup_row his).symm

theorem Discovered.columnOf?_unsourced {d : Dataset} {keys : List String} (h : d.Discovered keys)
    (key : String) : (d.columnOf? key).map Column.unsourced =
      if key ∈ keys then (column? d.catalog d.mapping key).map Column.unsourced else none := by
  by_cases hk : key ∈ keys
  · rw [if_pos hk]
    cases hc : column? d.catalog d.mapping key with
    | none => simp [columnOf?, h.binding_eq_none hc]
    | some c =>
      obtain ⟨i, e, hi, -, he, hec⟩ := h.binding hk hc
      rw [columnOf?, hi, Option.bind_eq_bind, Option.bind_some, he, hec]
      rfl
  · simp [columnOf?, h.find?_bindings, hk]

/-- What becomes of each record among others: its error, or its row by the names of columns. -/
def fate (catalog : ColumnSet) (mapping : FieldMap) (records : List Record) (record : Record) :
    Except LoadError (String → Option Value) :=
  (verdict catalog mapping record.entries).map fun _ =>
    valueOf? catalog mapping (keysOf records) record.entries

theorem toOption_fate (records : List Record) (record : Record) :
    (fate catalog mapping records record).toOption =
      if accepts catalog mapping record then
        some (valueOf? catalog mapping (keysOf records) record.entries)
      else none := by
  rw [accepts, ← verdict_isOk, fate]
  cases verdict catalog mapping record.entries <;> rfl

/-- The records come to this, one by one, when they are added to a fresh dataset. -/
structure Fates (catalog : ColumnSet) (mapping : FieldMap) (records : List Record)
    (fate : Record → Except LoadError (String → Option Value)) : Prop where
  results : (new catalog mapping).results records =
    records.map fun record => (fate record).map fun _ => ()
  readings : ((new catalog mapping).addAll records).readings =
    records.filterMap fun record => (fate record).toOption

theorem fates (catalog : ColumnSet) (mapping : FieldMap) (records : List Record) :
    Fates catalog mapping records (fate catalog mapping records) where
  results := by
    rw [(reconciled_new catalog mapping).results_eq]
    apply List.map_congr_left
    intro record _
    change verdict catalog mapping record.entries = _
    rw [fate]
    cases verdict catalog mapping record.entries <;> rfl
  readings := by
    rw [readings_addAll, ← List.filterMap_eq_map, List.filterMap_filter]
    simp only [toOption_fate, Function.comp_apply]

/-- Records in another order lead to the same columns but for their order and the keys that they
are read from, to the same ignored keys, and from every key to the same column. Each record is
taken or refused as before, and its row has the same value under every name. -/
theorem addAll_perm {records records' : List Record} (h : records.Perm records')
    (catalog : ColumnSet) (mapping : FieldMap) :
    let d := (new catalog mapping).addAll records
    let d' := (new catalog mapping).addAll records'
    (d.columns.columns.map Column.unsourced).Perm (d'.columns.columns.map Column.unsourced) ∧
      d.ignored = d'.ignored ∧
      (∀ key, (d.columnOf? key).map Column.unsourced = (d'.columnOf? key).map Column.unsourced) ∧
      ∃ fate, Fates catalog mapping records fate ∧ Fates catalog mapping records' fate := by
  intro d d'
  have hkeys : ∀ key, key ∈ keysOf records ↔ key ∈ keysOf records' := fun key =>
    (h.flatMap_right Keyed.keys).mem_iff
  obtain ⟨hrec, hc, hm⟩ := Reconciled.addAll catalog mapping records
  obtain ⟨hrec', hc', hm'⟩ := Reconciled.addAll catalog mapping records'
  refine ⟨?_, ?_, fun key => ?_, fate catalog mapping records, fates catalog mapping records, ?_⟩
  · rw [hrec.discovered.columns_eq, hrec'.discovered.columns_eq, hc, hm, hc', hm']
    exact columns_perm hkeys
  · rw [hrec.discovered.ignored_eq, hrec'.discovered.ignored_eq, hc, hm, hc', hm']
    exact ignored_congr hkeys
  · rw [hrec.discovered.columnOf?_unsourced, hrec'.discovered.columnOf?_unsourced, hc, hm, hc', hm']
    simp only [hkeys]
  · have hfate : fate catalog mapping records = fate catalog mapping records' := by
      funext record
      rw [fate, fate, valueOf?_congr hkeys]
    rw [hfate]
    exact fates catalog mapping records'

def lineColumns : ColumnSet :=
  .ofList [.declared "id" "INTEGER" false none, .declared "qty" "INTEGER" true (some "5")]

/-- A number is one more name of an id. -/
def numbers : FieldMap :=
  .ofList [("number", .column "id")]

/-- Three lines; the second does not fit, and each has another key for its id. -/
def threeLines : List Record :=
  [.ofList [("number", .number (.int 1)), ("qty", .number (.int 2))],
    .ofList [("ID", .string "two"), ("size", .null)],
    .ofList [("id", .number (.int 3))]]

theorem addAll_lines_reversed : ∃ fate, Fates lineColumns numbers threeLines fate ∧
    Fates lineColumns numbers threeLines.reverse fate ∧
    threeLines.map (fun record => (fate record).isOk) = [true, false, true] := by
  obtain ⟨-, -, -, fate, hfates, hfates'⟩ :=
    addAll_perm threeLines.reverse_perm.symm lineColumns numbers
  refine ⟨fate, hfates, hfates', ?_⟩
  have hresults : ((new lineColumns numbers).results threeLines).map Except.isOk =
      [true, false, true] := by decide +kernel
  rw [hfates.results, List.map_map] at hresults
  rw [← hresults]
  apply List.map_congr_left
  intro record _
  rw [Function.comp_apply, isOk_map]

end Dataset

end TableLoad
