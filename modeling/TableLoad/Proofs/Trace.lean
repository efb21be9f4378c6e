import TableLoad.Proofs.Ending

namespace TableLoad

namespace TwoPass

variable {catalog : ColumnSet} {mapping : FieldMap}

/-- Columns of one name that were found by keys hold the same for every record. -/
theorem cell_eq {k l : String} {c d : Column} (hk : column? catalog mapping k = some c)
    (hl : column? catalog mapping l = some d) (hn : d.name = c.name)
    (entries : List (String × Json)) :
    cell catalog mapping entries d = cell catalog mapping entries c := by
  rw [column?_unique hk hl hn]
  rfl

theorem lookup_zip {cs : List Column} {row : Row} {P : Column → Value → Prop}
    (h : List.Forall₂ P cs row) (hnodup : (cs.map Column.name).Nodup) {c : Column} (hc : c ∈ cs) :
    ∃ v, ((cs.map Column.name).zip row).lookup c.name = some v ∧ P c v := by
  induction h with
  | nil => cases hc
  | @cons d v cs row hd hrest ih =>
    obtain ⟨hfresh, hnodup⟩ := List.nodup_cons.mp hnodup
    rw [List.map_cons, List.zip_cons_cons, List.lookup_cons]
    rcases List.mem_cons.mp hc with rfl | hc
    · exact ⟨v, by rw [beq_self_eq_true], hd⟩
    · have hne : (c.name == d.name) = false := by
        rw [beq_eq_false_iff_ne]
        intro he
        exact hfresh (he ▸ List.mem_map_of_mem hc)
      rw [hne]
      exact ih hnodup hc

theorem lookup_zip_of_notMem {names : List String} {name : String} (h : name ∉ names) (row : Row) :
    (names.zip row).lookup name = none := by
  rw [List.lookup_eq_none_iff]
  intro pair hpair
  rw [bne_iff_ne]
  rintro rfl
  exact h (List.of_mem_zip hpair).1

end TwoPass

namespace Load

open Session TwoPass Database

section Survivors

variable (catalog : ColumnSet) (mapping : FieldMap)

def survivors (records : List Record) : List Record :=
  records.filter (accepts catalog mapping)

/-- A record that fits, or a failure that is no record's own. -/
def survives : Except LoadError Record → Bool
  | .ok record => accepts catalog mapping record
  | .error e => !e.isDataError

theorem fatal?_survivors (outcomes : List (Except LoadError Record)) :
    fatal? (outcomes.filter (survives catalog mapping)) = fatal? outcomes := by
  induction outcomes with
  | nil => rfl
  | cons outcome outcomes ih =>
    cases outcome with
    | ok record =>
      rw [fatal?_record, List.filter_cons]
      split
      · rw [fatal?_record, ih]
      · exact ih
    | error e =>
      cases hd : e.isDataError with
      | true =>
        have hskipped : survives catalog mapping (.error e) = false := by simp [survives, hd]
        rw [fatal?_dataError hd, List.filter_cons, hskipped]
        exact ih
      | false =>
        have hkept : survives catalog mapping (.error e) = true := by simp [survives, hd]
        rw [fatal?_error hd, List.filter_cons, if_pos hkept, fatal?_error hd]

theorem decoded_survivors (outcomes : List (Except LoadError Record)) :
    (outcomes.filter (survives catalog mapping)).filterMap Except.toOption =
      survivors catalog mapping (outcomes.filterMap Except.toOption) := by
  rw [survivors]
  induction outcomes with
  | nil => rfl
  | cons outcome outcomes ih =>
    cases outcome with
    | ok record =>
      rw [List.filter_cons, survives]
      cases ha : accepts catalog mapping record <;> simp [Except.toOption, ha, ih]
    | error e =>
      have hnone : (.error e : Except LoadError Record).toOption = none := rfl
      rw [List.filterMap_cons_none hnone, List.filter_cons]
      split
      · rw [List.filterMap_cons_none hnone, ih]
      · exact ih

end Survivors

section Columns

variable {catalog : ColumnSet} {mapping : FieldMap} {kept all : List Record}

/-- The columns that no key of the kept records led to. -/
def traces (catalog : ColumnSet) (mapping : FieldMap) (kept all : List Record) : List Column :=
  (columns catalog mapping (keysOf all)).columns.filter fun c =>
    c.name ∉ (columns catalog mapping (keysOf kept)).names

/-- What the columns put into a row that no key of a kept record led to. -/
def fills (catalog : ColumnSet) (mapping : FieldMap) (kept all : List Record) :
    List (String × Value) :=
  ((traces catalog mapping kept all).map Column.name).zip
    ((traces catalog mapping kept all).map Column.fill)

theorem traces_sublist (catalog : ColumnSet) (mapping : FieldMap) (kept all : List Record) :
    ((traces catalog mapping kept all).map Column.name).Sublist
      (columns catalog mapping (keysOf all)).names :=
  List.filter_sublist.map Column.name

theorem fst_fills (catalog : ColumnSet) (mapping : FieldMap) (kept all : List Record) :
    (fills catalog mapping kept all).map (·.1) =
      (traces catalog mapping kept all).map Column.name :=
  List.map_fst_zip (by simp)

theorem lookup_fills {c : Column} (hc : c ∈ traces catalog mapping kept all) :
    (fills catalog mapping kept all).lookup c.name = some c.fill := by
  have hnodup := (traces_sublist catalog mapping kept all).nodup (names_columns_nodup _)
  have hfill : List.Forall₂ (fun (c : Column) v => v = c.fill) (traces catalog mapping kept all)
      ((traces catalog mapping kept all).map Column.fill) := by
    rw [List.forall₂_map_right_iff]
    exact List.forall₂_same.mpr fun _ _ => rfl
  obtain ⟨v, hv, rfl⟩ := lookup_zip hfill hnodup hc
  exact hv

theorem mem_names_of_kept (hsub : ∀ record ∈ kept, record ∈ all) {name : String}
    (h : name ∈ (columns catalog mapping (keysOf kept)).names) :
    name ∈ (columns catalog mapping (keysOf all)).names := by
  obtain ⟨c, hc, rfl⟩ := List.mem_map.mp h
  obtain ⟨key, hk, hkey⟩ := column?_of_mem_columns hc
  obtain ⟨record, hrecord, hmem⟩ := List.mem_flatMap.mp hk
  exact name_mem_columns (List.mem_flatMap.mpr ⟨record, hsub record hrecord, hmem⟩) hkey

theorem names_of_columns (mapping : FieldMap) (keys : List String) {row : List (String × Value)}
    (hnodup : (row.map (·.1)).Nodup)
    (h : ∀ name ∈ row.map (·.1), name ∈ (columns catalog mapping keys).names) :
    Rowwise.Names catalog row := by
  refine ⟨hnodup, ?_⟩
  intro name hname
  obtain ⟨c, hc, rfl⟩ := List.mem_map.mp (h name hname)
  obtain ⟨key, -, hkey⟩ := column?_of_mem_columns hc
  obtain ⟨entry, hentry, rfl⟩ := column?_eq_some hkey
  obtain ⟨hget, hexpression⟩ := resolve_column hentry
  exact ⟨entry, List.mem_of_find?_eq_some hget, rfl, hexpression⟩

theorem fst_row {keys : List String} {entries : List (String × Json)} {row : Row}
    (h : IsRow catalog mapping (columns catalog mapping keys) entries row) :
    ((columns catalog mapping keys).names.zip row).map (·.1) =
      (columns catalog mapping keys).names := by
  apply List.map_fst_zip
  rw [ColumnSet.names, List.length_map, h.length_eq]

theorem names_row {keys : List String} {entries : List (String × Json)} {row : Row}
    (h : IsRow catalog mapping (columns catalog mapping keys) entries row) :
    Rowwise.Names catalog ((columns catalog mapping keys).names.zip row) := by
  apply names_of_columns mapping keys
  · rw [fst_row h]
    exact names_columns_nodup keys
  · rw [fst_row h]
    exact fun _ hname => hname

theorem names_filled (hsub : ∀ record ∈ kept, record ∈ all) {entries : List (String × Json)}
    {row : Row}
    (h : IsRow catalog mapping (columns catalog mapping (keysOf kept)) entries row) :
    Rowwise.Names catalog ((columns catalog mapping (keysOf kept)).names.zip row ++
      fills catalog mapping kept all) := by
  have hfst : ((columns catalog mapping (keysOf kept)).names.zip row ++
      fills catalog mapping kept all).map (·.1) = (columns catalog mapping (keysOf kept)).names ++
        (traces catalog mapping kept all).map Column.name := by
    rw [List.map_append, fst_row h, fst_fills]
  have hsublist := traces_sublist catalog mapping kept all
  apply names_of_columns mapping (keysOf all)
  · rw [hfst]
    apply (names_columns_nodup _).append (hsublist.nodup (names_columns_nodup _))
    intro name hname htrace
    obtain ⟨c, hc, rfl⟩ := List.mem_map.mp htrace
    exact (of_decide_eq_true (List.mem_filter.mp hc).2) hname
  · rw [hfst]
    intro name hname
    rcases List.mem_append.mp hname with hname | htrace
    · exact mem_names_of_kept hsub hname
    · exact hsublist.subset htrace

/-- No key of a kept record leads to a column that only the others led to. -/
theorem cell_of_notMem {record : Record} (hrecord : record ∈ kept) {c : Column}
    (hc : c.name ∉ (columns catalog mapping (keysOf kept)).names) :
    cell catalog mapping record.entries c = .ok c.fill := by
  apply cell_eq_fill
  intro entry hentry
  cases hcol : column? catalog mapping entry.1 with
  | none => exact leadsTo_of_none hcol c
  | some d =>
    rw [leadsTo_of_some hcol, beq_eq_false_iff_ne]
    intro hn
    have hmem : entry.1 ∈ keysOf kept :=
      List.mem_flatMap.mpr ⟨record, hrecord, List.mem_map_of_mem hentry⟩
    exact hc (hn ▸ name_mem_columns hmem hcol)

/-- A kept record has the row that it has without the others, and fill values in the columns that
only their keys led to. -/
theorem alike_filled (hsub : ∀ record ∈ kept, record ∈ all) (declared : String → Value)
    {record : Record} (hrecord : record ∈ kept) {row row' : Row}
    (hrow : IsRow catalog mapping (columns catalog mapping (keysOf all)) record.entries row)
    (hrow' : IsRow catalog mapping (columns catalog mapping (keysOf kept)) record.entries row') :
    Rowwise.Alike catalog declared ((columns catalog mapping (keysOf all)).names.zip row)
      ((columns catalog mapping (keysOf kept)).names.zip row' ++
        fills catalog mapping kept all) := by
  refine ⟨names_row hrow, names_filled hsub hrow', ?_⟩
  intro name
  rw [Rowwise.valueIn, Rowwise.valueIn, List.lookup_append]
  by_cases hall : name ∈ (columns catalog mapping (keysOf all)).names
  · obtain ⟨c, hc, rfl⟩ := List.mem_map.mp hall
    obtain ⟨v, hv, hcell⟩ := lookup_zip hrow (names_columns_nodup _) hc
    rw [ColumnSet.names, hv]
    by_cases hkept : c.name ∈ (columns catalog mapping (keysOf kept)).names
    · obtain ⟨c', hc', hn⟩ := List.mem_map.mp hkept
      obtain ⟨v', hv', hcell'⟩ := lookup_zip hrow' (names_columns_nodup _) hc'
      obtain ⟨key, -, hkey⟩ := column?_of_mem_columns hc
      obtain ⟨key', -, hkey'⟩ := column?_of_mem_columns hc'
      rw [cell_eq hkey hkey' hn, hcell] at hcell'
      cases hcell'
      rw [hn] at hv'
      rw [ColumnSet.names, hv', Option.some_or]
    · have htrace : c ∈ traces catalog mapping kept all :=
        List.mem_filter.mpr ⟨hc, decide_eq_true hkept⟩
      rw [cell_of_notMem hrecord hkept] at hcell
      cases hcell
      rw [lookup_zip_of_notMem hkept, Option.none_or, lookup_fills htrace]
  · have hkept : name ∉ (columns catalog mapping (keysOf kept)).names :=
      fun hmem => hall (mem_names_of_kept hsub hmem)
    have htrace : name ∉ (traces catalog mapping kept all).map Column.name :=
      fun hmem => hall ((traces_sublist catalog mapping kept all).subset hmem)
    rw [fills, lookup_zip_of_notMem hall, lookup_zip_of_notMem hkept, lookup_zip_of_notMem htrace,
      Option.none_or]

/-- Fill values that a column holds anyway may be left out. -/
theorem alike_unfilled {declared : String → Value}
    (hfill : ∀ c ∈ traces catalog mapping kept all, declared c.name = c.fill)
    {row row' : List (String × Value)}
    (h : Rowwise.Alike catalog declared row (row' ++ fills catalog mapping kept all)) :
    Rowwise.Alike catalog declared row row' := by
  obtain ⟨hnames, ⟨hnodup, hcolumns⟩, hvalues⟩ := h
  rw [List.map_append] at hnodup hcolumns
  refine ⟨hnames, ⟨hnodup.of_append_left, fun name hname => ?_⟩, fun name => ?_⟩
  · exact hcolumns name (List.mem_append_left _ hname)
  · rw [hvalues name, Rowwise.valueIn, Rowwise.valueIn, List.lookup_append]
    cases row'.lookup name with
    | some v => rw [Option.some_or]
    | none =>
      rw [Option.none_or]
      by_cases htrace : name ∈ (traces catalog mapping kept all).map Column.name
      · obtain ⟨c, hc, rfl⟩ := List.mem_map.mp htrace
        rw [lookup_fills hc, Option.getD_some, Option.getD_none, hfill c hc]
      · rw [fills, lookup_zip_of_notMem htrace]

end Columns

end Load

end TableLoad
