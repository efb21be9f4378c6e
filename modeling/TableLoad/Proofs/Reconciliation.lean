import TableLoad.Proofs.Rows

namespace TableLoad.Dataset

open TwoPass

/-- Adds records one after the other, whatever becomes of each. -/
def addAll (d : Dataset) (records : List Record) : Dataset :=
  records.foldl (fun d record => (d.add record).2) d

theorem addAll_cons (d : Dataset) (record : Record) (records : List Record) :
    d.addAll (record :: records) = (d.add record).2.addAll records := rfl

theorem addAll_append_singleton (d : Dataset) (records : List Record) (record : Record) :
    d.addAll (records ++ [record]) = ((d.addAll records).add record).2 := by
  simp [addAll]

/-- The columns and bindings are those of all keys so far, the rows those of the records whose
values all fit. -/
structure Reconciled (d : Dataset) (records : List Record) : Prop where
  discovered : d.Discovered (keysOf records)
  rows : List.Forall₂ (fun record row => IsRow d.catalog d.mapping d.columns record.entries row)
    (records.filter (accepts d.catalog d.mapping)) d.rows.toList

theorem reconciled_new (catalog : ColumnSet) (mapping : FieldMap) :
    (new catalog mapping).Reconciled [] :=
  ⟨discovered_new catalog mapping, .nil⟩

namespace Reconciled

variable {d : Dataset} {records : List Record}

theorem row_length (h : d.Reconciled records) : ∀ row ∈ d.rows, row.length = d.columns.size := by
  intro row hrow
  obtain ⟨i, hi, rfl⟩ := List.mem_iff_getElem.mp (Array.mem_toList_iff.mpr hrow)
  have hl := h.rows.length_eq
  have his := h.rows.get (hl ▸ hi) hi
  exact his.length_eq.symm

theorem length_eq_names (h : d.Reconciled records) :
    ∀ row ∈ d.rows.toList, row.length = d.columns.names.length := by
  intro row hrow
  rw [h.row_length row (Array.mem_toList_iff.mp hrow), ColumnSet.size, ColumnSet.names,
    List.length_map]

/-- The rows of before, filled up for columns that were appended. -/
theorem rows_padded (h : d.Reconciled records) {s : ColumnSet} (hs : s.names.Nodup)
    (hp : d.columns.columns <+: s.columns) :
    List.Forall₂ (fun record row => IsRow d.catalog d.mapping s record.entries row)
      (records.filter (accepts d.catalog d.mapping)) (d.rows.toList.map (padded s)) := by
  rw [List.forall₂_map_right_iff]
  have hmem : ∀ record ∈ records.filter (accepts d.catalog d.mapping), record ∈ records :=
    fun record hr => List.mem_of_mem_filter hr
  refine ((List.forall₂_and_left _ _).mpr ⟨hmem, h.rows⟩).imp fun record row hr => ?_
  refine h.discovered.padded_isRow hs hp (fun entry he => ?_) hr.2
  exact List.mem_flatMap.mpr ⟨record, hr.1, List.mem_map_of_mem he⟩

/-- Adding a record: its own values alone decide whether it is taken, and only a record that is
taken leaves a row. -/
theorem add (h : d.Reconciled records) (record : Record) :
    ∃ d' new, d.add record = (verdict d.catalog d.mapping record.entries, d') ∧
      d'.Reconciled (records ++ [record]) ∧ d'.catalog = d.catalog ∧ d'.mapping = d.mapping ∧
      d'.rows.toList = d.rows.toList.map (padded d'.columns) ++ new ∧
      new.length = if accepts d.catalog d.mapping record then 1 else 0 := by
  obtain ⟨d₁, hdisc, hd₁, hc, hm, hr⟩ := h.discovered.discover h.row_length record
  have hprefix := h.discovered.columns_prefix hd₁ hc hm
  have hrows : d₁.rows.toList = d.rows.toList.map (padded d₁.columns) := by simp [hr]
  -- The old rows are filled up before the record is tried, so they do even if it is a misfit.
  have hpad := h.rows_padded hd₁.names_nodup hprefix
  rw [← hrows] at hpad
  have hkeys : ∀ entry ∈ record.entries, entry.1 ∈ keysOf records ++ record.keys :=
    fun entry he => List.mem_append_right _ (List.mem_map_of_mem he)
  have hplace := hd₁.foldlM_place hkeys
  rw [hc, hm] at hplace
  rw [← keysOf_append_singleton] at hd₁
  cases hv : verdict d.catalog d.mapping record.entries with
  | error e =>
    have hacc : accepts d.catalog d.mapping record = false := by
      rw [Bool.eq_false_iff, ne_eq, accepts_iff, hv]
      simp
    rw [hv] at hplace
    simp only at hplace
    refine ⟨d₁, [], ?_, ⟨hd₁, ?_⟩, hc, hm, by simp [hrows], by simp [hacc]⟩
    · simp only [Dataset.add, hdisc, rowOf, hplace]
    · simpa [hc, hm, hacc] using hpad
  | ok u =>
    have hacc : accepts d.catalog d.mapping record = true := accepts_iff.mpr hv
    rw [hv] at hplace
    obtain ⟨row, hrow, his⟩ := hplace
    refine ⟨{ d₁ with rows := d₁.rows.push row }, [row], ?_, ⟨?_, ?_⟩, hc, hm, ?_, by simp [hacc]⟩
    · simp only [Dataset.add, hdisc, rowOf, hrow]
    · exact ⟨hd₁.columns_eq, hd₁.ignored_eq, hd₁.find?_bindings⟩
    · simp only [hc, hm, List.filter_append, Array.toList_push]
      refine List.rel_append hpad ?_
      simpa [hacc] using his
    · simp [hrows]

theorem addAll (catalog : ColumnSet) (mapping : FieldMap) (records : List Record) :
    ((new catalog mapping).addAll records).Reconciled records ∧
      ((new catalog mapping).addAll records).catalog = catalog ∧
      ((new catalog mapping).addAll records).mapping = mapping := by
  induction records using List.reverseRecOn with
  | nil => exact ⟨reconciled_new catalog mapping, rfl, rfl⟩
  | append_singleton records record ih =>
    obtain ⟨hrec, hc, hm⟩ := ih
    obtain ⟨d', -, hadd, hrec', hc', hm', -⟩ := hrec.add record
    rw [addAll_append_singleton, hadd]
    exact ⟨hrec', hc'.trans hc, hm'.trans hm⟩

end Reconciled

/-- Adding records one by one gives the columns, ignored keys and rows of the two passes: a row for
each record whose values all fit, in which each column holds what the value for it becomes. Whether
a record is taken, and how it fails, depends on that record alone. -/
theorem addAll_eq_twoPass (catalog : ColumnSet) (mapping : FieldMap) (records : List Record) :
    let d := (new catalog mapping).addAll records
    d.columns = TwoPass.columns catalog mapping (keysOf records) ∧
      d.ignored = TwoPass.ignored catalog mapping (keysOf records) ∧
      List.Forall₂ (fun record row =>
          List.Forall₂ (fun c x => c.Becomes (valueFor catalog mapping record.entries c) x)
            d.columns.columns row)
        (records.filter (Fits catalog mapping ·)) d.rows.toList ∧
      ∀ record, (d.add record).1 = verdict catalog mapping record.entries ∧
        ((d.add record).1 = .ok () ↔ Fits catalog mapping record) := by
  obtain ⟨hrec, hc, hm⟩ := Reconciled.addAll catalog mapping records
  have hcols := hrec.discovered.columns_eq
  have hign := hrec.discovered.ignored_eq
  have hrows := hrec.rows
  rw [hc, hm] at hcols hign
  simp only [hc, hm, filter_fits, isRow_iff] at hrows
  refine ⟨hcols, hign, hrows, fun record => ?_⟩
  obtain ⟨d', -, hadd, -⟩ := hrec.add record
  rw [hc, hm] at hadd
  rw [hadd]
  exact ⟨rfl, accepts_iff.symm.trans accepts_iff_fits⟩

/-- The parts of a dataset fit together. -/
structure Consistent (catalog : ColumnSet) (mapping : FieldMap) (records : List Record)
    (d : Dataset) : Prop where
  row_length : ∀ row ∈ d.rows, row.length = d.columns.size
  names_nodup : d.columns.names.Nodup
  from_catalog : ∀ c ∈ d.columns.columns, ∃ entry ∈ catalog.columns,
    resolve catalog mapping c.sourceKey = .column entry ∧
      c = { entry with sourceKey := c.sourceKey } ∧ c.hasExpressionDefault = false
  /-- Every key is bound or ignored, and none is both. -/
  known : ∀ record ∈ records, ∀ key ∈ record.keys,
    (d.bindings.find? key).isSome = !(d.ignored.find? key).isSome
  /-- The keys that are ignored are those that lead to no column, each with its reason. -/
  ignored : ∀ key, d.ignored.find? key =
    if key ∈ keysOf records then reason? catalog mapping key else none
  binding : ∀ key i, d.bindings.find? key = some i → i < d.columns.size ∧
    ∃ c entry, d.columns.at? i = some c ∧ resolve catalog mapping key = .column entry ∧
      c = { entry with sourceKey := c.sourceKey }
  source : ∀ i c, d.columns.at? i = some c → d.bindings.find? c.sourceKey = some i

/-- What was there stays in its place; so many rows are new. -/
structure Grows (d d' : Dataset) (rows : Nat) : Prop where
  columns : d.columns.columns <+: d'.columns.columns
  bindings : ∀ key i, d.bindings.find? key = some i → d'.bindings.find? key = some i
  ignored : ∀ key reason, d.ignored.find? key = some reason → d'.ignored.find? key = some reason
  rows : ∃ kept new, d'.rows.toList = kept ++ new ∧ new.length = rows ∧
    List.Forall₂ (fun row row' => row <+: row') d.rows.toList kept

theorem Discovered.binding_column {d : Dataset} {keys : List String} (h : d.Discovered keys)
    {key : String} {i : Nat} (hb : d.bindings.find? key = some i) :
    key ∈ keys ∧ ∃ c e, column? d.catalog d.mapping key = some c ∧ d.columns.at? i = some e ∧
      e = { c with sourceKey := e.sourceKey } := by
  rw [h.find?_bindings] at hb
  split at hb
  · rename_i hk
    obtain ⟨c, hc, hi⟩ := Option.bind_eq_some_iff.mp hb
    obtain ⟨e, he, hn⟩ := ColumnSet.at?_of_indexOf? hi
    exact ⟨hk, c, e, hc, he, h.column_of_at? he hc hn⟩
  · cases hb

theorem Reconciled.consistent {d : Dataset} {records : List Record} (h : d.Reconciled records) :
    Consistent d.catalog d.mapping records d where
  row_length := h.row_length
  names_nodup := h.discovered.names_nodup
  from_catalog := by
    intro c hc
    rw [h.discovered.columns_eq] at hc
    obtain ⟨key, -, hkey⟩ := column?_of_mem_columns hc
    obtain ⟨entry, hr, rfl⟩ := column?_eq_some hkey
    obtain ⟨hget, hexp⟩ := resolve_column hr
    exact ⟨entry, List.mem_of_find?_eq_some hget, hr, rfl, hexp⟩
  known := by
    intro record hrecord key hkey
    have hk : key ∈ keysOf records := List.mem_flatMap.mpr ⟨record, hrecord, hkey⟩
    rw [h.discovered.ignored_eq, find?_ignored, if_pos hk]
    cases hc : column? d.catalog d.mapping key with
    | none =>
      have hr : reason? d.catalog d.mapping key ≠ none := fun hr => reason?_eq_none.mp hr hc
      simp [h.discovered.binding_eq_none hc, Option.isSome_iff_ne_none.mpr hr]
    | some c =>
      obtain ⟨i, -, hi, -⟩ := h.discovered.binding hk hc
      have hr : reason? d.catalog d.mapping key = none := reason?_eq_none.mpr (by simp [hc])
      simp [hi, hr]
  ignored := by
    intro key
    rw [h.discovered.ignored_eq, find?_ignored]
  binding := by
    intro key i hb
    obtain ⟨-, c, e, hc, he, hec⟩ := h.discovered.binding_column hb
    obtain ⟨entry, hr, rfl⟩ := column?_eq_some hc
    exact ⟨(List.getElem?_eq_some_iff.mp he).1, e, entry, he, hr, hec⟩
  source := by
    intro i c hi
    have hc : c ∈ (TwoPass.columns d.catalog d.mapping (keysOf records)).columns := by
      rw [← h.discovered.columns_eq]
      exact List.mem_of_getElem? hi
    obtain ⟨key, hk, hkey⟩ := column?_of_mem_columns hc
    obtain ⟨entry, -, rfl⟩ := column?_eq_some hkey
    rw [h.discovered.find?_bindings, if_pos hk, hkey, Option.bind_some]
    exact ColumnSet.indexOf?_of_at? h.discovered.names_nodup hi

/-- Of two datasets the one that came later, when it knows all keys of the other. -/
theorem Discovered.grows {d d' : Dataset} {keys more : List String} (h : d.Discovered keys)
    (h' : d'.Discovered (keys ++ more)) (hc : d'.catalog = d.catalog)
    (hm : d'.mapping = d.mapping) {new : List Row}
    (hrows : d'.rows.toList = d.rows.toList.map (padded d'.columns) ++ new) :
    Grows d d' new.length where
  columns := h.columns_prefix h' hc hm
  bindings := by
    intro key i hb
    have hk := (h.binding_column hb).1
    rw [h.find?_bindings, if_pos hk] at hb
    obtain ⟨c, hcol, hi⟩ := Option.bind_eq_some_iff.mp hb
    rw [h'.find?_bindings, if_pos (List.mem_append_left _ hk), hc, hm, hcol, Option.bind_some]
    exact ColumnSet.indexOf?_of_prefix (h.columns_prefix h' hc hm) hi
  ignored := by
    intro key reason hr
    rw [h.ignored_eq, find?_ignored] at hr
    rw [h'.ignored_eq, find?_ignored, hc, hm]
    split at hr
    · rename_i hk
      rw [if_pos (List.mem_append_left _ hk), hr]
    · cases hr
  rows := by
    refine ⟨_, new, hrows, rfl, ?_⟩
    rw [List.forall₂_map_right_iff]
    exact List.forall₂_same.mpr fun row _ => List.prefix_append _ _

/-- A misfit is named with its column. -/
theorem verdict_error {catalog : ColumnSet} {mapping : FieldMap} {entries : List (String × Json)}
    {e : LoadError} (h : verdict catalog mapping entries = .error e) :
    ∃ column message, e = .coercion column message := by
  induction entries with
  | nil => cases h
  | cons entry entries ih =>
    rw [verdict] at h
    split at h
    · exact ih h
    · rename_i e' hcheck
      cases h
      simp only [check] at hcheck
      split at hcheck
      · cases hcheck
      · rename_i c _
        cases hv : convert c.logicalType entry.2 with
        | ok v => simp [Column.coerce, hv, Except.map] at hcheck
        | error m =>
          simp only [Column.coerce, hv, Except.map, Except.error.injEq] at hcheck
          exact ⟨c.name, m.message, hcheck.symm⟩

/-- After any records the parts fit together; one more record only appends, leaves one row if it
is taken and none if not, and fails with a misfit or not at all. -/
theorem addAll_consistent (catalog : ColumnSet) (mapping : FieldMap) (records : List Record) :
    let d := (new catalog mapping).addAll records
    Consistent catalog mapping records d ∧
      ∀ record, Consistent catalog mapping (records ++ [record]) (d.add record).2 ∧
        match (d.add record).1 with
        | .ok () => Grows d (d.add record).2 1
        | .error e => Grows d (d.add record).2 0 ∧ ∃ column message, e = .coercion column message := by
  obtain ⟨hrec, hc, hm⟩ := Reconciled.addAll catalog mapping records
  have hcons := hrec.consistent
  rw [hc, hm] at hcons
  refine ⟨hcons, fun record => ?_⟩
  obtain ⟨d', new, hadd, hrec', hc', hm', hrows, hlen⟩ := hrec.add record
  have hcons' := hrec'.consistent
  rw [hc', hm', hc, hm] at hcons'
  have hkeys := hrec'.discovered
  rw [keysOf_append_singleton] at hkeys
  have hgrows := hrec.discovered.grows hkeys hc' hm' hrows
  rw [hlen] at hgrows
  rw [hadd]
  refine ⟨hcons', ?_⟩
  cases hv : verdict ((Dataset.new catalog mapping).addAll records).catalog
      ((Dataset.new catalog mapping).addAll records).mapping record.entries with
  | ok u =>
    rw [if_pos (accepts_iff.mpr hv)] at hgrows
    exact hgrows
  | error e =>
    rw [if_neg (fun ha => by simp [accepts_iff.mp ha] at hv)] at hgrows
    exact ⟨hgrows, verdict_error hv⟩

end TableLoad.Dataset
