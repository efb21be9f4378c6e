import TableLoad.Proofs.RowStore

namespace TableLoad.Database

open Session

theorem mapM_congr {α β ε : Type} {f g : α → Except ε β} {as : List α}
    (h : ∀ a ∈ as, f a = g a) : as.mapM f = as.mapM g := by
  induction as with
  | nil => rfl
  | cons a as ih =>
    rw [List.mapM_cons, List.mapM_cons, h a List.mem_cons_self,
      ih fun b hb => h b (List.mem_cons_of_mem _ hb)]

section Declared

/-- No two columns share a name, whatever its case. -/
def Distinct (columns : List TableColumn) : Prop :=
  (columns.map fun c => Text.asciiLower c.name).Nodup

/-- What a row that gives values for some columns puts into a column. -/
def given (row : List (String × Value)) (c : TableColumn) : Except String Value :=
  match row.lookup c.name with
  | some v => c.storage.cast v
  | none => c.unnamedValue

variable {t : Table} {row : List (String × Value)}

theorem Distinct.name_inj {columns : List TableColumn} (h : Distinct columns) {c d : TableColumn}
    (hc : c ∈ columns) (hd : d ∈ columns) (hn : c.name = d.name) : c = d := by
  apply List.inj_on_of_nodup_map h hc hd
  rw [hn]

theorem Distinct.indexOf? (h : Distinct t.columns) {c : TableColumn} {i : Nat}
    (hi : t.columns[i]? = some c) : t.indexOf? c.name = some i := by
  obtain ⟨hlt, rfl⟩ := List.getElem?_eq_some_iff.mp hi
  apply List.findIdx?_eq_some_iff_getElem.mpr
  refine ⟨hlt, beq_self_eq_true _, ?_⟩
  intro j hj hsame
  have hne := List.pairwise_iff_getElem.mp h j i (by simp; omega) (by simpa using hlt) hj
  simp only [List.getElem_map] at hne
  exact hne (beq_iff_eq.mp hsame)

/-- The place of a column of exactly this name. -/
def place (t : Table) (name : String) : Nat :=
  t.columns.findIdx (·.name == name)

theorem getElem?_place {name : String} (h : ∃ c ∈ t.columns, c.name = name) :
    ∃ c, t.columns[place t name]? = some c ∧ c.name = name := by
  have hlt : place t name < t.columns.length := by
    obtain ⟨c, hc, hn⟩ := h
    exact List.findIdx_lt_length_of_exists ⟨c, hc, by simpa using hn⟩
  refine ⟨t.columns[place t name], List.getElem?_eq_getElem hlt, ?_⟩
  exact beq_iff_eq.mp (List.findIdx_getElem (w := hlt))

theorem place_eq_iff (hd : Distinct t.columns) {c : TableColumn} {i : Nat}
    (hi : t.columns[i]? = some c) {name : String} (h : ∃ c ∈ t.columns, c.name = name) :
    place t name = i ↔ name = c.name := by
  obtain ⟨d, hplace, hn⟩ := getElem?_place h
  constructor
  · rintro rfl
    rw [hi] at hplace
    rw [← hn, Option.some.inj hplace]
  · intro hname
    have hsame := hd.name_inj (List.mem_of_getElem? hi) (List.mem_of_getElem? hplace)
      (hname.symm.trans hn.symm)
    have hidx := hd.indexOf? hi
    rw [hsame, hd.indexOf? hplace] at hidx
    exact Option.some.inj hidx

theorem indicesOf_eq (hd : Distinct t.columns) {names : List String} (hnodup : names.Nodup)
    (hmem : ∀ name ∈ names, ∃ c ∈ t.columns, c.name = name) :
    t.indicesOf names = .ok (names.map (place t)) := by
  have hpure : names.mapM (fun name => (.ok (place t name) : Except String Nat)) =
      .ok (names.map (place t)) := List.mapM_pure
  have hplaces : (names.map (place t)).Nodup := by
    apply List.Nodup.map_on _ hnodup
    intro name hname name' hname' hsame
    obtain ⟨c, hplace, hn⟩ := getElem?_place (hmem name hname)
    rw [hsame] at hplace
    rw [← hn]
    exact ((place_eq_iff hd hplace (hmem name' hname')).mp rfl).symm
  unfold Table.indicesOf
  rw [mapM_congr (g := fun name => .ok (place t name)), hpure]
  · simp only [bind, Except.bind, if_pos hplaces]
    rfl
  · intro name hname
    obtain ⟨c, hplace, rfl⟩ := getElem?_place (hmem name hname)
    rw [hd.indexOf? hplace]

theorem idxOf?_place {places : String → Nat} {i : Nat} {name : String}
    (h : ∀ p ∈ row, places p.1 = i ↔ p.1 = name) :
    ((row.map fun p => places p.1).idxOf? i).map (fun j => (row.map (·.2)).getD j .null) =
      row.lookup name := by
  induction row with
  | nil => rfl
  | cons p row ih =>
    have hp := h p List.mem_cons_self
    have hrest := ih fun q hq => h q (List.mem_cons_of_mem _ hq)
    obtain ⟨key, v⟩ := p
    rw [List.map_cons, List.map_cons, List.idxOf?_cons, List.lookup_cons]
    by_cases hk : key = name
    · have hi : (places key == i) = true := beq_iff_eq.mpr (hp.mpr hk)
      have hn : (name == key) = true := beq_iff_eq.mpr hk.symm
      rw [if_pos hi, hn]
      rfl
    · have hi : (places key == i) = false := beq_eq_false_iff_ne.mpr fun he => hk (hp.mp he)
      have hn : (name == key) = false := beq_eq_false_iff_ne.mpr (Ne.symm hk)
      simp only [hi, hn, Bool.false_eq_true, if_false, Option.map_map]
      rw [← hrest]
      rfl

/-- One row goes in as the values that it gives for its columns and the defaults of the others. -/
theorem insert_row (hd : Distinct t.columns) (hnodup : (row.map (·.1)).Nodup)
    (hmem : ∀ name ∈ row.map (·.1), ∃ c ∈ t.columns, c.name = name) :
    t.insert (row.map (·.1)) [row.map (·.2)] = (do
      let full ← t.columns.mapM (given row)
      t.admits full
      return { t with rows := t.rows ++ [full] }) := by
  -- the table goes by the places of columns, a row by their names
  have hcomplete : t.completeRow ((row.map (·.1)).map (place t)) (row.map (·.2)) =
      t.columns.mapM (given row) := by
    have hfst : t.columns.mapM (given row) = t.columns.zipIdx.mapM (given row ∘ Prod.fst) := by
      rw [← List.mapM_map, List.zipIdx_map_fst]
    rw [hfst, Table.completeRow]
    apply mapM_congr
    rintro ⟨c, i⟩ hc
    have hi : t.columns[i]? = some c := List.mk_mem_zipIdx_iff_getElem?.mp hc
    have hlookup : (((row.map (·.1)).map (place t)).idxOf? i).map
        (fun j => (row.map (·.2)).getD j .null) = row.lookup c.name := by
      rw [List.map_map]
      apply idxOf?_place
      intro p hp
      exact place_eq_iff hd hi (hmem p.1 (List.mem_map_of_mem hp))
    rw [Function.comp_apply, given, ← hlookup]
    dsimp only
    cases ((row.map (·.1)).map (place t)).idxOf? i <;> rfl
  have hlength : ¬ (row.map (·.2)).length ≠ ((row.map (·.1)).map (place t)).length := by simp
  have hone : t.insertRow ((row.map (·.1)).map (place t)) (row.map (·.2)) = (do
      let full ← t.columns.mapM (given row)
      t.admits full
      return { t with rows := t.rows ++ [full] }) := by
    rw [Table.insertRow, if_neg hlength, hcomplete]
  rw [Table.insert, indicesOf_eq hd hnodup hmem, ← hone]
  simp only [bind, Except.bind, List.foldlM_cons, List.foldlM_nil]
  cases t.insertRow ((row.map (·.1)).map (place t)) (row.map (·.2)) <;> rfl

theorem given_eq {columns : List TableColumn} (hd : Distinct columns) {catalog : ColumnSet}
    (hcatalog : ∀ e ∈ catalog.columns, ∃ c ∈ columns, c.toColumn = e) {declared : String → Value}
    (hdeclared : ∀ c ∈ columns, c.toColumn.hasExpressionDefault = false →
      c.unnamedValue = c.storage.cast (declared c.name)) (hrow : Rowwise.Names catalog row)
    {c : TableColumn} (hc : c ∈ columns) {v : Value} (hv : row.lookup c.name = some v)
    (hsame : v = declared c.name) : given row c = c.unnamedValue := by
  have hname : c.name ∈ row.map (·.1) := by
    obtain ⟨before, after, hsplit, -⟩ := List.lookup_eq_some_iff.mp hv
    rw [hsplit]
    simp
  obtain ⟨e, he, hn, hliteral⟩ := hrow.2 c.name hname
  obtain ⟨c', hc', rfl⟩ := hcatalog e he
  have hcol : c' = c := hd.name_inj hc' hc hn
  rw [given, hv, hsame]
  exact (hdeclared c hc (hcol ▸ hliteral)).symm

theorem table?_of_alter {d d' : Database} {name : String} {f : Table → Except String Table}
    (h : d.alter name f = some d')
    (hf : ∀ t t', f t = .ok t' → ∃ rows, t' = { t with rows := rows }) :
    (d'.table? name).map Table.columns = (d.table? name).map Table.columns := by
  have hchange := change_of_alter d name f 0
  rw [h] at hchange
  obtain ⟨t, t', ht, hft, ht'⟩ := rowsOf_change hchange
  cases hrun : f t with
  | error e =>
    rw [hrun] at hft
    cases hft
  | ok u =>
    rw [hrun] at hft
    cases hft
    obtain ⟨rows, rfl⟩ := hf t _ hrun
    rw [ht, ht' rfl rfl]
    rfl

theorem alter_congr {d : Database} {name : String} {t : Table} (ht : d.table? name = some t)
    {f g : Table → Except String Table} (h : f t = g t) : d.alter name f = d.alter name g := by
  obtain ⟨i, hi, hget⟩ := Option.bind_eq_some_iff.mp ht
  simp only [alter, hi, hget, Option.bind_some, h]

def HasColumns (name : String) (columns : List TableColumn) (d : Database) : Prop :=
  (d.table? name).map Table.columns = some columns

/-- The database in memory gives a column that a row does not name what its default comes to. -/
theorem Connection.defaults {columns : List TableColumn} (hd : Distinct columns)
    {catalog : ColumnSet} (hcatalog : ∀ e ∈ catalog.columns, ∃ c ∈ columns, c.toColumn = e)
    {declared : String → Value}
    (hdeclared : ∀ c ∈ columns, c.toColumn.hasExpressionDefault = false →
      c.unnamedValue = c.storage.cast (declared c.name)) (name : String) :
    rowwise.Defaults name catalog declared (HasColumns name columns) where
  insert_good {row t t'} hgood hinsert := by
    rw [HasColumns, table?_of_alter hinsert fun t t' ht => Table.insert_ok ht]
    exact hgood
  delete_good {filter d n d'} hgood hdelete := by
    cases hchange : d.change name fun t =>
        (t.delete filter).map fun t' => (t.rows.length - t'.rows.length, t') with
    | error e =>
      change deleteRows name filter d = some (n, d') at hdelete
      rw [deleteRows, hchange] at hdelete
      cases hdelete
    | ok pair =>
      change deleteRows name filter d = some (n, d') at hdelete
      rw [deleteRows, hchange] at hdelete
      cases hdelete
      obtain ⟨t, t', ht, hdel, ht'⟩ := rowsOf_change hchange
      have hrows : ∃ rows, t' = { t with rows := rows } := by
        simp only [Table.delete, bind, Except.bind] at hdel
        split at hdel
        · cases hdel
        · cases hdel
          exact ⟨_, rfl⟩
      obtain ⟨rows, rfl⟩ := hrows
      rw [HasColumns, ht' rfl rfl, ← hgood, ht]
      rfl
  insert_eq {row row' d} hgood halike := by
    obtain ⟨hrow, hrow', hvalues⟩ := halike
    obtain ⟨t, ht, rfl⟩ := Option.map_eq_some_iff.mp hgood
    have hmem : ∀ {row}, Rowwise.Names catalog row →
        ∀ n ∈ row.map (·.1), ∃ c ∈ t.columns, c.name = n := by
      intro row hrow n hn
      obtain ⟨e, he, rfl, -⟩ := hrow.2 n hn
      obtain ⟨c, hc, rfl⟩ := hcatalog e he
      exact ⟨c, hc, rfl⟩
    apply alter_congr ht
    rw [insert_row hd hrow.1 (hmem hrow), insert_row hd hrow'.1 (hmem hrow'),
      mapM_congr (g := given row')]
    intro c hc
    have hvalue := hvalues c.name
    unfold Rowwise.valueIn at hvalue
    cases hv : row.lookup c.name with
    | none =>
      cases hv' : row'.lookup c.name with
      | none => rw [given, given, hv, hv']
      | some v' =>
        rw [hv, hv'] at hvalue
        rw [given_eq hd hcatalog hdeclared hrow' hc hv' hvalue.symm, given, hv]
    | some v =>
      cases hv' : row'.lookup c.name with
      | none =>
        rw [hv, hv'] at hvalue
        rw [given_eq hd hcatalog hdeclared hrow hc hv hvalue, given, hv']
      | some v' =>
        rw [hv, hv'] at hvalue
        rw [given, given, hv, hv']
        exact congrArg c.storage.cast hvalue

end Declared

end TableLoad.Database
