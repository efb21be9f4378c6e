import TableLoad.Database.Connection
import TableLoad.Proofs.Transaction

namespace TableLoad.Database

/-- The table that a statement names. -/
def table? (d : Database) (name : String) : Option Table :=
  (d.indexOf? name).bind fun i => d.tables[i]?

/-- A table with nothing but columns. -/
def Table.ofColumns (columns : List TableColumn) : Table :=
  ⟨"", "", columns, []⟩

/-- The rows of a table, each with the columns that it has values for. -/
def rowsOf (d : Database) (name : String) : List (List TableColumn × List Value) :=
  ((d.table? name).map fun t => t.rows.map (t.columns, ·)).getD []

/-- Replacing a table by one of the same name changes no name. -/
theorem indexOf?_set {d : Database} {i : Nat} {t t' : Table} (hi : d.tables[i]? = some t)
    (hs : t'.schema = t.schema) (hn : t'.name = t.name) (name : String) :
    (Database.mk (d.tables.set i t')).indexOf? name = d.indexOf? name := by
  obtain ⟨hlt, rfl⟩ := List.getElem?_eq_some_iff.mp hi
  have hkeys : (d.tables.set i t').map (fun t => (t.schema, t.name)) =
      d.tables.map fun t => (t.schema, t.name) := by
    rw [List.map_set, hs, hn]
    apply List.ext_getElem (by simp)
    intro j h₁ h₂
    by_cases hj : i = j
    · subst hj
      simp
    · simp [List.getElem_set_ne hj]
  have hfind (schema table : String) :
      indexOf?.find (Database.mk (d.tables.set i t')) schema table =
        indexOf?.find d schema table := by
    have h := congrArg (List.findIdx? fun k : String × String =>
      Text.eqIgnoreAsciiCase k.1 schema && Text.eqIgnoreAsciiCase k.2 table) hkeys
    rw [List.findIdx?_map, List.findIdx?_map] at h
    exact h
  simp only [indexOf?, hfind]

theorem rowsOf_change {d d' : Database} {name : String} {n : Nat}
    {f : Table → Except String (Nat × Table)} (h : d.change name f = .ok (n, d')) :
    ∃ t t', d.table? name = some t ∧ f t = .ok (n, t') ∧
      (t'.schema = t.schema → t'.name = t.name → d'.table? name = some t') := by
  simp only [change] at h
  split at h
  · cases h
  · rename_i i hidx
    split at h
    · cases h
    · rename_i t ht
      cases hf : f t with
      | error e => rw [hf] at h; cases h
      | ok r =>
        rw [hf] at h
        cases h
        refine ⟨t, r.2, by rw [table?, hidx, Option.bind_some, ht], hf, fun hs hn => ?_⟩
        have hlt := (List.getElem?_eq_some_iff.mp ht).1
        rw [table?, indexOf?_set ht hs hn, hidx, Option.bind_some]
        simp [hlt]

theorem Table.insertRow_ok {t t' : Table} {indices : List Nat} {values : List Value}
    (h : t.insertRow indices values = .ok t') :
    ∃ row, values.length = indices.length ∧ t.completeRow indices values = .ok row ∧
      t' = { t with rows := t.rows ++ [row] } := by
  simp only [insertRow, bind, Except.bind, pure, Except.pure] at h
  split at h
  · cases h
  · rename_i hlength
    split at h
    · cases h
    · rename_i row hrow
      split at h
      · cases h
      · cases h
        exact ⟨row, not_not.mp hlength, hrow, rfl⟩

/-- Rows that are put in one by one stand behind the others, each completed by itself. -/
theorem Table.insertRows_ok {t t' : Table} {indices : List Nat} {tuples : List (List Value)}
    (h : tuples.foldlM (fun t values => t.insertRow indices values) t = .ok t') :
    ∃ added, t' = { t with rows := t.rows ++ added } ∧
      List.Forall₂ (fun values row => values.length = indices.length ∧
        (ofColumns t.columns).completeRow indices values = .ok row) tuples added := by
  induction tuples generalizing t with
  | nil =>
    cases h
    exact ⟨[], by simp, .nil⟩
  | cons values tuples ih =>
    simp only [List.foldlM_cons, bind, Except.bind] at h
    split at h
    · cases h
    · rename_i t₁ h₁
      obtain ⟨row, hlength, hrow, rfl⟩ := insertRow_ok h₁
      obtain ⟨added, rfl, hadded⟩ := ih h
      exact ⟨row :: added, by simp, .cons ⟨hlength, hrow⟩ hadded⟩

/-- The values that a row was completed from. -/
def Completes (assignment : List (String × Value)) (row : List TableColumn × List Value) : Prop :=
  ∃ names values indices, assignment = names.zip values ∧ values.length = indices.length ∧
    (Table.ofColumns row.1).indicesOf names = .ok indices ∧
    (Table.ofColumns row.1).completeRow indices values = .ok row.2

theorem rowsOf_insert {d d' : Database} {s : Insert} {n : Nat}
    (h : d.execute (.insert s) = .ok (n, d')) :
    ∃ added, d'.rowsOf s.table = d.rowsOf s.table ++ added ∧
      List.Forall₂ Completes (s.tuples.map (s.columns.zip ·)) added := by
  obtain ⟨t, t', ht, hf, ht'⟩ := rowsOf_change h
  cases hins : t.insert s.columns s.tuples with
  | error e => rw [hins] at hf; cases hf
  | ok u =>
    rw [hins] at hf
    cases hf
    simp only [Table.insert, bind, Except.bind] at hins
    split at hins
    · cases hins
    · rename_i indices hindices
      obtain ⟨added, rfl, hadded⟩ := Table.insertRows_ok hins
      refine ⟨added.map (t.columns, ·), ?_, ?_⟩
      · simp [rowsOf, ht, ht' rfl rfl]
      · rw [List.forall₂_map_left_iff, List.forall₂_map_right_iff]
        refine hadded.imp fun values row hrow => ?_
        exact ⟨s.columns, values, indices, rfl, hrow.1, hindices, hrow.2⟩

/-- Whether a delete removes a row; the conditions are those of the row's columns. -/
def meetsDelete (s : Delete) (row : List TableColumn × List Value) : Bool :=
  match (Table.ofColumns row.1).conditions s.filter.entries with
  | .ok conditions => Table.meets conditions row.2
  | .error _ => false

theorem rowsOf_delete {d d' : Database} {s : Delete} {n : Nat}
    (h : d.execute (.delete s) = .ok (n, d')) :
    d'.rowsOf s.table = (d.rowsOf s.table).filter fun row => !meetsDelete s row := by
  obtain ⟨t, t', ht, hf, ht'⟩ := rowsOf_change h
  cases hdel : t.delete s.filter.entries with
  | error e => rw [hdel] at hf; cases hf
  | ok u =>
    rw [hdel] at hf
    cases hf
    simp only [Table.delete, bind, Except.bind] at hdel
    split at hdel
    · cases hdel
    · rename_i conditions hconditions
      cases hdel
      have hcond : (Table.ofColumns t.columns).conditions s.filter.entries = .ok conditions :=
        hconditions
      simp [rowsOf, ht, ht' rfl rfl, List.filter_map, Function.comp_def, meetsDelete, hcond]

namespace Connection

def view : Session.View Connection (List TableColumn × List Value) where
  rows c := c.database.rowsOf
  saved c := c.saved.map rowsOf
  meets := meetsDelete
  holds := Completes

theorem execute_saved (s : Statement) (c : Connection) : (execute s c).2.saved = c.saved := by
  simp only [execute]
  cases s <;> split <;> rfl

theorem execute_ok {s : Statement} {c c' : Connection} {n : Nat} (h : execute s c = (.ok n, c')) :
    c.database.execute s = .ok (n, c'.database) := by
  simp only [execute] at h
  cases s with
  | insert s =>
    simp only at h
    split at h
    · cases h
    · rename_i m d hd
      cases h
      exact hd
  | delete s =>
    simp only at h
    split at h
    · cases h
    · rename_i m d hd
      cases h
      exact hd

theorem transactional : session.Transactional view where
  afterRead _ := rfl
  begin_ok h := by
    cases h
    exact ⟨rfl, rfl⟩
  begin_error h := by cases h
  execute_saved s c := congrArg (Option.map rowsOf) (execute_saved s c)
  delete_ok h := rowsOf_delete (execute_ok h)
  insert_ok h := rowsOf_insert (execute_ok h)
  commit_ok h := by
    cases h
    exact ⟨rfl, rfl⟩
  commit_error h := by cases h
  rollback {c rows} h := by
    obtain ⟨d, hd, rfl⟩ := Option.map_eq_some_iff.mp h
    have hrows : (session.rollback c).database = d := by
      change c.saved.getD c.database = d
      rw [hd, Option.getD_some]
    exact ⟨congrArg rowsOf hrows, rfl⟩

def orders : Connection :=
  ofDatabase ⟨[⟨"main", "orders", [⟨"id", "INTEGER", true, false, none⟩], [[.int 1], [.int 2]]⟩]⟩

/-- A line that names no quantity is for five. -/
def lineColumns : List TableColumn :=
  [⟨"id", "INTEGER", true, false, none⟩, ⟨"qty", "INTEGER", false, false, some "5"⟩]

def lines : Connection :=
  ofDatabase ⟨[⟨"main", "lines", lineColumns, [[.int 1, .int 10]]⟩]⟩

/-- Columns without defaults. -/
def noteColumns : List TableColumn :=
  [⟨"id", "INTEGER", true, false, none⟩, ⟨"note", "VARCHAR", false, false, none⟩]

def notes : Connection :=
  ofDatabase ⟨[⟨"main", "notes", noteColumns, []⟩]⟩

end Connection

end TableLoad.Database
