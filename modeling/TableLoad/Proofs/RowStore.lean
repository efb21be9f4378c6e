import TableLoad.Proofs.Connection
import TableLoad.Proofs.Rowwise

namespace TableLoad

namespace Session

variable {ω R : Type} {view : View ω R}

/-- The session of a load that nobody cancels. -/
def uncancelled (session : Session ω) : Session ω :=
  { session with cancelled := fun _ => false }

theorem Transactional.uncancelled {session : Session ω} (ht : session.Transactional view) :
    session.uncancelled.Transactional view :=
  ⟨ht.afterRead, ht.begin_ok, ht.begin_error, ht.execute_saved, ht.delete_ok, ht.insert_ok,
    ht.commit_ok, ht.commit_error, ht.rollback⟩

end Session

namespace Database

open Session

/-- Changes one table, if it is there and the change succeeds. -/
def alter (d : Database) (name : String) (f : Table → Except String Table) : Option Database :=
  (d.indexOf? name).bind fun i =>
    d.tables[i]?.bind fun t => (f t).toOption.map fun t' => ⟨d.tables.set i t'⟩

def insertRow (name : String) (row : List (String × Value)) (d : Database) : Option Database :=
  d.alter name fun t => t.insert (row.map (·.1)) [row.map (·.2)]

def deleteRows (name : String) (filter : List (String × Value)) (d : Database) :
    Option (Nat × Database) :=
  (d.change name fun t =>
    (t.delete filter).map fun t' => (t.rows.length - t'.rows.length, t')).toOption

theorem change_of_alter (d : Database) (name : String) (f : Table → Except String Table) (n : Nat) :
    match d.alter name f with
    | some d' => d.change name (fun t => (f t).map (n, ·)) = .ok (n, d')
    | none => ∃ e, d.change name (fun t => (f t).map (n, ·)) = .error e := by
  cases hi : d.indexOf? name with
  | none =>
    simp only [alter, hi, Option.bind_none]
    exact ⟨_, by simp only [change, hi]; rfl⟩
  | some i =>
    cases ht : d.tables[i]? with
    | none =>
      simp only [alter, hi, ht, Option.bind_some, Option.bind_none]
      exact ⟨_, by simp only [change, hi, ht]; rfl⟩
    | some t =>
      simp only [alter, hi, ht, Option.bind_some]
      cases hf : f t with
      | error e => exact ⟨e, by simp only [change, hi, ht, hf]; rfl⟩
      | ok t' => simp only [change, hi, ht, hf]; rfl

/-- Two changes of one table are one change. -/
theorem alter_bind (d : Database) (name : String) {f : Table → Except String Table}
    (hf : ∀ t t', f t = .ok t' → t'.schema = t.schema ∧ t'.name = t.name)
    (g : Table → Except String Table) :
    (d.alter name f).bind (·.alter name g) = d.alter name fun t => (f t).bind g := by
  cases hi : d.indexOf? name with
  | none => simp only [alter, hi, Option.bind_none]
  | some i =>
    cases ht : d.tables[i]? with
    | none => simp only [alter, hi, ht, Option.bind_some, Option.bind_none]
    | some t =>
      cases hft : f t with
      | error e =>
        simp only [alter, hi, ht, Option.bind_some, hft]
        rfl
      | ok t' =>
        obtain ⟨hschema, hname⟩ := hf t t' hft
        have hlt := (List.getElem?_eq_some_iff.mp ht).1
        -- the table keeps its name, so the second change finds it in the same place
        have hidx : (Database.mk (d.tables.set i t')).indexOf? name = some i := by
          rw [indexOf?_set ht hschema hname, hi]
        have hget : (d.tables.set i t')[i]? = some t' := by simp [hlt]
        have hfirst : d.alter name f = some ⟨d.tables.set i t'⟩ := by
          simp only [alter, hi, ht, Option.bind_some, hft]
          rfl
        have hbind : (f t).bind g = g t' := by
          rw [hft]
          rfl
        rw [hfirst, Option.bind_some]
        simp only [alter, hi, ht, hidx, hget, Option.bind_some, hbind, List.set_set]

theorem Table.insert_ok {t t' : Table} {columns : List String} {tuples : List (List Value)}
    (h : t.insert columns tuples = .ok t') : ∃ rows, t' = { t with rows := rows } := by
  simp only [insert, bind, Except.bind] at h
  split at h
  · cases h
  · obtain ⟨added, rfl, -⟩ := insertRows_ok h
    exact ⟨_, rfl⟩

theorem Table.insert_cons (t : Table) (columns : List String) (tuple : List Value)
    (tuples : List (List Value)) :
    t.insert columns (tuple :: tuples) =
      (t.insert columns [tuple]).bind fun t' => t'.insert columns tuples := by
  cases hi : t.indicesOf columns with
  | error e => simp only [insert, hi, bind, Except.bind]
  | ok indices =>
    cases hrow : t.insertRow indices tuple with
    | error e =>
      simp only [insert, hi, bind, Except.bind, List.foldlM_cons, hrow]
    | ok t' =>
      obtain ⟨row, -, -, rfl⟩ := insertRow_ok hrow
      have hi' : ({ t with rows := t.rows ++ [row] } : Table).indicesOf columns = .ok indices := hi
      simp only [insert, hi, hi', bind, Except.bind, List.foldlM_cons, List.foldlM_nil, hrow, pure,
        Except.pure]

theorem insertRow_zip (name : String) {columns : List String} {tuple : List Value}
    (h : tuple.length = columns.length) (d : Database) :
    insertRow name (columns.zip tuple) d = d.alter name fun t => t.insert columns [tuple] := by
  have hnames : (columns.zip tuple).map (·.1) = columns := List.map_fst_zip h.ge
  have hvalues : (columns.zip tuple).map (·.2) = tuple := List.map_snd_zip h.le
  rw [insertRow, hnames, hvalues]

theorem foldlM_insertRow (name : String) {columns : List String} {tuple : List Value}
    {tuples : List (List Value)} (h : ∀ row ∈ tuple :: tuples, row.length = columns.length)
    (d : Database) :
    ((tuple :: tuples).map (columns.zip ·)).foldlM (fun d row => insertRow name row d) d =
      d.alter name fun t => t.insert columns (tuple :: tuples) := by
  induction tuples generalizing tuple d with
  | nil =>
    have hone := insertRow_zip name (h tuple List.mem_cons_self) d
    simp [hone]
  | cons next tuples ih =>
    have hone := insertRow_zip name (h tuple List.mem_cons_self) d
    have hrest := funext (ih fun row hrow => h row (List.mem_cons_of_mem _ hrow))
    have hkeep : ∀ t t' : Table, t.insert columns [tuple] = .ok t' →
        t'.schema = t.schema ∧ t'.name = t.name := by
      intro t t' ht
      obtain ⟨rows, rfl⟩ := Table.insert_ok ht
      exact ⟨rfl, rfl⟩
    have hcut : (fun t : Table => t.insert columns (tuple :: next :: tuples)) =
        fun t => (t.insert columns [tuple]).bind fun t' => t'.insert columns (next :: tuples) :=
      funext fun t => Table.insert_cons t columns tuple (next :: tuples)
    rw [List.map_cons, List.foldlM_cons, hone, hrest, hcut]
    exact alter_bind d name hkeep _

/-- An insert of some rows succeeds if each of them can go in behind those before it. -/
theorem execute_insert {s : Insert} (hrows : 0 < s.rows)
    (hlength : s.values.length = s.rows * s.columns.length) (d : Database) :
    match (s.tuples.map (s.columns.zip ·)).foldlM (fun d row => insertRow s.table row d) d with
    | some d' => d.execute (.insert s) = .ok (s.rows, d')
    | none => ∃ e, d.execute (.insert s) = .error e := by
  have hwidth : ∀ row ∈ s.tuples, row.length = s.columns.length :=
    Insert.length_of_mem_split hlength
  obtain ⟨tuple, tuples, htuples⟩ : ∃ tuple tuples, s.tuples = tuple :: tuples := by
    obtain ⟨n, hn⟩ := Nat.exists_eq_add_of_lt hrows
    rw [Insert.tuples, hn, Nat.zero_add]
    exact ⟨_, _, rfl⟩
  rw [htuples] at hwidth ⊢
  rw [foldlM_insertRow s.table hwidth, ← htuples]
  exact change_of_alter d s.table _ s.rows

theorem execute_delete (s : Delete) (d : Database) :
    match deleteRows s.table s.filter.entries d with
    | some (n, d') => d.execute (.delete s) = .ok (n, d')
    | none => ∃ e, d.execute (.delete s) = .error e := by
  have hrows : deleteRows s.table s.filter.entries d = (d.execute (.delete s)).toOption := rfl
  rw [hrows]
  cases hexec : d.execute (.delete s) with
  | error e => exact ⟨e, rfl⟩
  | ok pair => rfl

namespace Connection

theorem execute_state (s : Statement) (c : Connection) :
    match c.database.execute s with
    | .ok (n, d) => ∃ c', execute s c = (.ok n, c') ∧ c'.database = d
    | .error e => ∃ c', execute s c = (.error e, c') := by
  cases hexec : c.database.execute s with
  | error e => cases s <;> exact ⟨_, by simp only [execute, happen, hexec]; rfl⟩
  | ok pair => cases s <;> exact ⟨_, by simp only [execute, happen, hexec]; rfl, rfl⟩

def rowwise : session.uncancelled.Rowwise view Database where
  state c := c.database
  rows := rowsOf
  rows_state _ := rfl
  insertRow := insertRow
  deleteRows := deleteRows
  begins _ := true
  commits _ := true
  begin _ := ⟨rfl, rfl⟩
  insert {s tuples} c hrows hlength hbound := by
    have htuples : s.tuples = tuples := Option.some.inj ((Insert.bound_eq hlength).symm.trans hbound)
    have hstate := execute_state (.insert s) c
    have hinsert := execute_insert hrows hlength c.database
    rw [← htuples]
    cases hrows : (s.tuples.map (s.columns.zip ·)).foldlM
        (fun d row => insertRow s.table row d) c.database with
    | none =>
      rw [hrows] at hinsert
      obtain ⟨e, he⟩ := hinsert
      rw [he] at hstate
      exact ⟨e, hstate⟩
    | some d =>
      rw [hrows] at hinsert
      rw [hinsert] at hstate
      exact hstate
  delete {s conditions} c hbound := by
    have hconditions : s.filter.entries = conditions :=
      Option.some.inj (s.bound_eq.symm.trans hbound)
    have hstate := execute_state (.delete s) c
    have hdelete := execute_delete s c.database
    rw [← hconditions]
    cases hrows : deleteRows s.table s.filter.entries c.database with
    | none =>
      rw [hrows] at hdelete
      obtain ⟨e, he⟩ := hdelete
      rw [he] at hstate
      exact ⟨e, hstate⟩
    | some pair =>
      rw [hrows] at hdelete
      rw [hdelete] at hstate
      exact hstate
  commit _ := rfl

end Connection

end Database

end TableLoad
