import TableLoad.Proofs.Accounting
import TableLoad.Proofs.Deletion

namespace TableLoad

/-- How a database compares a column of its rows with a value. -/
structure Comparison (R : Type) where
  /-- What a row holds in a column. -/
  cell : R → String → Value
  /-- In this row the condition `column = value` is true. -/
  equals : R → String → Value → Bool
  equals_null : ∀ row column, equals row column .null = false
  null_equals : ∀ row column v, cell row column = .null → equals row column v = false

namespace Comparison

variable {ω R : Type}

/-- A delete removes the rows in which all its conditions are true. -/
def Decides (c : Comparison R) (view : Session.View ω R) : Prop :=
  ∀ (s : Delete) (row : R),
    view.meets s row = s.filter.entries.all fun (column, v) => c.equals row column v

/-- The row holds the value in the column; of null this is no question of `=`. -/
def holds (c : Comparison R) (row : R) (column : String) (v : Value) : Bool :=
  if v = .null then c.cell row column = .null else c.equals row column v

theorem holds_of_ne_null (c : Comparison R) (row : R) (column : String) {v : Value}
    (h : v ≠ .null) : c.holds row column v = c.equals row column v :=
  if_neg h

end Comparison

namespace DeleteRule

variable {R : Type} {rule : DeleteRule}

/-- The value that a filter gives; a whole number is that number, however long. -/
def given : Json → Value
  | .number (.int i) => .int i
  | v => Value.ofJson v

/-- The row holds every value of the filter in its column, null included. -/
def describes (rule : DeleteRule) (c : Comparison R) (row : R) : Bool :=
  rule.filter.entries.all fun (column, v) => c.holds row column (given v)

/-- Every condition that stands for the filter in a statement is true of the row. -/
def removes (rule : DeleteRule) (c : Comparison R) (row : R) : Bool :=
  rule.filter.entries.all fun (column, v) => c.equals row column (Value.ofJson v)

theorem ofJson_eq_given {v : Json} (h : ∀ i, v = .number (.int i) → Value.fitsInt i = true) :
    Value.ofJson v = given v := by
  unfold given
  split
  · rename_i i
    exact if_pos (h i rfl)
  · rfl

theorem given_ne_null {v : Json} (h : v ≠ .null) : given v ≠ .null := by
  cases v with
  | null => exact absurd rfl h
  | number n => cases n <;> exact Value.noConfusion
  | bool _ | string _ | array _ | object _ => exact Value.noConfusion

theorem removes_of_null (c : Comparison R) {column : String}
    (h : rule.filter.find? column = some .null) (row : R) : rule.removes c row = false := by
  rw [removes, List.all_eq_false]
  refine ⟨(column, .null), Keyed.find?_eq_some.mp h, ?_⟩
  rw [Bool.not_eq_true]
  exact c.equals_null row column

theorem removes_eq_describes (c : Comparison R)
    (hnull : ∀ column, rule.filter.find? column ≠ some .null)
    (hfits : ∀ column i, rule.filter.find? column = some (.number (.int i)) →
      Value.fitsInt i = true) (row : R) : rule.removes c row = rule.describes c row := by
  rw [removes, describes, Bool.eq_iff_iff, List.all_eq_true, List.all_eq_true]
  refine forall₂_congr fun entry hentry => ?_
  obtain ⟨column, v⟩ := entry
  have hfind : rule.filter.find? column = some v := Keyed.find?_eq_some.mpr hentry
  have hne : v ≠ .null := fun hv => hnull column (hv ▸ hfind)
  have hgiven : Value.ofJson v = given v :=
    ofJson_eq_given fun i hi => hfits column i (hi ▸ hfind)
  simp only [c.holds_of_ne_null row column (given_ne_null hne), hgiven]

end DeleteRule

namespace Database

/-- Whether a row meets conditions on its columns. -/
def meetsAll (row : List TableColumn × List Value) (filter : List (String × Value)) : Bool :=
  match (Table.ofColumns row.1).conditions filter with
  | .ok conditions => Table.meets conditions row.2
  | .error _ => false

theorem equalStored_null (v : Value) : equalStored v .null = false := by
  cases v <;> rfl

theorem null_equalStored (v : Value) : equalStored .null v = false := by
  cases v <;> rfl

theorem cast_null (t : StorageType) : t.cast .null = .ok .null := by
  cases t <;> rfl

theorem conditions_cons (t : Table) (entry : String × Value) (filter : List (String × Value)) :
    t.conditions (entry :: filter) = (do
      let first ← t.conditions [entry]
      let rest ← t.conditions filter
      return first ++ rest) := by
  simp [Table.conditions]

theorem meetsAll_cons (row : List TableColumn × List Value) (entry : String × Value)
    (filter : List (String × Value)) :
    meetsAll row (entry :: filter) = (meetsAll row [entry] && meetsAll row filter) := by
  rw [meetsAll, meetsAll, meetsAll, conditions_cons]
  cases (Table.ofColumns row.1).conditions [entry] with
  | error e => rfl
  | ok first =>
    cases (Table.ofColumns row.1).conditions filter with
    | error e => exact (Bool.and_false _).symm
    | ok rest => exact List.all_append

/-- A row meets a condition when what stands in its column equals the value as some type stores
it. -/
theorem meetsAll_singleton {row : List TableColumn × List Value} {column : String} {v : Value}
    (h : meetsAll row [(column, v)] = true) : ∃ i t stored,
      (Table.ofColumns row.1).indexOf? column = some i ∧ StorageType.cast t v = .ok stored ∧
      equalStored (row.2.getD i .null) stored = true := by
  rw [meetsAll, Table.conditions, List.mapM_cons, List.mapM_nil] at h
  cases hi : (Table.ofColumns row.1).indexOf? column with
  | none => simp [hi, bind, Except.bind] at h
  | some i =>
    cases hc : (Table.ofColumns row.1).columns.find? fun c =>
        Text.eqIgnoreAsciiCase c.name column with
    | none => simp [hi, hc, bind, Except.bind] at h
    | some c =>
      cases hcast : c.storage.cast v with
      | error e => simp [hi, hc, hcast, bind, Except.bind, Except.map] at h
      | ok stored =>
        refine ⟨i, c.storage, stored, rfl, hcast, ?_⟩
        simpa [hi, hc, hcast, bind, Except.bind, pure, Except.pure, Except.map, Table.meets] using h

namespace Connection

/-- The rows of a table, each with its columns, compare as their columns store values. -/
def comparison : Comparison (List TableColumn × List Value) where
  cell row column := (((Table.ofColumns row.1).indexOf? column).map (row.2.getD · .null)).getD .null
  equals row column v := meetsAll row [(column, v)]
  equals_null row column := by
    rw [Bool.eq_false_iff]
    intro h
    obtain ⟨i, t, stored, -, hcast, hequal⟩ := meetsAll_singleton h
    rw [cast_null] at hcast
    cases hcast
    rw [equalStored_null] at hequal
    cases hequal
  null_equals row column v h := by
    rw [Bool.eq_false_iff]
    intro hmeets
    obtain ⟨i, t, stored, hi, -, hequal⟩ := meetsAll_singleton hmeets
    rw [hi, Option.map_some, Option.getD_some] at h
    rw [h, null_equalStored] at hequal
    cases hequal

theorem comparison_decides : comparison.Decides view := by
  intro s row
  have hall (filter : List (String × Value)) :
      meetsAll row filter = filter.all fun (column, v) => meetsAll row [(column, v)] := by
    induction filter with
    | nil => rfl
    | cons entry filter ih => rw [meetsAll_cons, ih, List.all_cons]
  exact hall s.filter.entries

end Connection

end Database

namespace Load

open Database

variable {ω σ R : Type} {session : Session ω} {view : Session.View ω R} {source : Source σ}

/-- A delete without the rows that its conditions are true of. -/
theorem remaining_ofJob {c : Comparison R} (hc : c.Decides view) {job : Job} {rule : DeleteRule}
    (hrule : job.delete = some rule) (hwhere : rule.truncate = false) (table : String)
    (rows : List R) : (LoadConfig.ofJob job).remaining view table rows =
      rows.filter fun row => !rule.removes c row := by
  have hdelete : (LoadConfig.ofJob job).deleteFrom table =
      some ⟨table, rule.filterValues, job.dialect⟩ := by
    simp only [LoadConfig.deleteFrom, LoadConfig.ofJob, hrule, Option.map_some,
      DeleteRule.conditions, hwhere, Bool.false_eq_true, if_false]
  simp only [LoadConfig.remaining, hdelete, hc _ _, DeleteRule.filterValues, Keyed.map,
    List.all_map, DeleteRule.removes]
  rfl

/-- Before the rows of a load that commits some, a job with a filter removes the rows that the
filter describes, if the filter has no null; if it has one, no row is removed. So what the filter
describes is gone, and nothing else is, where the filter has no null or describes no row. -/
theorem run_removes_described (ht : session.Transactional view) {c : Comparison R}
    (hc : c.Decides view) {job : Job} (hjob : job.validate = .ok ()) {rule : DeleteRule}
    (hrule : job.delete = some rule) (hwhere : rule.filter.keys ≠ []) {destination : Destination}
    {s s' : σ} {w w' : ω} {report : LoadReport}
    (hrun : run session source destination job.table (.ofJob job) s w = (.ok report, s', w'))
    (hrows : 0 < report.counts.rows) (hmax : 0 < job.maxBatchSize) :
    ∃ t added, destination.resolve job.table = .ok t ∧ added.length = report.counts.rows ∧
      ((∃ column, rule.filter.find? column = some .null) →
        view.rows w' t.qualified = view.rows w t.qualified ++ added) ∧
      ((∀ column i, rule.filter.find? column = some (.number (.int i)) →
          Value.fitsInt i = true) →
        (view.rows w' t.qualified =
            (view.rows w t.qualified).filter (fun row => !rule.describes c row) ++ added ↔
          (∀ column, rule.filter.find? column ≠ some .null) ∨
            ∀ row ∈ view.rows w t.qualified, rule.describes c row = false)) := by
  obtain ⟨t, catalog, g, w₁, htable, -, hgather, hwrite⟩ := run_ok hrun
  obtain ⟨hrec, -⟩ := gather_reconciled hgather
  have hcounts := (write_counts hrec (congrArg Prod.fst hwrite)).2.2.1
  have hsome : g.dataset.rows.toList ≠ [] := by
    intro hnil
    rw [← Array.length_toList, hnil] at hcounts
    exact absurd hcounts hrows.ne'
  obtain ⟨added, hadded, hholds⟩ := (write_ok ht hrec hwrite).2.2 hsome hmax
  have htruncate : rule.truncate = false := by
    rw [Bool.eq_false_iff]
    exact mt (Job.validateDelete_flags (Job.validateDelete_of_validate hjob hrule)).mp hwhere
  rw [gather_rows ht hgather, remaining_ofJob hc hrule htruncate] at hadded
  have hkept (h : ∃ column, rule.filter.find? column = some .null) :
      view.rows w' t.qualified = view.rows w t.qualified ++ added := by
    obtain ⟨column, hnull⟩ := h
    simp only [rule.removes_of_null c hnull] at hadded
    simpa using hadded
  refine ⟨t, added, htable, ?_, hkept, fun hfits => ?_⟩
  · rw [← hholds.length_eq, Array.length_toList, hcounts]
  by_cases hnull : ∃ column, rule.filter.find? column = some .null
  · have hnot : ¬ ∀ column, rule.filter.find? column ≠ some .null := by
      simpa using hnull
    rw [hkept hnull, List.append_left_inj, or_iff_right hnot, eq_comm, List.filter_eq_self]
    simp
  · have hnone : ∀ column, rule.filter.find? column ≠ some .null := by
      simpa using hnull
    simp only [rule.removes_eq_describes c hnone hfits] at hadded
    exact ⟨fun _ => Or.inl hnone, fun _ => hadded⟩

/-- The first order goes, and the one that fits stands behind the other. -/
theorem run_orders_removes : ∃ rule report s' w' added, ordersJob.delete = some rule ∧
    run Connection.session Input.source .inMemory "orders" (.ofJob ordersJob) orders .orders =
        (.ok report, s', w') ∧
      w'.database.rowsOf "main.orders" = (Connection.orders.database.rowsOf "main.orders").filter
        (fun row => !rule.describes Connection.comparison row) ++ added ∧
      added.length = 1 := by
  have hvalid : ordersJob.validate = .ok () := by decide +kernel
  have hresolve : Destination.inMemory.resolve "orders" = .ok ⟨none, "main", "orders"⟩ := by
    decide +kernel
  have hone : (run Connection.session Input.source .inMemory "orders" (.ofJob ordersJob) orders
      .orders).1.toOption.map (fun report => report.counts.rows) = some 1 := by decide +kernel
  cases hrun : run Connection.session Input.source .inMemory "orders" (.ofJob ordersJob) orders
      .orders with
  | mk result rest =>
    rw [hrun] at hone
    cases result with
    | error e => cases hone
    | ok report =>
      have hrows : report.counts.rows = 1 := Option.some.inj hone
      obtain ⟨t, added, ht, hlength, -, hmet⟩ := run_removes_described Connection.transactional
        Connection.comparison_decides hvalid rfl (by decide +kernel) hrun (by omega) (by decide)
      cases hresolve.symm.trans ht
      have hentry : ∀ column v, (Keyed.ofList [("id", Json.number (.int 1))]).find? column = some v →
          v = .number (.int 1) := by
        intro column v h
        have hmem : (column, v) ∈ [("id", Json.number (.int 1))] := Keyed.find?_eq_some.mp h
        exact congrArg Prod.snd (List.mem_singleton.mp hmem)
      refine ⟨_, report, rest.1, rest.2, added, rfl, rfl, (hmet fun column i h => ?_).mpr
        (Or.inl fun column h => ?_), hlength.trans hrows⟩
      · cases hentry column _ h
        decide
      · cases hentry column _ h

/-- One line that no quantity is known for. -/
def uncountedLines : Connection :=
  .ofDatabase ⟨[⟨"main", "lines", Connection.lineColumns, [[.int 1, .null], [.int 2, .int 5]]⟩]⟩

/-- Replaces the lines that no quantity is known for. -/
def uncounted : DeleteRule :=
  ⟨.ofList [("qty", .null)], false⟩

def uncountedJob : Job :=
  { name := "lines", target := ⟨.duckdb, ":memory:", none⟩, table := "lines", maxBatchSize := 10,
    dialectOverride := none, mapping := .empty, delete := some uncounted, onError := .abort }

def countedLine : Input :=
  .records [.ofList [("id", .number (.int 3)), ("qty", .number (.int 7))]] 0

/-- The job makes sense and its load commits a row, but the line that it describes stays. -/
theorem run_uncounted_stays : uncountedJob.validate = .ok () ∧ ∃ report row,
    (run Connection.session Input.source .inMemory "lines" (.ofJob uncountedJob) countedLine
      uncountedLines).1 = .ok report ∧ report.counts.rows = 1 ∧
    row ∈ uncountedLines.database.rowsOf "main.lines" ∧
    uncounted.describes Connection.comparison row = true ∧
    row ∈ (run Connection.session Input.source .inMemory "lines" (.ofJob uncountedJob) countedLine
      uncountedLines).2.2.database.rowsOf "main.lines" := by
  have hone : (run Connection.session Input.source .inMemory "lines" (.ofJob uncountedJob)
      countedLine uncountedLines).1.toOption.map (fun report => report.counts.rows) = some 1 := by
    decide +kernel
  cases hresult : (run Connection.session Input.source .inMemory "lines" (.ofJob uncountedJob)
      countedLine uncountedLines).1 with
  | error e =>
    rw [hresult] at hone
    cases hone
  | ok report =>
    rw [hresult] at hone
    exact ⟨by decide +kernel, report, (Connection.lineColumns, [.int 1, .null]), rfl,
      Option.some.inj hone, by decide +kernel, by decide +kernel, by decide +kernel⟩

end Load

end TableLoad
