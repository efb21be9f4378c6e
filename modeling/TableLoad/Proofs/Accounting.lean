import TableLoad.Proofs.Asking
import TableLoad.Proofs.Phase

namespace TableLoad

namespace TwoPass

variable {catalog : ColumnSet} {mapping : FieldMap}

/-- The mapping does not discard the key, and the catalog has the column that it goes to, without
a default that the database works out. -/
def Loads (catalog : ColumnSet) (mapping : FieldMap) (key : String) : Prop :=
  ∃ target c, (mapping.find? key = some (.column target) ∨
    mapping.find? key = none ∧ target = key) ∧
    catalog.find? target = some c ∧ c.hasExpressionDefault = false

theorem loads_iff {key : String} :
    Loads catalog mapping key ↔ column? catalog mapping key ≠ none := by
  have hloads {name : String} (htarget : target? mapping key = some name) :
      column? catalog mapping key ≠ none ↔
        ∃ c, catalog.find? name = some c ∧ c.hasExpressionDefault = false := by
    rw [column?, htarget, Option.bind_some]
    cases hc : catalog.find? name with
    | none => simp
    | some c => cases hd : c.hasExpressionDefault <;> simp [hd]
  cases hm : mapping.find? key with
  | none =>
    rw [hloads (by rw [target?, hm])]
    simp [Loads, hm]
  | some target =>
    cases target with
    | discard => simp [Loads, column?, target?, hm]
    | column name =>
      rw [hloads (by rw [target?, hm])]
      simp [Loads, hm]

/-- No key leads to a column when none of them is one that loads. -/
theorem columns_eq_nil {records : List Record} :
    (columns catalog mapping (keysOf records)).names = [] ↔
      ∀ record ∈ records, ∀ key ∈ record.keys, ¬ Loads catalog mapping key := by
  constructor
  · intro hnil record hrecord key hkey hloads
    obtain ⟨c, hc⟩ := Option.ne_none_iff_exists'.mp (loads_iff.mp hloads)
    have hmem : key ∈ keysOf records := List.mem_flatMap.mpr ⟨record, hrecord, hkey⟩
    have hname := name_mem_columns hmem hc
    rw [hnil] at hname
    cases hname
  · intro h
    apply List.eq_nil_iff_forall_not_mem.mpr
    intro name hname
    obtain ⟨c, hc, -⟩ := List.mem_map.mp hname
    obtain ⟨key, hkey, hcol⟩ := column?_of_mem_columns hc
    obtain ⟨record, hrecord, hmem⟩ := List.mem_flatMap.mp hkey
    exact h record hrecord key hmem (loads_iff.mpr (by simp [hcol]))

theorem accepts_of_not_loads {record : Record}
    (h : ∀ key ∈ record.keys, ¬ Loads catalog mapping key) :
    accepts catalog mapping record = true := by
  rw [accepts, List.all_eq_true]
  intro entry hentry
  have hnone : column? catalog mapping entry.1 = none :=
    not_not.mp (mt loads_iff.mpr (h entry.1 (List.mem_map_of_mem hentry)))
  rw [check, hnone]
  rfl

end TwoPass

/-- The database reports one for each row that it inserts. -/
def Session.ReportsRows {ω : Type} (session : Session ω) : Prop :=
  ∀ {s : Insert} {w w' : ω} {n : Nat}, session.execute (.insert s) w = (.ok n, w') → n = s.rows

theorem Session.Runs.reported {ω : Type} {session : Session ω} (hcount : session.ReportsRows)
    {inserts : List Insert} {ns : List Nat} {w w' : ω}
    (h : session.Runs (inserts.map .insert) ns w w') : ns = inserts.map Insert.rows := by
  induction inserts generalizing ns w with
  | nil =>
    cases h
    rfl
  | cons s rest ih =>
    cases h with
    | cons hexec hrest => rw [hcount hexec, ih hrest, List.map_cons]

theorem Database.Connection.reportsRows : session.ReportsRows := by
  intro s c c' n h
  have hexecute : execute (.insert s) c = (.ok n, c') := h
  obtain ⟨t, t', -, hinsert, -⟩ := rowsOf_change (execute_ok hexecute)
  cases hrows : t.insert s.columns s.tuples with
  | error e =>
    rw [hrows] at hinsert
    cases hinsert
  | ok t₁ =>
    rw [hrows] at hinsert
    cases hinsert
    rfl

namespace Load

open Session TwoPass Database

variable {ω σ : Type} {session : Session ω} {source : Source σ}

/-- Every record that was read was skipped or left a row, and under the policy that skips nothing
none was skipped. -/
theorem gather_counts {policy : ErrorPolicy} {g g' : Gathered} {records : List Record}
    (hg : g.dataset.Reconciled records) {s s' : σ} {w w' : ω}
    (h : gather session source policy g s w = (.ok g', s', w')) :
    g'.records = g.records + (source.outcomes s).length ∧
      g'.records + (g.skipped + g.dataset.rows.size) =
        g.records + (g'.skipped + g'.dataset.rows.size) ∧
      (policy = .abort → g'.skipped = g.skipped) := by
  fun_induction gather session source policy g s w generalizing records
  case case1 | case5 | case7 => cases h
  case case2 hnext =>
    cases h
    rw [Source.outcomes_of_end hnext]
    exact ⟨rfl, rfl, fun _ => rfl⟩
  case case3 g s _ _ _ s₁ hnext d _ hadd ih =>
    obtain ⟨-, hrec, -, -, hrows⟩ := hg.add_eq hadd
    have hrest : g'.records = g.records + 1 + (source.outcomes s₁).length ∧
        g'.records + (g.skipped + d.rows.size) =
          g.records + 1 + (g'.skipped + g'.dataset.rows.size) ∧
        (policy = .abort → g'.skipped = g.skipped) := ih hrec h
    rw [Source.outcomes_of_record hnext, List.length_cons]
    rw [isOk_ok, if_pos rfl] at hrows
    exact ⟨by omega, by omega, hrest.2.2⟩
  case case4 g s _ _ _ s₁ hnext d _ e hpass hadd ih =>
    obtain ⟨-, hrec, -, -, hrows⟩ := hg.add_eq hadd
    have hrest : g'.records = g.records + 1 + (source.outcomes s₁).length ∧
        g'.records + (g.skipped + 1 + d.rows.size) =
          g.records + 1 + (g'.skipped + g'.dataset.rows.size) ∧
        (policy = .abort → g'.skipped = g.skipped + 1) := ih hrec h
    rw [Source.outcomes_of_record hnext, List.length_cons]
    rw [isOk_error, if_neg Bool.false_ne_true] at hrows
    refine ⟨by omega, by omega, fun habort => ?_⟩
    simp [habort] at hpass
  case case6 g s _ _ e s₁ hnext hpass ih =>
    have hrest : g'.records = g.records + 1 + (source.outcomes s₁).length ∧
        g'.records + (g.skipped + 1 + g.dataset.rows.size) =
          g.records + 1 + (g'.skipped + g'.dataset.rows.size) ∧
        (policy = .abort → g'.skipped = g.skipped + 1) := ih hg h
    rw [Source.outcomes_of_dataError hnext hpass.1, List.length_cons]
    refine ⟨by omega, by omega, fun habort => ?_⟩
    simp [habort] at hpass

section Write

variable {config : LoadConfig} {table : String} {g : Gathered} {records : List Record} {w w' : ω}

theorem write_of_no_row (h : g.dataset.rows.toList = []) :
    write session config table g w =
      (.ok ⟨⟨table, 0, 0, 0, 0⟩, g.records, g.skipped, g.dataset.columns.names,
        g.dataset.ignored⟩, w) := by
  rw [write, if_pos (isEmpty_iff.mpr h)]

/-- Rows without a column are refused. -/
theorem write_of_no_column (hrows : g.dataset.rows.toList ≠ [])
    (hc : g.dataset.columns.names = []) :
    write session config table g w = (.error .columnsNotProvided, w) := by
  obtain ⟨values, hloader, -⟩ := loaderFor_ok config table g.dataset
  have hcommit := Loader.commit_of_no_column session (l := ⟨config.dialect, config.maxBatchSize,
    .accumulating values (config.deleteFrom table), 0⟩) rfl table w
  rw [write, if_neg (fun hempty => hrows (isEmpty_iff.mp hempty)), hloader, hc]
  simp only [hcommit]
  rfl

variable (config table) in
/-- Rows of some columns are committed as a buffer of whole rows, whatever the database. -/
theorem write_of_rows (hd : g.dataset.Reconciled records) (hrows : g.dataset.rows.toList ≠ [])
    (hc : g.dataset.columns.names ≠ []) :
    ∃ (values : Array Value) (l : Loader),
      values.size = g.dataset.rows.toList.length * g.dataset.columns.names.length ∧
      l.maxBatchSize = config.maxBatchSize ∧
      l.stage = .accumulating values (config.deleteFrom table) ∧
      ∀ {ω : Type} (session : Session ω) (w : ω), write session config table g w =
        ((l.commit session table g.dataset.columns.names w).1.map fun counts =>
            ⟨counts, g.records, g.skipped, g.dataset.columns.names, g.dataset.ignored⟩,
          (l.commit session table g.dataset.columns.names w).2.2) := by
  obtain ⟨values, hloader, hvalues⟩ := loaderFor_ok config table g.dataset
  obtain ⟨hsize, -⟩ := assignments_values hvalues hc hd.length_eq_names
  let loader : Loader :=
    ⟨config.dialect, config.maxBatchSize, .accumulating values (config.deleteFrom table), 0⟩
  refine ⟨values, loader, hsize, rfl, rfl, fun session w => ?_⟩
  rw [write, if_neg (fun hempty => hrows (isEmpty_iff.mp hempty)), hloader]

theorem write_counts (hd : g.dataset.Reconciled records) {report : LoadReport}
    (h : (write session config table g w).1 = .ok report) :
    report.records = g.records ∧ report.skipped = g.skipped ∧
      report.counts.rows = g.dataset.rows.size ∧
      (session.ReportsRows → 0 < config.maxBatchSize →
        report.counts.inserted = report.counts.rows) := by
  by_cases hrows : g.dataset.rows.toList = []
  · rw [write_of_no_row hrows] at h
    cases h
    have hsize : g.dataset.rows.size = 0 := by rw [← Array.length_toList, hrows, List.length_nil]
    exact ⟨rfl, rfl, hsize.symm, fun _ _ => rfl⟩
  by_cases hc : g.dataset.columns.names = []
  · rw [write_of_no_column hrows hc] at h
    cases h
  obtain ⟨values, l, hsize, hmax, hl, hwrite⟩ := write_of_rows config table hd hrows hc
  rw [hwrite] at h
  cases hcommit : l.commit session table g.dataset.columns.names w with
  | mk result rest =>
    rw [hcommit] at h
    cases result with
    | error e => cases h
    | ok counts =>
      cases h
      obtain ⟨_, _, hl', -, -, hcounts, hrun⟩ := Loader.commit_ok hcommit
      rw [hl] at hl'
      cases hl'
      have hwidth : 0 < g.dataset.columns.names.length := List.length_pos_iff.mpr hc
      have hall : counts.rows = g.dataset.rows.size := by
        rw [hcounts, hsize, Nat.mul_div_cancel _ hwidth, Array.length_toList]
      refine ⟨rfl, rfl, hall, fun hcount hpos => ?_⟩
      rw [← hmax] at hpos
      have hsome : Batch.partition counts.rows l.maxBatchSize ≠ [] := by
        have hlength := List.length_pos_iff.mpr hrows
        rw [ne_eq, Batch.partition_eq_nil, hall, ← Array.length_toList]
        omega
      rw [if_neg hsome] at hrun
      obtain ⟨_, inserted, _, _, _, htx, -, hsum⟩ := hrun
      change counts.inserted = counts.rows
      rw [hsum, htx.inserts.reported hcount, Batch.rows_inserts, Batch.partition_sum _ hpos]

/-- A write fails for want of a column, or in its transaction. -/
theorem write_failure (hd : g.dataset.Reconciled records) {e : LoadError}
    (h : (write session config table g w).1 = .error e) :
    (e = .columnsNotProvided ∧ g.dataset.rows.toList ≠ [] ∧ g.dataset.columns.names = []) ∨
      e.phase ∈ Loader.transactPhases := by
  by_cases hrows : g.dataset.rows.toList = []
  · rw [write_of_no_row hrows] at h
    cases h
  by_cases hc : g.dataset.columns.names = []
  · rw [write_of_no_column hrows hc] at h
    exact Or.inl ⟨(Except.error.inj h).symm, hrows, hc⟩
  obtain ⟨values, l, hsize, -, hl, hwrite⟩ := write_of_rows config table hd hrows hc
  have hm : values.size % g.dataset.columns.names.length = 0 := by rw [hsize, Nat.mul_mod_left]
  rw [hwrite] at h
  cases hcommit : l.commit session table g.dataset.columns.names w with
  | mk result rest =>
    rw [hcommit] at h
    cases result with
    | ok counts => cases h
    | error e' =>
      cases h
      exact Or.inr (Loader.commit_phase hl hc hm hcommit)

end Write

/-- Failures of a loader that is given rows twice or rows of another width, and of a column set
that is given a column twice. -/
def Misuse (e : LoadError) : Prop :=
  e = .loaderSpent ∨ (∃ values columns, e = .misalignedBuffer values columns) ∨ ∃ m, e = .other m

theorem Misuse.phase {e : LoadError} (h : Misuse e) : e.phase = "batch" ∨ e.phase = "other" := by
  rcases h with rfl | ⟨_, _, rfl⟩ | ⟨_, rfl⟩
  · exact Or.inl rfl
  · exact Or.inl rfl
  · exact Or.inr rfl

/-- No input misuses a loader. -/
theorem not_misuse_of_gives {e : LoadError} (h : Input.source.Gives (.error e)) : ¬ Misuse e := by
  rcases Source.error_of_gives h with rfl | ⟨_, _, rfl⟩ <;> simp [Misuse]

theorem not_misuse_of_unresolved {destination : Destination} {table : String} {e : LoadError}
    (h : destination.resolve table = .error e) : ¬ Misuse e := by
  intro hmisuse
  rcases hmisuse.phase with hphase | hphase <;> simp [Destination.resolve_phase h] at hphase

theorem phase_of_isDataError {e : LoadError} (h : e.isDataError = true) :
    e.phase = "coercion" ∨ e.phase = "decode" := by
  cases e <;> simp_all [LoadError.isDataError, LoadError.phase]

/-- What the counts, the answers of the source and the failure of a load have to do with one
another, once the catalog is there. -/
structure Accounted (session : Session ω) (source : Source σ) (catalog : ColumnSet)
    (config : LoadConfig) (s : σ) (answers : List Source.Answer)
    (result : Except LoadError LoadReport) : Prop where
  /-- Every outcome of the source is counted, and is skipped or submitted. -/
  counts : ∀ report, result = .ok report →
    report.records = (source.outcomes s).length ∧
      report.records = report.skipped + report.counts.rows ∧
      (config.onError = .abort → report.skipped = 0) ∧
      (session.ReportsRows → 0 < config.maxBatchSize →
        report.counts.inserted = report.counts.rows)
  /-- The source is asked again after a record that fits, and after nothing else. -/
  aborts : config.onError = .abort →
    (∀ answer ∈ answers.dropLast, answer ≠ .ok none ∧
      reply catalog config.mapping answer = .ok ()) ∧
    ∀ answer ∈ answers, ∀ e, reply catalog config.mapping answer = .error e → result = .error e
  /-- No column is provided where reading came to the end and no decoded record has a key that
  loads, unless the source itself fails so. -/
  columnsNotProvided : result = .error .columnsNotProvided ↔
    .error .columnsNotProvided ∈ answers ∨
      (.ok none ∈ answers ∧ source.decoded s ≠ [] ∧
        ∀ record ∈ source.decoded s, ∀ key ∈ record.keys, ¬ Loads catalog config.mapping key)

/-- Only an answer that is itself a failure can be one that no record is to blame for. -/
theorem error_mem_of_reply {catalog : ColumnSet} {mapping : FieldMap}
    {answers : List Source.Answer} {answer : Source.Answer} (hanswer : answer ∈ answers)
    {e : LoadError} (he : reply catalog mapping answer = .error e) (hd : e.isDataError = false) :
    .error e ∈ answers := by
  match answer, he with
  | .error e', he =>
    cases he
    exact hanswer
  | .ok (some record), he =>
    have hdata := ((Dataset.reconciled_new catalog mapping).add_result rfl).2 e he
    rw [hd] at hdata
    cases hdata

section Run

variable {destination : Destination} {table : String} {config : LoadConfig} {s : σ} {w : ω}
  {t : TableRef} {catalog : ColumnSet}

theorem run_of_unresolved {e : LoadError} (htable : destination.resolve table = .error e) :
    run session source destination table config s w = (.error e, s, w) := by
  simp only [run, htable, bind, Except.bind]

theorem run_of_uncatalogued {e : LoadError} (htable : destination.resolve table = .ok t)
    (hcatalog : session.columnsOf t w = .error e) :
    run session source destination table config s w = (.error e, s, w) := by
  simp only [run, htable, hcatalog, bind, Except.bind]

theorem run_of_catalog (htable : destination.resolve table = .ok t)
    (hcatalog : session.columnsOf t w = .ok catalog) :
    run session source destination table config s w =
      match gather session source config.onError ⟨.new catalog config.mapping, 0, 0⟩ s w with
      | (.error e, s', w') => (.error e, s', w')
      | (.ok g, s', w') => ((write session config t.qualified g w').1, s',
          (write session config t.qualified g w').2) := by
  rcases hgather : gather session source config.onError ⟨.new catalog config.mapping, 0, 0⟩ s w with
    ⟨e | g, s', w'⟩ <;>
  simp only [run, htable, hcatalog, hgather, bind, Except.bind, pure, Except.pure]

variable (session source config s w t catalog) in
/-- How a load ends, given how its reading ended: it fails as the reading did, or writes what was
read. -/
inductive Concludes : Except LoadError Unit → Except LoadError LoadReport → Prop
  | stopped {e : LoadError} : Concludes (.error e) (.error e)
  | written {g : Gathered} {s' : σ} {w' : ω} :
      gather session source config.onError ⟨.new catalog config.mapping, 0, 0⟩ s w =
        (.ok g, s', w') →
      Concludes (.ok ()) (write session config t.qualified g w').1

variable (source config s) in
/-- Keeping the answers changes no load. -/
theorem run_asked (htable : destination.resolve table = .ok t)
    (hcatalog : session.columnsOf t w = .ok catalog) :
    ∃ answers reading, run session source.recorded destination table config (s, []) w =
        ((run session source destination table config s w).1,
          ((run session source destination table config s w).2.1, answers),
          (run session source destination table config s w).2.2) ∧
      (∀ answer ∈ answers, source.Gives answer) ∧
      Asked catalog config.mapping config.onError answers reading ∧
      Concludes session source config s w t catalog reading
        (run session source destination table config s w).1 := by
  rw [run_of_catalog htable hcatalog, run_of_catalog htable hcatalog]
  cases hgather : gather session source config.onError ⟨.new catalog config.mapping, 0, 0⟩ s w with
  | mk result rest =>
    obtain ⟨answers, hrecorded, hgives, hasked⟩ :=
      gather_recorded (Dataset.reconciled_new catalog config.mapping) hgather []
    refine ⟨answers, _, ?_, hgives, hasked, ?_⟩
    · rw [hrecorded, List.nil_append]
      cases result <;> rfl
    · cases result with
      | error e => exact .stopped
      | ok g => exact .written hgather

/-- A reading that came to the end has the dataset of what was decoded. -/
theorem gather_reconciled {g : Gathered} {s' : σ} {w' : ω}
    (h : gather session source config.onError ⟨.new catalog config.mapping, 0, 0⟩ s w =
      (.ok g, s', w')) :
    g.dataset.Reconciled (source.decoded s) ∧ g.dataset.catalog = catalog ∧
      g.dataset.mapping = config.mapping := by
  rw [gather_ok h]
  exact Dataset.Reconciled.addAll catalog config.mapping (source.decoded s)

/-- What was decoded leaves rows without columns when none of its keys loads. -/
theorem no_column_iff {g : Gathered} {records : List Record}
    (hd : g.dataset.Reconciled records) :
    (g.dataset.rows.toList ≠ [] ∧ g.dataset.columns.names = []) ↔
      records ≠ [] ∧ ∀ record ∈ records, ∀ key ∈ record.keys,
        ¬ Loads g.dataset.catalog g.dataset.mapping key := by
  rw [hd.discovered.columns_eq, columns_eq_nil]
  refine and_congr_left fun hnone => not_congr ?_
  have haccepts : records.filter (accepts g.dataset.catalog g.dataset.mapping) = records :=
    List.filter_eq_self.mpr fun record hrecord => accepts_of_not_loads (hnone record hrecord)
  have hlength := hd.rows.length_eq
  rw [haccepts] at hlength
  rw [← List.length_eq_zero_iff, ← hlength, List.length_eq_zero_iff]

/-- How a load is accounted for whose reading was stopped. -/
theorem accounted_of_error {answers : List Source.Answer} {e : LoadError}
    (hasked : Asked catalog config.mapping config.onError answers (.error e)) :
    Accounted session source catalog config s answers (.error e) where
  counts _ h := by cases h
  aborts habort := by
    rw [habort] at hasked
    obtain ⟨honwards, hstops⟩ := hasked.aborts
    refine ⟨honwards, fun answer hanswer e' he => ?_⟩
    cases hstops answer hanswer e' he
    rfl
  columnsNotProvided := by
    constructor
    · intro h
      cases h
      rcases hasked.failure rfl with h | ⟨⟨answer, hanswer, hreply⟩, -⟩
      · cases h
      · exact Or.inl (error_mem_of_reply hanswer hreply rfl)
    · rintro (h | ⟨hend, -⟩)
      · cases hasked.stops h rfl (by simp [Passed, LoadError.isDataError])
        rfl
      · cases hasked.ended_iff.mpr hend

/-- How a load is accounted for whose reading came to the end. -/
theorem accounted_of_write {answers : List Source.Answer}
    (hasked : Asked catalog config.mapping config.onError answers (.ok ())) {g : Gathered}
    {s' : σ} {w' : ω} (hgather : gather session source config.onError
      ⟨.new catalog config.mapping, 0, 0⟩ s w = (.ok g, s', w')) :
    Accounted session source catalog config s answers (write session config table g w').1 := by
  obtain ⟨hrec, hc, hm⟩ := gather_reconciled hgather
  have hcolumn := no_column_iff hrec
  rw [hc, hm] at hcolumn
  constructor
  case counts =>
    intro report hreport
    obtain ⟨hrecords, hskipped, hrows, hinserted⟩ := write_counts hrec hreport
    obtain ⟨houtcomes, hsplit, habort⟩ :=
      gather_counts (Dataset.reconciled_new catalog config.mapping) hgather
    have hsize : (Dataset.new catalog config.mapping).rows.size = 0 := rfl
    simp only [hsize] at houtcomes hsplit habort
    exact ⟨by omega, by omega, fun h => hskipped.trans (habort h), hinserted⟩
  case aborts =>
    intro habort
    rw [habort] at hasked
    refine ⟨hasked.aborts.1, fun answer hanswer e he => ?_⟩
    cases hasked.aborts.2 answer hanswer e he
  case columnsNotProvided =>
    constructor
    · intro h
      rcases write_failure hrec h with ⟨-, hno⟩ | hphase
      · exact Or.inr ⟨hasked.ended_iff.mp rfl, hcolumn.mp hno⟩
      · simp [LoadError.phase, Loader.transactPhases] at hphase
    · rintro (h | ⟨-, hno⟩)
      · cases hasked.stops h rfl (by simp [Passed, LoadError.isDataError])
      · obtain ⟨hrows, hnames⟩ := hcolumn.mpr hno
        rw [write_of_no_column hrows hnames]

/-- A load fails as if its loader were misused only where its source failed so. -/
theorem misuse_of_concludes {answers : List Source.Answer} {reading : Except LoadError Unit}
    (hasked : Asked catalog config.mapping config.onError answers reading) {e : LoadError}
    (h : Concludes session source config s w t catalog reading (.error e)) (hmisuse : Misuse e) :
    .error e ∈ answers := by
  have hdata : e.isDataError = false := by
    rcases hmisuse with rfl | ⟨_, _, rfl⟩ | ⟨_, rfl⟩ <;> rfl
  generalize hresult : (.error e : Except LoadError LoadReport) = result at h
  cases h with
  | stopped =>
    cases hresult
    rcases hasked.failure rfl with rfl | ⟨⟨answer, hanswer, hreply⟩, -⟩
    · simp [Misuse] at hmisuse
    · exact error_mem_of_reply hanswer hreply hdata
  | written hgather =>
    rcases write_failure (gather_reconciled hgather).1 hresult.symm with ⟨rfl, -⟩ | hphase
    · simp [Misuse] at hmisuse
    · rcases hmisuse.phase with h | h <;> simp [h, Loader.transactPhases] at hphase

/-- A load that skips goes past every data error. -/
theorem isDataError_of_concludes {answers : List Source.Answer} {reading : Except LoadError Unit}
    (hasked : Asked catalog config.mapping config.onError answers reading)
    (hskip : config.onError = .skip) {e : LoadError}
    (h : Concludes session source config s w t catalog reading (.error e)) :
    e.isDataError = false := by
  generalize hresult : (.error e : Except LoadError LoadReport) = result at h
  rw [Bool.eq_false_iff]
  intro hd
  cases h with
  | stopped =>
    cases hresult
    rcases hasked.failure rfl with rfl | ⟨-, hstop⟩
    · cases hd
    · exact hstop ⟨hd, hskip⟩
  | written hgather =>
    rcases write_failure (gather_reconciled hgather).1 hresult.symm with ⟨rfl, -⟩ | hphase
    · cases hd
    · rcases phase_of_isDataError hd with h | h <;> simp [h, Loader.transactPhases] at hphase

/-- No input makes a load misuse its loader. -/
theorem not_misuse_of_run {input : Input} {e : LoadError}
    (h : (run session Input.source destination table config input w).1 = .error e) :
    (∃ t, destination.resolve table = .ok t ∧ session.columnsOf t w = .error e) ∨ ¬ Misuse e := by
  cases htable : destination.resolve table with
  | error e' =>
    rw [run_of_unresolved htable] at h
    cases h
    exact Or.inr (not_misuse_of_unresolved htable)
  | ok t =>
    cases hcatalog : session.columnsOf t w with
    | error e' =>
      rw [run_of_uncatalogued htable hcatalog] at h
      cases h
      exact Or.inl ⟨t, rfl, hcatalog⟩
    | ok catalog =>
      refine Or.inr fun hmisuse => ?_
      obtain ⟨answers, reading, -, hgives, hasked, hend⟩ :=
        run_asked Input.source config input htable hcatalog
      have hmem := misuse_of_concludes hasked (h ▸ hend) hmisuse
      exact not_misuse_of_gives (hgives _ hmem) hmisuse

end Run

/-- What a load counts and how it can fail, told by the answers of its source, which keeping them
changes nothing about. No loader is misused in it unless its source fails so, which no input does,
and with skipping it ends with no data error. Once the catalog is there, every outcome of the source
is counted and is skipped or submitted; without skipping, the first failure is the last answer and
the end; and the error that no column is provided has exactly one cause. -/
theorem run_accounted (session : Session ω) (source : Source σ) (destination : Destination)
    (table : String) (config : LoadConfig) (s : σ) (w : ω) :
    (∃ answers, run session source.recorded destination table config (s, []) w =
        ((run session source destination table config s w).1,
          ((run session source destination table config s w).2.1, answers),
          (run session source destination table config s w).2.2) ∧
      (∀ answer ∈ answers, source.Gives answer) ∧
      (∀ e, (run session source destination table config s w).1 = .error e →
        (∃ t, destination.resolve table = .ok t ∧ session.columnsOf t w = .error e) ∨
          (Misuse e → .error e ∈ answers) ∧
            (config.onError = .skip → e.isDataError = false)) ∧
      ∀ t catalog, destination.resolve table = .ok t → session.columnsOf t w = .ok catalog →
        Accounted session source catalog config s answers
          (run session source destination table config s w).1) ∧
    ∀ (input : Input) e, (run session Input.source destination table config input w).1 = .error e →
      (∃ t, destination.resolve table = .ok t ∧ session.columnsOf t w = .error e) ∨
        ¬ Misuse e := by
  refine ⟨?_, fun input e => not_misuse_of_run⟩
  cases htable : destination.resolve table with
  | error e =>
    refine ⟨[], by rw [run_of_unresolved htable, run_of_unresolved htable], by simp,
      fun e' he => Or.inr ?_, by simp⟩
    rw [run_of_unresolved htable] at he
    cases he
    refine ⟨fun hmisuse => absurd hmisuse (not_misuse_of_unresolved htable), fun _ => ?_⟩
    rw [Bool.eq_false_iff]
    intro hd
    rcases phase_of_isDataError hd with h | h <;> simp [Destination.resolve_phase htable] at h
  | ok t =>
    cases hcatalog : session.columnsOf t w with
    | error e =>
      refine ⟨[], by rw [run_of_uncatalogued htable hcatalog, run_of_uncatalogued htable hcatalog],
        by simp, fun e' he => Or.inl ⟨t, rfl, ?_⟩, fun t' catalog ht hcat => ?_⟩
      · rw [run_of_uncatalogued htable hcatalog] at he
        cases he
        exact hcatalog
      · cases ht
        cases hcatalog.symm.trans hcat
    | ok catalog =>
      obtain ⟨answers, reading, hrecorded, hgives, hasked, hend⟩ :=
        run_asked source config s htable hcatalog
      refine ⟨answers, hrecorded, hgives, fun e he => Or.inr ⟨?_, fun hskip => ?_⟩,
        fun t' catalog' ht hcat => ?_⟩
      · exact misuse_of_concludes hasked (he ▸ hend)
      · exact isDataError_of_concludes hasked hskip (he ▸ hend)
      · cases ht
        cases hcatalog.symm.trans hcat
        generalize (run session source destination table config s w).1 = result at hend
        cases hend with
        | stopped => exact accounted_of_error hasked
        | written hgather => exact accounted_of_write hasked hgather

/-- Of the two orders one is skipped, and the other is submitted and inserted. -/
theorem run_orders_accounted : ∃ report,
    (run Connection.session Input.source .inMemory "orders" ordersConfig orders .orders).1 =
        .ok report ∧
      report.records = 2 ∧ report.records = report.skipped + report.counts.rows ∧
      report.counts.inserted = report.counts.rows := by
  obtain ⟨⟨_, -, -, -, haccounted⟩, -⟩ := run_accounted Connection.session Input.source .inMemory
    "orders" ordersConfig orders .orders
  have hresolve : Destination.inMemory.resolve "orders" = .ok ⟨none, "main", "orders"⟩ := by
    decide +kernel
  cases hcatalog : Connection.session.columnsOf ⟨none, "main", "orders"⟩ .orders with
  | error e =>
    have hsome : (Connection.session.columnsOf ⟨none, "main", "orders"⟩ .orders).isOk = true := by
      decide +kernel
    rw [hcatalog] at hsome
    cases hsome
  | ok catalog =>
    have hok : (run Connection.session Input.source .inMemory "orders" ordersConfig orders
        .orders).1.isOk = true := by decide +kernel
    cases hrun : (run Connection.session Input.source .inMemory "orders" ordersConfig orders
        .orders).1 with
    | error e =>
      rw [hrun] at hok
      cases hok
    | ok report =>
      obtain ⟨hrecords, hsplit, -, hinserted⟩ :=
        (haccounted _ catalog hresolve hcatalog).counts report hrun
      rw [orders, Source.outcomes_records] at hrecords
      exact ⟨report, rfl, hrecords, hsplit, hinserted Connection.reportsRows (by decide)⟩

end Load

end TableLoad
