import TableLoad.Proofs.Load
import TableLoad.Proofs.Rowwise

namespace TableLoad

open TwoPass

/-- What adding a record to a dataset comes to. -/
theorem Dataset.Reconciled.add_eq {d d' : Dataset} {records : List Record} {record : Record}
    {result : Except LoadError Unit} (h : d.Reconciled records)
    (hadd : d.add record = (result, d')) :
    result = verdict d.catalog d.mapping record.entries ∧ d'.Reconciled (records ++ [record]) ∧
      d'.catalog = d.catalog ∧ d'.mapping = d.mapping ∧
      d'.rows.size = d.rows.size + if result.isOk then 1 else 0 := by
  obtain ⟨d₁, new, hadd₁, hrec, hc, hm, hrows, hlength⟩ := h.add record
  rw [hadd₁] at hadd
  cases hadd
  refine ⟨rfl, hrec, hc, hm, ?_⟩
  have haccepts : accepts d.catalog d.mapping record =
      (verdict d.catalog d.mapping record.entries).isOk := (verdict_isOk _).symm
  rw [← Array.length_toList, hrows, List.length_append, List.length_map, hlength, haccepts,
    Array.length_toList]

/-- Adding a record fails, if it does, for that record alone. -/
theorem Dataset.Reconciled.add_result {d d' : Dataset} {records : List Record} {record : Record}
    {result : Except LoadError Unit} (h : d.Reconciled records)
    (hadd : d.add record = (result, d')) :
    d'.Reconciled (records ++ [record]) ∧ ∀ e, result = .error e → e.isDataError = true := by
  obtain ⟨rfl, hrec, -⟩ := h.add_eq hadd
  refine ⟨hrec, fun e he => ?_⟩
  obtain ⟨column, message, rfl⟩ := verdict_error he
  rfl

namespace Load

open Session

/-- The failure that ends the reading: one that is no record's own. -/
def fatal? (outcomes : List (Except LoadError Record)) : Option LoadError :=
  outcomes.findSome? fun
    | .ok _ => none
    | .error e => if e.isDataError then none else some e

theorem fatal?_record (record : Record) (outcomes : List (Except LoadError Record)) :
    fatal? (.ok record :: outcomes) = fatal? outcomes := rfl

theorem fatal?_dataError {e : LoadError} (h : e.isDataError = true)
    (outcomes : List (Except LoadError Record)) :
    fatal? (.error e :: outcomes) = fatal? outcomes := by
  simp [fatal?, h]

theorem fatal?_error {e : LoadError} (h : e.isDataError = false)
    (outcomes : List (Except LoadError Record)) : fatal? (.error e :: outcomes) = some e := by
  simp [fatal?, h]

section Gather

variable {ω σ : Type} {session : Session ω} {source : Source σ}

/-- A reading that passes over what fails alone stops at the failure that does not, or not at
all. -/
theorem gather_fatal? (hnever : ∀ w, session.cancelled w = false) {policy : ErrorPolicy}
    (hskip : policy = .skip) {g : Gathered} {records : List Record}
    (hg : g.dataset.Reconciled records) {s s' : σ} {w w' : ω} {result : Except LoadError Gathered}
    (h : gather session source policy g s w = (result, s', w')) :
    (∀ g', result = .ok g' → fatal? (source.outcomes s) = none) ∧
      ∀ e, result = .error e → fatal? (source.outcomes s) = some e := by
  fun_induction gather session source policy g s w generalizing records
  case case1 w hc =>
    rw [hnever w] at hc
    cases hc
  case case2 hnext =>
    cases h
    rw [Source.outcomes_of_end hnext]
    exact ⟨fun _ _ => rfl, fun _ he => (by cases he)⟩
  -- a record is taken in, or passed over
  case case3 hnext _ _ hadd ih | case4 hnext _ _ _ _ hadd ih =>
    rw [Source.outcomes_of_record hnext, fatal?_record]
    exact ih (hg.add_result hadd).1 h
  case case5 hno hadd =>
    have hdata := (hg.add_result hadd).2 _ rfl
    exact absurd (by simp [hdata, hskip]) hno
  case case6 hnext hd ih =>
    rw [Source.outcomes_of_dataError hnext hd.1, fatal?_dataError hd.1]
    exact ih hg h
  case case7 e _ hnext hno =>
    have hfatal : e.isDataError = false := by
      rw [Bool.eq_false_iff]
      exact fun hd => hno ⟨hd, hskip⟩
    cases h
    rw [Source.outcomes_of_error hnext hfatal, fatal?_error hfatal]
    exact ⟨fun _ he => (by cases he), fun _ he => congrArg some (Except.error.inj he)⟩

end Gather

section Write

variable {ω R S : Type} {session : Session ω} {view : View ω R}

/-- How a load of some rows ends. -/
def loading (hr : session.Rowwise view S) (rule : Option (String × Keyed Value)) (table : String)
    (names : List String) (rows : List (List (String × Value))) (t : S) : Except LoadError S :=
  if rows = [] then .ok t
  else if names = [] then .error .columnsNotProvided
  else (hr.oneByOne rule table rows t).map (·.2)

/-- A run came to this end. One that failed changed nothing. -/
def Ends (hr : session.Rowwise view S) {α : Type} (w : ω) (ending : Except LoadError S)
    (result : Except LoadError α) (w' : ω) : Prop :=
  match ending with
  | .ok t => result.isOk = true ∧ view.rows w' = hr.rows t
  | .error kind => view.rows w' = view.rows w ∧ ∃ e, result = .error e ∧ e.kind = kind

/-- The rows of a dataset, each with the columns that it has values for. -/
def assigned (d : Dataset) : List (List (String × Value)) :=
  d.rows.toList.map (d.columns.names.zip ·)

theorem assignments_values {d : Dataset} {values : Array Value} (hv : values.toList = d.values)
    (hc : d.columns.names ≠ [])
    (hw : ∀ row ∈ d.rows.toList, row.length = d.columns.names.length) :
    values.size = d.rows.toList.length * d.columns.names.length ∧
      Loader.assignments d.columns.names values = assigned d := by
  have hwidth : 0 < d.columns.names.length := List.length_pos_iff.mpr hc
  have hsize : values.size = d.rows.toList.length * d.columns.names.length := by
    rw [← Array.length_toList, hv]
    exact Insert.length_flatten hw
  have hrows : values.size / d.columns.names.length = d.rows.toList.length := by
    rw [hsize, Nat.mul_div_cancel _ hwidth]
  refine ⟨hsize, ?_⟩
  rw [Loader.assignments, assigned, hrows, hv, Dataset.values, Insert.split_flatten hw]

theorem isEmpty_iff {d : Dataset} : d.isEmpty = true ↔ d.rows.toList = [] := by
  simp [Dataset.isEmpty]

theorem write_ends (ht : session.Transactional view) (hr : session.Rowwise view S)
    (hnever : ∀ w, session.cancelled w = false) {config : LoadConfig}
    (hmax : 0 < config.maxBatchSize) {g : Gathered} {records : List Record}
    (hg : g.dataset.Reconciled records) (table : String) (w : ω) :
    Ends hr w (loading hr ((config.deleteFrom table).map Delete.rule) table
        g.dataset.columns.names (assigned g.dataset) (hr.state w))
      (write session config table g w).1 (write session config table g w).2 := by
  obtain ⟨values, hloader, hvalues⟩ := loaderFor_ok config table g.dataset
  let loader : Loader :=
    ⟨config.dialect, config.maxBatchSize, .accumulating values (config.deleteFrom table), 0⟩
  have hl : loader.stage = .accumulating values (config.deleteFrom table) := rfl
  by_cases hrows : g.dataset.rows.toList = []
  · have hempty : g.dataset.isEmpty = true := isEmpty_iff.mpr hrows
    have hnone : assigned g.dataset = [] := by rw [assigned, hrows, List.map_nil]
    rw [loading, if_pos hnone, write, if_pos hempty]
    exact ⟨rfl, hr.rows_state w⟩
  have hsome : ¬ g.dataset.isEmpty = true := fun hempty => hrows (isEmpty_iff.mp hempty)
  have hassigned : assigned g.dataset ≠ [] := by simpa [assigned] using hrows
  rw [loading, if_neg hassigned, write, if_neg hsome, hloader]
  by_cases hc : g.dataset.columns.names = []
  · have hcommit := Loader.commit_of_no_column session hl table w
    rw [if_pos hc, hc]
    simp only [hcommit, loader]
    exact ⟨rfl, _, rfl, rfl⟩
  · obtain ⟨hsize, hassign⟩ := assignments_values hvalues hc hg.length_eq_names
    have hwidth : 0 < g.dataset.columns.names.length := List.length_pos_iff.mpr hc
    -- one row of one column is enough for a batch, so the commit runs its statements
    have hvalues : values ≠ #[] := by
      have hpos := Nat.mul_pos (List.length_pos_iff.mpr hrows) hwidth
      intro hnil
      rw [hnil, Array.size_empty] at hsize
      omega
    have hm : values.size % g.dataset.columns.names.length = 0 := by
      rw [hsize, Nat.mul_mod_left]
    have hcommit := Loader.commit_oneByOne ht hr hnever (l := loader) hmax hl hvalues hc hm table w
    rw [hassign] at hcommit
    rw [if_neg hc]
    cases hone : hr.oneByOne ((config.deleteFrom table).map Delete.rule) table
        (assigned g.dataset) (hr.state w) with
    | ok pair =>
      rw [hone] at hcommit
      obtain ⟨l', w', hrun, hend⟩ := hcommit
      simp only [hrun, loader]
      exact ⟨rfl, hend⟩
    | error kind =>
      rw [hone] at hcommit
      obtain ⟨e, l', w', hrun, hkind, hend⟩ := hcommit
      simp only [hrun, loader]
      exact ⟨hend, e, rfl, hkind⟩

end Write

section Run

variable {ω σ R S : Type} {session : Session ω} {view : View ω R}

/-- How a load ends, given what its source gives. -/
def ending (hr : session.Rowwise view S) (config : LoadConfig) (table : String)
    (catalog : ColumnSet) (outcomes : List (Except LoadError Record)) (t : S) :
    Except LoadError S :=
  match fatal? outcomes with
  | some e => .error e.kind
  | none =>
    let d := (Dataset.new catalog config.mapping).addAll (outcomes.filterMap Except.toOption)
    loading hr ((config.deleteFrom table).map Delete.rule) table d.columns.names (assigned d) t

theorem run_ends (ht : session.Transactional view) (hr : session.Rowwise view S)
    (hread : ∀ w, hr.state (session.afterRead w) = hr.state w)
    (hnever : ∀ w, session.cancelled w = false) {config : LoadConfig}
    (hskip : config.onError = .skip) (hmax : 0 < config.maxBatchSize) {destination : Destination}
    {table : String} {t : TableRef} (htable : destination.resolve table = .ok t) {w : ω}
    {catalog : ColumnSet} (hcatalog : session.columnsOf t w = .ok catalog) (source : Source σ)
    (s : σ) :
    Ends hr w (ending hr config t.qualified catalog (source.outcomes s) (hr.state w))
      (run session source destination table config s w).1
      (run session source destination table config s w).2.2 := by
  have hnew := Dataset.reconciled_new catalog config.mapping
  simp only [run, htable, hcatalog, bind, Except.bind, pure, Except.pure]
  cases hgather : gather session source config.onError ⟨.new catalog config.mapping, 0, 0⟩ s w with
  | mk result rest =>
    obtain ⟨s', w'⟩ := rest
    obtain ⟨hok, herror⟩ := gather_fatal? hnever hskip hnew hgather
    have hrows := gather_rows ht hgather
    cases result with
    | error e =>
      rw [ending, herror e rfl]
      exact ⟨hrows, e, rfl, rfl⟩
    | ok g =>
      have hstate : hr.state w' = hr.state w := gather_keeps hr.state hread hgather
      have hdataset := gather_ok hgather
      have hrec := (Dataset.Reconciled.addAll catalog config.mapping (source.decoded s)).1
      rw [← hdataset] at hrec
      have hends := write_ends ht hr hnever hmax hrec t.qualified w'
      rw [ending, hok g rfl]
      simp only
      rw [← Source.decoded, ← hdataset, ← hstate]
      simpa only [Ends, hrows] using hends

end Run

end Load

end TableLoad
