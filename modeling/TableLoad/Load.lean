import TableLoad.Batch.Loader
import TableLoad.Dataset.Basic
import TableLoad.Job.Basic
import TableLoad.Record.Source

namespace TableLoad

structure LoadConfig where
  maxBatchSize : Nat
  dialect : Dialect
  onError : ErrorPolicy
  mapping : FieldMap
  delete : Option DeleteRule

namespace LoadConfig

def default : LoadConfig :=
  ⟨Loader.defaultBatchSize, .duckdb, .abort, .empty, none⟩

def ofJob (j : Job) : LoadConfig :=
  ⟨j.maxBatchSize, j.dialect, j.onError, j.mapping, j.delete⟩

end LoadConfig

/-- What a load did. -/
structure LoadReport where
  counts : LoadCounts
  /-- Records that were read, the skipped ones among them. -/
  records : Nat
  skipped : Nat
  /-- The columns that were loaded, in the order of the statements. -/
  columns : List String
  ignored : Keyed IgnoreReason

namespace Load

/-- What reading has gathered. -/
structure Gathered where
  dataset : Dataset
  records : Nat
  skipped : Nat

variable {ω σ : Type} (session : Session ω) (source : Source σ)

/-- Reads to the end of the source. A record that fails alone is counted and passed over, if the
policy says so; every other failure ends the load. -/
def gather (policy : ErrorPolicy) (g : Gathered) (s : σ) (w : ω) :
    Except LoadError Gathered × σ × ω :=
  if session.cancelled w then (.error (.cancelled CancelPoint.read.name), s, w)
  else
    match _h : source.next s with
    | (.ok none, s') => (.ok g, s', session.afterRead w)
    | (.ok (some record), s') =>
      let (result, dataset) := g.dataset.add record
      let g := { g with dataset := dataset, records := g.records + 1 }
      match result with
      | .ok () => gather policy g s' (session.afterRead w)
      | .error e =>
        if e.isDataError && policy = .skip then
          gather policy { g with skipped := g.skipped + 1 } s' (session.afterRead w)
        else (.error e, s', session.afterRead w)
    | (.error e, s') =>
      if _hd : e.isDataError = true ∧ policy = .skip then
        gather policy { g with records := g.records + 1, skipped := g.skipped + 1 } s'
          (session.afterRead w)
      else (.error e, s', session.afterRead w)
termination_by source.size s
decreasing_by
  · exact source.size_lt_of_record _h
  · exact source.size_lt_of_record _h
  · exact source.size_lt_of_dataError _h _hd.1

/-- A loader that holds the rows of a dataset, and the delete that goes before them. -/
def loaderFor (config : LoadConfig) (table : String) (d : Dataset) : Except LoadError Loader := do
  let loader := Loader.new config.dialect config.maxBatchSize
  let loader ← match config.delete with
    | none => .ok loader
    | some rule => loader.setDelete ⟨table, rule.conditions, config.dialect⟩
  d.rows.toList.foldlM (fun l row => l.addRow row) loader

/-- Writes what was gathered. Where no row was kept, nothing is written and nothing deleted. -/
def write (config : LoadConfig) (table : String) (g : Gathered) (w : ω) :
    Except LoadError LoadReport × ω :=
  let columns := g.dataset.columns.names
  let report (counts : LoadCounts) : LoadReport :=
    ⟨counts, g.records, g.skipped, columns, g.dataset.ignored⟩
  if g.dataset.isEmpty then (.ok (report ⟨table, 0, 0, 0, 0⟩), w)
  else match loaderFor config table g.dataset with
    | .error e => (.error e, w)
    | .ok loader =>
      let (result, _, w) := loader.commit session table columns w
      (result.map report, w)

/-- Loads every record of a source into a table. The table's catalog comes first: without it no
record is read. -/
def run (destination : Destination) (table : String) (config : LoadConfig) (s : σ) (w : ω) :
    Except LoadError LoadReport × σ × ω :=
  let prepared := do
    let t ← destination.resolve table
    return (t, ← session.columnsOf t w)
  match prepared with
  | .error e => (.error e, s, w)
  | .ok (t, catalog) =>
    match gather session source config.onError ⟨.new catalog config.mapping, 0, 0⟩ s w with
    | (.error e, s, w) => (.error e, s, w)
    | (.ok g, s, w) =>
      let (result, w) := write session config t.qualified g w
      (result, s, w)

end Load

end TableLoad
