import TableLoad.Batch.Loader
import TableLoad.Document
import TableLoad.Time.Duration
import TableLoad.Time.Timestamp

namespace TableLoad

/-- What a commit did, and when. -/
structure LoadStats where
  started : Timestamp
  duration : Duration
  counts : LoadCounts
deriving DecidableEq, Repr

namespace LoadStats

/-- The members in the order in which they are written. -/
def toMembers (s : LoadStats) : List (String × Json) :=
  let count (n : Nat) : Json := .number (.int n)
  [("started", .string s.started.text), ("dur", .string s.duration.text),
    ("table", .string s.counts.table), ("removed", count s.counts.removed),
    ("rows", count s.counts.rows), ("inserted", count s.counts.inserted),
    ("cols", count s.counts.columns)]

def toJson (s : LoadStats) : Json :=
  .object s.toMembers

def ofDocument? (d : Document) : Option LoadStats := do
  match ← d.fields? [["started"], ["dur"], ["table"], ["removed"], ["rows"], ["inserted"],
    ["cols"]] with
  | [some started, some duration, some table, some removed, some rows, some inserted,
      some columns] =>
    return {
      started := ← Timestamp.parse? (← started.text?)
      duration := ← Duration.parse? (← duration.text?)
      counts := {
        table := ← table.text?
        removed := ← removed.count?
        rows := ← rows.count?
        inserted := ← inserted.count?
        columns := ← columns.count? } }
  | _ => none

/-- The line to be read. -/
def summary (s : LoadStats) : String :=
  let c := s.counts
  s!"{c.table}: {c.inserted} of {c.rows} rows inserted, {c.removed} removed, {c.columns} columns in "
    ++ s.duration.text

end LoadStats

end TableLoad
