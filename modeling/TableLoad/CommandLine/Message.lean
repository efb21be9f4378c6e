import TableLoad.CommandLine.Options
import TableLoad.Destination
import TableLoad.Load
import TableLoad.LoadStats

namespace TableLoad.CommandLine

/-- What commands print, each message one JSON object. -/
inductive Message
  | log (text : String)
  | loadReport (report : LoadReport) (started : Timestamp) (duration : Duration)
  | schema (table : String) (columns : ColumnSet)
  | tables (engine : Engine) (names : List String)
  | connectionStatus (succeeded : Bool) (text : String)

namespace Message

/-- The members of a report: what the commit did, and what reading did. -/
def reportMembers (r : LoadReport) (started : Timestamp) (duration : Duration) :
    List (String × Json) :=
  (LoadStats.mk started duration r.counts).toMembers ++
    [("records", .number (.int r.records)), ("skipped", .number (.int r.skipped)),
      ("columns", .array (r.columns.map .string)),
      ("ignored_keys", .object (r.ignored.map fun _ reason => .string reason.name).entries)]

def members : Message → List (String × Json)
  | log text =>
    [("type", .string "LOG"),
      ("log", .object [("level", .string "INFO"), ("message", .string text)])]
  | loadReport r started duration =>
    [("type", .string "LOAD_REPORT"), ("report", .object (reportMembers r started duration))]
  | schema table columns =>
    [("type", .string "SCHEMA"), ("table", .string table), ("columns", columns.toJson)]
  | tables engine names =>
    [("type", .string "TABLES"), ("tables", .array (names.map .string)),
      ("engine", .string engine.name)]
  | connectionStatus succeeded text =>
    [("type", .string "CONNECTION_STATUS"),
      ("connectionStatus", .object [
        ("status", .string (if succeeded then "SUCCEEDED" else "FAILED")),
        ("message", .string text)])]

/-- The message with the members of every object in ascending order. -/
def toJson (m : Message) : Json :=
  (Json.object m.members).settled

end Message

/-- A message as it is printed, without the line break behind it. -/
def OutputFormat.text (f : OutputFormat) (message : Json) : String :=
  match f with
  | json => message.compact
  | pretty => message.indented 0

end TableLoad.CommandLine
