import Std.Time.DateTime.Timestamp
import TableLoad.CommandLine.Run
import TableLoad.Database.Archive

namespace TableLoad.CommandLine

/-- The system's code of the error that what was opened is a directory. -/
def directoryCode : UInt32 := 21

/-- The octets of a file. -/
def readFile (path : String) : IO FileContent := do
  try
    return .octets (← IO.FS.readBinFile path).toList
  catch
    | .noFileOrDirectory .. => return .missing
    | e@(.inappropriateType _ code _) =>
      return if code == directoryCode then .directory else .unreadable (toString e)
    | e => return .unreadable (toString e)

/-- The database that a file keeps. -/
def readDatabase (path : String) : IO (Except String Database) := do
  match (← readFile path).text with
  | .ok text =>
    match Database.ofArchive? text with
    | some d => return .ok d
    | none => return .error "it is no database"
  | .error .missing =>
    try
      IO.FS.writeFile path Database.empty.archive
      return .ok .empty
    catch e => return .error (toString e)
  | .error (.unreadable reason) => return .error reason

def readInput : IO (List UInt8) := do
  return (← (← IO.getStdin).readBinToEnd).toList

def currentTime : IO Timestamp := do
  let t := (← Std.Time.Timestamp.now).val
  let nanos := t.nano.val.toNat
  if h : nanos < 2 * 1000000000 then return ⟨t.second.val, nanos, h⟩
  else return ⟨t.second.val, 0, by decide⟩

/-- The system that the program runs on. -/
def systemHost (format : OutputFormat) : Host IO where
  environment name := IO.getEnv name
  file := readFile
  standardInput := readInput
  openDatabase := readDatabase
  saveDatabase path d := IO.FS.writeFile path d.archive
  now := currentTime
  print message := IO.println (format.text message.toJson)

end TableLoad.CommandLine

open TableLoad CommandLine in
/-- A command line that is not well formed exits with 2, a command that fails with 1. Messages go to
the standard output, the error that ended a command to the standard error. -/
def main (words : List String) : IO UInt32 := do
  match Options.parse? words with
  | none =>
    IO.eprintln Options.usage
    return 2
  | some o =>
    match ← run (systemHost o.format) o with
    | .ok () => return 0
    | .error e =>
      IO.eprintln ("Error [" ++ e.phase ++ "]: " ++ e.message)
      return 1
