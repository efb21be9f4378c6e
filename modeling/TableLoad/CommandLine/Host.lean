import TableLoad.CommandLine.Message
import TableLoad.Database.Basic
import TableLoad.File

namespace TableLoad.CommandLine

/-- What commands ask of the system that they run on. -/
structure Host (m : Type → Type) where
  /-- A variable of the environment. -/
  environment : String → m (Option String)
  file : String → m FileContent
  standardInput : m (List UInt8)
  /-- The database in a file; where there is no file an empty one is made. -/
  openDatabase : String → m (Except String Database)
  saveDatabase : String → Database → m Unit
  now : m Timestamp
  print : Message → m Unit

end TableLoad.CommandLine
