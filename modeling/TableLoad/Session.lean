import TableLoad.Column.ColumnSet
import TableLoad.Statement
import TableLoad.TableRef

namespace TableLoad

/-- What a load asks of a database and of the one who may cancel it. A session is a machine over
states of some type, so a database that fails at will and a cancellation at any moment are sessions
too. -/
structure Session (ω : Type) where
  /-- The load has been cancelled. -/
  cancelled : ω → Bool
  /-- Time passes while a record is read. -/
  afterRead : ω → ω
  /-- The columns of a table as the catalog lists them. -/
  columnsOf : TableRef → ω → Except LoadError ColumnSet
  /-- Opens a transaction. -/
  begin : ω → Except String Unit × ω
  /-- How many rows the statement touched. -/
  execute : Statement → ω → Except String Nat × ω
  /-- Ends the transaction with its changes; where that fails, without them. -/
  commit : ω → Except String Unit × ω
  /-- Ends the transaction without its changes. -/
  rollback : ω → ω

end TableLoad
