import TableLoad.Database.Basic
import TableLoad.Session

namespace TableLoad.Database

/-- An event at which a load is cancelled. -/
inductive CancelEvent
  /-- The delete is executed; it still runs. -/
  | delete
  /-- So many inserts have succeeded. -/
  | insert (count : Nat)
  /-- So many records have been asked for; the last of them is still read. -/
  | read (count : Nat)
deriving DecidableEq, Repr

/-- A connection to a database in memory, with one transaction at a time. The cancellation of a load
can be set to come at some event, as a signal from outside would. -/
structure Connection where
  database : Database
  /-- The database as it was when the open transaction began. -/
  saved : Option Database
  cancelled : Bool
  cancelAt : List CancelEvent
  reads : Nat
  inserts : Nat
deriving DecidableEq, Repr

namespace Connection

def ofDatabase (database : Database) : Connection :=
  ⟨database, none, false, [], 0, 0⟩

/-- Cancels the load if an event is one to cancel it at. -/
def happen (c : Connection) (e : CancelEvent) : Connection :=
  { c with cancelled := c.cancelled || c.cancelAt.contains e }

/-- Runs a statement. One that fails changes nothing. -/
def execute (s : Statement) (c : Connection) : Except String Nat × Connection :=
  let c := match s with
    | .delete _ => c.happen .delete
    | .insert _ => c
  match c.database.execute s with
  | .error e => (.error e, c)
  | .ok (n, d) =>
    let c := { c with database := d }
    match s with
    | .delete _ => (.ok n, c)
    | .insert _ =>
      let c := { c with inserts := c.inserts + 1 }
      (.ok n, c.happen (.insert c.inserts))

def session : Session Connection where
  cancelled c := c.cancelled
  afterRead c :=
    let c := { c with reads := c.reads + 1 }
    c.happen (.read c.reads)
  columnsOf t c := c.database.columnsOf t
  begin c := (.ok (), { c with saved := some c.database })
  execute := execute
  commit c := (.ok (), { c with saved := none })
  rollback c := { c with database := c.saved.getD c.database, saved := none }

end Connection

end TableLoad.Database
