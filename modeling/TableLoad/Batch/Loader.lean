import TableLoad.Batch.Partition
import TableLoad.LoadError
import TableLoad.Session

namespace TableLoad

/-- What a commit did. -/
structure LoadCounts where
  table : String
  removed : Nat
  rows : Nat
  inserted : Nat
  columns : Nat
deriving DecidableEq, Repr

/-- A loader takes rows until it commits; then it is of no more use. -/
inductive Loader.Stage
  | accumulating (values : Array Value) (delete : Option Delete)
  | spent
deriving DecidableEq, Repr

/-- A loader gathers rows and writes them once: a delete, if one is registered, and all inserts, in
one transaction. -/
structure Loader where
  dialect : Dialect
  /-- The most rows of one insert; with none nothing is ever inserted. -/
  maxBatchSize : Nat
  stage : Loader.Stage
  /-- The inserts that succeeded, in a transaction that may have been rolled back. -/
  batchesInserted : Nat
deriving DecidableEq, Repr

namespace Loader

def defaultBatchSize : Nat := 200

def new (dialect : Dialect) (maxBatchSize : Nat) : Loader :=
  ⟨dialect, maxBatchSize, .accumulating #[] none, 0⟩

def isAccumulating (l : Loader) : Bool :=
  match l.stage with
  | .accumulating .. => true
  | .spent => false

def Stage.name : Stage → String
  | accumulating .. => "accumulating"
  | spent => "spent"

/-- How many values wait to be written. -/
def pending (l : Loader) : Nat :=
  match l.stage with
  | .accumulating values _ => values.size
  | .spent => 0

/-- Appends the values of a row. -/
def addRow (l : Loader) (row : List Value) : Except LoadError Loader :=
  match l.stage with
  | .accumulating values delete => .ok { l with stage := .accumulating (values ++ row) delete }
  | .spent => .error .loaderSpent

/-- Registers what to delete before the inserts, in place of what was registered before. -/
def setDelete (l : Loader) (delete : Delete) : Except LoadError Loader :=
  match l.stage with
  | .accumulating values _ => .ok { l with stage := .accumulating values (some delete) }
  | .spent => .error .loaderSpent

variable {ω : Type} (session : Session ω)

/-- Runs the inserts of a transaction; `done` of them have run and inserted `inserted` rows.
Gives how many ran in the end. -/
def runInserts (total : Nat) :
    (done inserted : Nat) → List Insert → ω → Except LoadError Nat × Nat × ω
  | done, inserted, [], w => (.ok inserted, done, w)
  | done, inserted, s :: rest, w =>
    if session.cancelled w then (.error (.cancelled CancelPoint.insert.name), done, w)
    else match session.execute (.insert s) w with
      | (.error e, w) => (.error (.insertBatch (done + 1) total e), done, w)
      | (.ok n, w) => runInserts total (done + 1) (inserted + n) rest w

/-- Runs the delete of a transaction, if there is one. -/
def runDelete (delete : Option Delete) (w : ω) : Except LoadError Nat × ω :=
  match delete with
  | none => (.ok 0, w)
  | some s =>
    if session.cancelled w then (.error (.cancelled CancelPoint.delete.name), w)
    else match session.execute (.delete s) w with
      | (.error e, w) => (.error (.delete e), w)
      | (.ok n, w) => (.ok n, w)

/-- Runs what a transaction holds: how many rows it removed and inserted, and how many inserts
ran. -/
def runStatements (delete : Option Delete) (inserts : List Insert) (w : ω) :
    Except LoadError (Nat × Nat) × Nat × ω :=
  match runDelete session delete w with
  | (.error e, w) => (.error e, 0, w)
  | (.ok removed, w) =>
    let (result, done, w) := runInserts session inserts.length 0 0 inserts w
    (result.map (removed, ·), done, w)

/-- Runs a delete and inserts in one transaction. Whatever fails inside undoes all of it. -/
def transact (delete : Option Delete) (inserts : List Insert) (w : ω) :
    Except LoadError (Nat × Nat) × Nat × ω :=
  if session.cancelled w then (.error (.cancelled CancelPoint.begin.name), 0, w)
  else match session.begin w with
    | (.error e, w) => (.error (.transaction ("begin failed: " ++ e)), 0, w)
    | (.ok (), w) =>
      match runStatements session delete inserts w with
      | (.error e, done, w) => (.error e, done, session.rollback w)
      | (.ok counts, done, w) =>
        match session.commit w with
        | (.error e, w) => (.error (.transaction ("commit failed: " ++ e)), done, w)
        | (.ok (), w) => (.ok counts, done, w)

/-- Writes all rows in one transaction. Without columns, or with values that do not divide into
rows, the loader stays as it was; otherwise it is spent, whatever happens. Where there is nothing
to insert nothing is run. -/
def commit (l : Loader) (table : String) (columns : List String) (w : ω) :
    Except LoadError LoadCounts × Loader × ω :=
  match l.stage with
  | .spent => (.error .loaderSpent, l, w)
  | .accumulating values delete =>
    if columns.isEmpty then (.error .columnsNotProvided, l, w)
    else if values.size % columns.length ≠ 0 then
      (.error (.misalignedBuffer values.size columns.length), l, w)
    else
      let rows := values.size / columns.length
      let counts (removed inserted : Nat) : LoadCounts :=
        ⟨table, removed, rows, inserted, columns.length⟩
      match Batch.partition rows l.maxBatchSize with
      | [] => (.ok (counts 0 0), { l with stage := .spent }, w)
      | sizes =>
        let inserts := Batch.statements table columns l.dialect values sizes
        let (result, done, w) := transact session delete inserts w
        (result.map fun (removed, inserted) => counts removed inserted,
          { l with stage := .spent, batchesInserted := l.batchesInserted + done }, w)

end Loader

end TableLoad
