import TableLoad.Statement

namespace TableLoad.Batch

/-- The sizes of the batches: full ones, then what remains. Nothing, or batches of nothing, makes
no batch. -/
def partition (rows max : Nat) : List Nat :=
  if rows = 0 || max = 0 then []
  else List.replicate (rows / max) max ++ if rows % max = 0 then [] else [rows % max]

/-- The statements for the batches of a buffer, each with its share of the values. -/
def inserts (table : String) (columns : List String) (dialect : Dialect) :
    (sizes : List Nat) → (values : List Value) → List Insert
  | [], _ => []
  | size :: sizes, values =>
    ⟨table, columns, size, values.take (size * columns.length), dialect⟩ ::
      inserts table columns dialect sizes (values.drop (size * columns.length))

section Statements

variable (table : String) (columns : List String) (dialect : Dialect) (values : Array Value)

/-- The statements for the batches from one on, each with its slice of the buffer. Two templates
serve all batches: one of `full` rows, and where the last batch has another size one of `last`
rows. -/
def statementsFrom (full last total : Nat) : (index offset : Nat) → List Nat → List Insert
  | _, _, [] => []
  | index, offset, size :: sizes =>
    let rows := if last ≠ full ∧ index + 1 = total then last else full
    let stop := offset + size * columns.length
    ⟨table, columns, rows, (values.extract offset stop).toList, dialect⟩ ::
      statementsFrom full last total (index + 1) stop sizes

/-- The statements for the batches of a buffer. The first batch says how many rows the full
template has. -/
def statements (sizes : List Nat) : List Insert :=
  match sizes with
  | [] => []
  | full :: rest =>
    statementsFrom table columns dialect values full (rest.getLast?.getD full) sizes.length 0 0
      sizes

end Statements

end TableLoad.Batch
