import TableLoad.Proofs.Partition

namespace TableLoad

/-- A placeholder as a database reads it. -/
inductive Placeholder
  /-- The first value that no placeholder before it has taken. -/
  | next
  /-- The value with a number, counted from one. -/
  | numbered (number : Nat)
deriving DecidableEq, Repr

namespace Placeholder

def text : Placeholder → String
  | next => "?"
  | numbered n => "$" ++ toString n

def of (dialect : Dialect) (number : Nat) : Placeholder :=
  if dialect.isOrdinal then numbered number else next

def all (dialect : Dialect) (count : Nat) : List Placeholder :=
  (List.range count).map fun i => of dialect (i + 1)

/-- The values that placeholders stand for, when those before them have taken some. -/
def bind (values : List Value) : (taken : Nat) → List Placeholder → Option (List Value)
  | _, [] => some []
  | taken, next :: ps =>
    values[taken]?.bind fun v => (bind values (taken + 1) ps).map (v :: ·)
  | taken, numbered (n + 1) :: ps =>
    values[n]?.bind fun v => (bind values taken ps).map (v :: ·)
  | _, numbered 0 :: _ => none

theorem text_of (dialect : Dialect) (number : Nat) :
    (of dialect number).text = dialect.placeholder number := by
  unfold of Dialect.placeholder
  split <;> rfl

theorem text_of_eq (dialect : Dialect) (number : Nat) :
    (of dialect number).text = if dialect = .postgres then "$" ++ toString number else "?" := by
  cases dialect <;> rfl

/-- Numbered placeholders do not ask how many values were taken. -/
theorem bind_of_ordinal {dialect : Dialect} (hd : dialect.isOrdinal = true) (values : List Value)
    (taken taken' : Nat) (numbers : List Nat) :
    bind values taken (numbers.map fun i => of dialect (i + 1)) =
      bind values taken' (numbers.map fun i => of dialect (i + 1)) := by
  induction numbers with
  | nil => rfl
  | cons number numbers ih =>
    have hof : of dialect (number + 1) = numbered (number + 1) := if_pos hd
    rw [List.map_cons, hof, bind, bind, ih]

/-- By position and by number alike, placeholders take the values one after the other. -/
theorem bind_range' (dialect : Dialect) {values : List Value} {taken count : Nat}
    (h : taken + count = values.length) :
    bind values taken ((List.range' taken count).map fun i => of dialect (i + 1)) =
      some (values.drop taken) := by
  induction count generalizing taken with
  | zero =>
    have hdrop : values.drop taken = [] := List.drop_of_length_le (by omega)
    rw [hdrop]
    rfl
  | succ count ih =>
    have hlt : taken < values.length := by omega
    have hget : values[taken]? = some values[taken] := List.getElem?_eq_getElem hlt
    have hdrop : values.drop taken = values[taken] :: values.drop (taken + 1) :=
      List.drop_eq_getElem_cons hlt
    have hrest : bind values (taken + 1) ((List.range' (taken + 1) count).map fun i =>
        of dialect (i + 1)) = some (values.drop (taken + 1)) := ih (by omega)
    rw [List.range'_succ, List.map_cons, hdrop]
    by_cases hd : dialect.isOrdinal = true
    · have hof : of dialect (taken + 1) = numbered (taken + 1) := if_pos hd
      rw [hof, bind, hget, bind_of_ordinal hd values taken (taken + 1), hrest]
      rfl
    · have hof : of dialect (taken + 1) = next := if_neg hd
      rw [hof, bind, hget, hrest]
      rfl

theorem bind_all (dialect : Dialect) (values : List Value) :
    bind values 0 (all dialect values.length) = some values := by
  have h := bind_range' dialect (Nat.zero_add values.length)
  rwa [← List.range_eq_range', List.drop_zero] at h

end Placeholder

namespace Insert

open Placeholder

def groups (dialect : Dialect) (width rows : Nat) : List (List Placeholder) :=
  (List.range rows).map fun row =>
    (List.range width).map fun i => of dialect (row * width + i + 1)

theorem flatten_groups (dialect : Dialect) (width rows : Nat) :
    (groups dialect width rows).flatten = all dialect (rows * width) := by
  induction rows with
  | zero => simp [groups, all]
  | succ rows ih =>
    have hlast : groups dialect width (rows + 1) = groups dialect width rows ++
        [(List.range width).map fun i => of dialect (rows * width + i + 1)] := by
      simp only [groups, List.range_succ, List.map_append, List.map_cons, List.map_nil]
    rw [hlast, List.flatten_append, ih, List.flatten_singleton, all, all, Nat.succ_mul,
      List.range_add, List.map_append, List.map_map]
    rfl

/-- An insert into some columns, with its placeholders in groups. -/
def textOf (table : String) (columns : List String) (groups : List (List String)) : String :=
  "INSERT INTO " ++ table ++ " (" ++ ",".intercalate columns ++ ") VALUES " ++
    ",".intercalate (groups.map fun g => "(" ++ ",".intercalate g ++ ")") ++ ";"

theorem template_eq (table : String) (columns : List String) (rows : Nat) (dialect : Dialect) :
    template table columns rows dialect =
      textOf table columns ((groups dialect columns.length rows).map (·.map text)) := by
  have hgroups : (List.range rows).map (group dialect columns.length) =
      ((groups dialect columns.length rows).map (·.map text)).map fun g =>
        "(" ++ ",".intercalate g ++ ")" := by
    simp only [groups, List.map_map]
    apply List.map_congr_left
    intro row _
    simp only [group, Function.comp_def, List.map_map, text_of]
  unfold template textOf
  rw [hgroups]

/-- The rows that a database reads from an insert, when every placeholder stands for a value. -/
def bound (s : Insert) : Option (List (List Value)) :=
  (bind s.values 0 (groups s.dialect s.columns.length s.rows).flatten).map
    (split s.columns.length s.rows)

theorem bound_eq {s : Insert} (h : s.values.length = s.rows * s.columns.length) :
    s.bound = some s.tuples := by
  rw [bound, flatten_groups, ← h, bind_all]
  rfl

end Insert

namespace Delete

open Placeholder

/-- The conditions that a database reads from a delete. -/
def bound (s : Delete) : Option (List (String × Value)) :=
  (bind s.parameters 0 (all s.dialect s.filter.keys.length)).map (s.filter.keys.zip ·)

theorem bound_eq (s : Delete) : s.bound = some s.filter.entries := by
  have hlength : s.filter.keys.length = s.parameters.length := by
    simp [Keyed.keys, parameters]
  have hzip : s.filter.keys.zip s.parameters = s.filter.entries := by
    rw [Keyed.keys, parameters, List.zip_map', List.map_id']
  rw [bound, hlength, bind_all, Option.map_some, hzip]

end Delete

end TableLoad
