import Mathlib
import TableLoad.Batch.Partition

namespace TableLoad

theorem Batch.partition_sum (rows : Nat) {max : Nat} (h : 0 < max) :
    (partition rows max).sum = rows := by
  have hdiv := Nat.div_add_mod rows max
  unfold partition
  split
  · rename_i h0
    simp only [Bool.or_eq_true, decide_eq_true_eq] at h0
    simp only [List.sum_nil]
    omega
  · split
    · rename_i _ hm
      simp [Nat.mul_comm, hm] at hdiv ⊢
      exact hdiv
    · simp [Nat.mul_comm] at hdiv ⊢
      exact hdiv

theorem Batch.partition_eq_nil {rows max : Nat} : partition rows max = [] ↔ rows = 0 ∨ max = 0 := by
  constructor
  · intro h
    by_contra hc
    have hmax : 0 < max := by omega
    have hsum := partition_sum rows hmax
    rw [h] at hsum
    simp at hsum
    omega
  · intro h
    simp [partition, h]

theorem Batch.partition_eq (rows : Nat) {max : Nat} (h : 0 < max) :
    partition rows max =
      List.replicate (rows / max) max ++ if rows % max = 0 then [] else [rows % max] := by
  unfold partition
  split
  · rename_i h0
    have hrows : rows = 0 := by
      simp only [Bool.or_eq_true, decide_eq_true_eq] at h0
      omega
    simp [hrows]
  · rfl

theorem Batch.mem_partition {rows max size : Nat} (h : size ∈ partition rows max) :
    0 < size ∧ size ≤ max := by
  have hmax : 0 < max := by
    by_contra hzero
    rw [Batch.partition_eq_nil.mpr (Or.inr (by omega))] at h
    cases h
  rw [partition_eq rows hmax] at h
  have hlt := Nat.mod_lt rows hmax
  rcases List.mem_append.mp h with hfull | hrest
  · have heq : size = max := List.eq_of_mem_replicate hfull
    omega
  · split at hrest
    · cases hrest
    · have heq : size = rows % max := by simpa using hrest
      omega

theorem Batch.partition_getElem {rows max i : Nat} (h : i + 1 < (partition rows max).length) :
    (partition rows max)[i] = max := by
  have hmax : 0 < max := by
    by_contra hzero
    rw [Batch.partition_eq_nil.mpr (Or.inr (by omega))] at h
    simp at h
  have hsize : i < rows / max := by
    rw [partition_eq rows hmax, List.length_append, List.length_replicate] at h
    split at h
    · simp only [List.length_nil] at h
      omega
    · simp only [List.length_singleton] at h
      omega
  simp only [partition_eq rows hmax]
  rw [List.getElem_append_left (by simpa using hsize), List.getElem_replicate]

namespace Insert

/-- A buffer of whole rows is the rows cut from it. -/
theorem flatten_split {width rows : Nat} {values : List Value}
    (h : values.length = rows * width) : (split width rows values).flatten = values := by
  induction rows generalizing values with
  | zero =>
    have hnil : values = [] := List.eq_nil_of_length_eq_zero (by simpa using h)
    simp [split, hnil]
  | succ rows ih =>
    have hrest : (values.drop width).length = rows * width := by
      rw [List.length_drop, h, Nat.succ_mul, Nat.add_sub_cancel]
    simp only [split, List.flatten_cons, ih hrest, List.take_append_drop]

theorem length_of_mem_split {width rows : Nat} {values : List Value}
    (h : values.length = rows * width) : ∀ row ∈ split width rows values, row.length = width := by
  induction rows generalizing values with
  | zero => simp [split]
  | succ rows ih =>
    have hrest : (values.drop width).length = rows * width := by
      rw [List.length_drop, h, Nat.succ_mul, Nat.add_sub_cancel]
    intro row hrow
    rcases List.mem_cons.mp hrow with rfl | hrow
    · rw [List.length_take, h, Nat.succ_mul]
      omega
    · exact ih hrest row hrow

theorem split_add (width m n : Nat) (values : List Value) :
    split width (m + n) values =
      split width m (values.take (m * width)) ++ split width n (values.drop (m * width)) := by
  induction m generalizing values with
  | zero => simp [split]
  | succ m ih =>
    have hmul : (m + 1) * width = width + m * width := by rw [Nat.succ_mul, Nat.add_comm]
    have htake : (values.take (width + m * width)).take width = values.take width := by
      rw [List.take_take, Nat.min_eq_left (Nat.le_add_right _ _)]
    have hdrop : (values.take (width + m * width)).drop width =
        (values.drop width).take (m * width) := by
      rw [List.drop_take, Nat.add_sub_cancel_left]
    rw [Nat.succ_add, split, ih, hmul, split, htake, hdrop, List.drop_drop, List.cons_append]

theorem split_flatten {width : Nat} {rows : List (List Value)}
    (h : ∀ row ∈ rows, row.length = width) : split width rows.length rows.flatten = rows := by
  induction rows with
  | nil => rfl
  | cons row rows ih =>
    have hrow : row.length = width := h row List.mem_cons_self
    have hrest := ih fun r hr => h r (List.mem_cons_of_mem _ hr)
    rw [List.length_cons, split, List.flatten_cons, ← hrow, List.take_left, List.drop_left, hrow,
      hrest]

theorem length_flatten {width : Nat} {rows : List (List Value)}
    (h : ∀ row ∈ rows, row.length = width) : rows.flatten.length = rows.length * width := by
  rw [List.length_flatten, List.map_congr_left h]
  simp

/-- A buffer comes from one list of rows of a width only. -/
theorem eq_of_flatten_eq {width : Nat} (hw : 0 < width) {rows rows' : List (List Value)}
    (h : ∀ row ∈ rows, row.length = width) (h' : ∀ row ∈ rows', row.length = width)
    (hf : rows.flatten = rows'.flatten) : rows = rows' := by
  have hsize : rows.length = rows'.length := by
    have hmul := (length_flatten h).symm.trans ((congrArg List.length hf).trans (length_flatten h'))
    exact Nat.eq_of_mul_eq_mul_right hw hmul
  rw [← split_flatten h, ← split_flatten h', hsize, hf]

end Insert

namespace Batch

variable (table : String) (columns : List String) (dialect : Dialect)

theorem of_mem_inserts {sizes : List Nat} {values : List Value} {s : Insert}
    (h : s ∈ inserts table columns dialect sizes values) :
    s.table = table ∧ s.columns = columns := by
  induction sizes generalizing values with
  | nil => cases h
  | cons size sizes ih =>
    rcases List.mem_cons.mp h with rfl | h
    · exact ⟨rfl, rfl⟩
    · exact ih h

theorem rows_inserts (sizes : List Nat) (values : List Value) :
    (inserts table columns dialect sizes values).map Insert.rows = sizes := by
  induction sizes generalizing values with
  | nil => rfl
  | cons size sizes ih => rw [inserts, List.map_cons, ih]

/-- The rows of all batches in their order are the rows of the buffer. -/
theorem tuples_inserts (sizes : List Nat) (values : List Value) :
    (inserts table columns dialect sizes values).flatMap Insert.tuples =
      Insert.split columns.length sizes.sum values := by
  induction sizes generalizing values with
  | nil => rfl
  | cons size sizes ih =>
    rw [List.sum_cons, Insert.split_add, inserts, List.flatMap_cons, ih]
    rfl

/-- A template whose rows are as many as its batch has makes the statement of the batch. -/
theorem statementsFrom_eq (values : Array Value) {full last total : Nat} {sizes : List Nat}
    (index offset : Nat)
    (h : ∀ (j : Nat) (hj : j < sizes.length),
      (if last ≠ full ∧ index + j + 1 = total then last else full) = sizes[j]) :
    statementsFrom table columns dialect values full last total index offset sizes =
      inserts table columns dialect sizes (values.toList.drop offset) := by
  induction sizes generalizing index offset with
  | nil => rfl
  | cons size sizes ih =>
    have hfirst : (if last ≠ full ∧ index + 1 = total then last else full) = size :=
      h 0 (Nat.zero_lt_succ _)
    have hrest := ih (index + 1) (offset + size * columns.length) fun j hj => by
      have hj' := h (j + 1) (Nat.succ_lt_succ hj)
      rw [show index + (j + 1) + 1 = index + 1 + j + 1 by omega] at hj'
      exact hj'
    have hslice : (values.extract offset (offset + size * columns.length)).toList =
        (values.toList.drop offset).take (size * columns.length) := by
      rw [Array.toList_extract, List.extract_eq_take_drop, Nat.add_sub_cancel_left]
    simp only [statementsFrom, inserts]
    rw [hfirst, hrest, hslice, List.drop_drop]

/-- Where all batches but the last have one size, each is served by the right one of the two
templates. -/
theorem statements_eq (values : Array Value) {sizes : List Nat} {max : Nat}
    (hmax : ∀ (i : Nat) (h : i + 1 < sizes.length), sizes[i] = max) :
    statements table columns dialect values sizes =
      inserts table columns dialect sizes values.toList := by
  cases sizes with
  | nil => rfl
  | cons full rest =>
    apply statementsFrom_eq table columns dialect values 0 0
    intro j hj
    rw [Nat.zero_add]
    by_cases hj' : j + 1 = (full :: rest).length
    · -- the last batch: it is its own template, be that the only one or the second
      have hval : rest.getLast?.getD full = (full :: rest)[j] := by
        have hget : (full :: rest).getLast? = some (full :: rest)[j] := by
          rw [List.getLast?_eq_getElem?, ← hj', Nat.add_sub_cancel]
          exact List.getElem?_eq_getElem hj
        rw [List.getLast?_cons] at hget
        exact Option.some.inj hget
      rw [hval]
      split
      · rfl
      · rename_i hc
        by_contra hne
        exact hc ⟨Ne.symm hne, hj'⟩
    · have hlt : j + 1 < (full :: rest).length := by omega
      have hfull : full = max := hmax 0 (by omega)
      rw [if_neg (fun hc => hj' hc.2), hmax j hlt, hfull]

theorem statements_partition (values : Array Value) (rows max : Nat) :
    statements table columns dialect values (partition rows max) =
      inserts table columns dialect (partition rows max) values.toList :=
  statements_eq table columns dialect values fun _ h => partition_getElem h

end Batch

end TableLoad
