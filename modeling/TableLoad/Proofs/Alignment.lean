import TableLoad.Proofs.Placeholder
import TableLoad.Proofs.Recorded

namespace TableLoad

namespace Insert

theorem getElem?_split {width rows row : Nat} (h : row < rows) (values : List Value) :
    (split width rows values)[row]? = some ((values.drop (row * width)).take width) := by
  induction rows generalizing row values with
  | zero => omega
  | succ rows ih =>
    cases row with
    | zero => simp [split]
    | succ row =>
      have hmul : (row + 1) * width = width + row * width := by rw [Nat.succ_mul, Nat.add_comm]
      rw [split, List.getElem?_cons_succ, ih (by omega), List.drop_drop, hmul]

/-- The place of a value in the buffer says its row and its column. -/
theorem getElem?_getElem?_split {width rows first k : Nat} (hw : 0 < width)
    (h : first + k / width < rows) (values : List Value) :
    ((split width rows values)[first + k / width]?.bind fun row => row[k % width]?) =
      values[first * width + k]? := by
  have hcol : k % width < width := Nat.mod_lt k hw
  have hplace : (first + k / width) * width + k % width = first * width + k := by
    have hdiv := Nat.div_add_mod k width
    rw [Nat.add_mul, Nat.mul_comm (k / width) width]
    omega
  rw [getElem?_split h, Option.bind_some, List.getElem?_take_of_lt hcol, List.getElem?_drop, hplace]

end Insert

namespace Batch

/-- Where the values of a batch begin in the buffer. -/
def offset (width : Nat) (sizes : List Nat) (i : Nat) : Nat :=
  (sizes.take i).sum * width

theorem offset_zero (width : Nat) (sizes : List Nat) : offset width sizes 0 = 0 := by
  simp [offset]

theorem offset_succ (width : Nat) {sizes : List Nat} {i size : Nat} (h : sizes[i]? = some size) :
    offset width sizes (i + 1) = offset width sizes i + size * width := by
  rw [offset, offset, List.take_add_one, h, Option.toList_some, List.sum_append, List.sum_singleton,
    Nat.add_mul]

theorem offset_mono (width : Nat) (sizes : List Nat) {i j : Nat} (h : i ≤ j) :
    offset width sizes i ≤ offset width sizes j := by
  obtain ⟨d, rfl⟩ := Nat.exists_eq_add_of_le h
  have hsum : (sizes.take (i + d)).sum = (sizes.take i).sum + ((sizes.drop i).take d).sum := by
    rw [← List.sum_append, ← List.take_add]
  exact Nat.mul_le_mul_right width (by omega)

theorem offset_le (width : Nat) (sizes : List Nat) (i : Nat) :
    offset width sizes i ≤ sizes.sum * width := by
  have hsum : (sizes.take i).sum + (sizes.drop i).sum = sizes.sum := by
    rw [← List.sum_append, List.take_append_drop]
  exact Nat.mul_le_mul_right width (by omega)

theorem getElem?_inserts (table : String) (columns : List String) (dialect : Dialect)
    (sizes : List Nat) (values : List Value) (i : Nat) :
    (inserts table columns dialect sizes values)[i]? = sizes[i]?.map fun size =>
      ⟨table, columns, size,
        (values.drop (offset columns.length sizes i)).take (size * columns.length), dialect⟩ := by
  induction sizes generalizing values i with
  | nil => simp [inserts]
  | cons size sizes ih =>
    cases i with
    | zero => simp [inserts, offset_zero]
    | succ i =>
      have hoffset : offset columns.length (size :: sizes) (i + 1) =
          size * columns.length + offset columns.length sizes i := by
        simp only [offset, List.take_succ_cons, List.sum_cons, Nat.add_mul]
      rw [inserts, List.getElem?_cons_succ, ih, List.getElem?_cons_succ, hoffset]
      simp only [List.drop_drop]

theorem length_inserts (table : String) (columns : List String) (dialect : Dialect)
    (sizes : List Nat) (values : List Value) :
    (inserts table columns dialect sizes values).length = sizes.length := by
  induction sizes generalizing values with
  | nil => rfl
  | cons size sizes ih => rw [inserts, List.length_cons, ih, List.length_cons]

/-- The slices one behind the other are the buffer. -/
theorem flatMap_values_inserts (table : String) (columns : List String) (dialect : Dialect)
    {sizes : List Nat} {values : List Value} (h : values.length = sizes.sum * columns.length) :
    (inserts table columns dialect sizes values).flatMap Insert.values = values := by
  induction sizes generalizing values with
  | nil =>
    have hnil : values = [] := List.eq_nil_of_length_eq_zero (by simpa using h)
    rw [hnil]
    rfl
  | cons size sizes ih =>
    have hrest : (values.drop (size * columns.length)).length = sizes.sum * columns.length := by
      rw [List.length_drop, h, List.sum_cons, Nat.add_mul, Nat.add_sub_cancel_left]
    rw [inserts, List.flatMap_cons, ih hrest, List.take_append_drop]

/-- The insert of a batch fits its slice of the buffer. -/
structure Aligned (table : String) (columns : List String) (dialect : Dialect)
    (values : Array Value) (sizes : List Nat) (i : Nat) (s : Insert) : Prop where
  rows : sizes[i]? = some s.rows
  /-- The next slice begins where this one ends. -/
  next : offset columns.length sizes (i + 1) =
    offset columns.length sizes i + s.rows * columns.length
  in_bounds : offset columns.length sizes (i + 1) ≤ values.size
  apart : ∀ j, i < j → offset columns.length sizes (i + 1) ≤ offset columns.length sizes j
  slice : s.values = (values.extract (offset columns.length sizes i)
    (offset columns.length sizes (i + 1))).toList
  /-- A group of placeholders a row, a placeholder a column, numbered over the whole statement
  where the dialect numbers them. -/
  text : ∃ groups, s.sql = Insert.textOf table columns groups ∧ groups.length = s.rows ∧
    (∀ group ∈ groups, group.length = columns.length) ∧
    (groups.flatten = (List.range (s.rows * columns.length)).map fun k =>
      if dialect = .postgres then "$" ++ toString (k + 1) else "?") ∧
    groups.flatten.length = s.values.length
  /-- The value of every placeholder is that of its row and its column. -/
  bound : ∀ k < s.values.length, s.values[k]? =
    (Insert.split columns.length (values.size / columns.length)
      values.toList)[(sizes.take i).sum + k / columns.length]?.bind fun row =>
        row[k % columns.length]?

theorem groups_text (dialect : Dialect) (width rows : Nat) :
    ((Insert.groups dialect width rows).map (·.map Placeholder.text)).flatten =
      (List.range (rows * width)).map fun k =>
        if dialect = .postgres then "$" ++ toString (k + 1) else "?" := by
  rw [← List.map_flatten, Insert.flatten_groups, Placeholder.all, List.map_map]
  apply List.map_congr_left
  intro k _
  exact Placeholder.text_of_eq dialect (k + 1)

theorem aligned_inserts (table : String) (dialect : Dialect) {columns : List String}
    {values : Array Value} {sizes : List Nat} (hc : columns ≠ [])
    (hv : values.size = sizes.sum * columns.length) {i : Nat} {s : Insert}
    (h : (inserts table columns dialect sizes values.toList)[i]? = some s) :
    Aligned table columns dialect values sizes i s := by
  have hw : 0 < columns.length := List.length_pos_iff.mpr hc
  rw [getElem?_inserts] at h
  obtain ⟨size, hsize, hs⟩ := Option.map_eq_some_iff.mp h
  have hnext := offset_succ columns.length hsize
  have hbound : offset columns.length sizes (i + 1) ≤ values.size := by
    rw [hv]
    exact offset_le _ _ _
  have hslice : (values.toList.drop (offset columns.length sizes i)).take
      (size * columns.length) = (values.extract (offset columns.length sizes i)
        (offset columns.length sizes (i + 1))).toList := by
    rw [Array.toList_extract, List.extract_eq_take_drop, hnext, Nat.add_sub_cancel_left]
  have hlength : ((values.toList.drop (offset columns.length sizes i)).take
      (size * columns.length)).length = size * columns.length := by
    have hsize : values.toList.length = values.size := Array.length_toList
    rw [List.length_take, List.length_drop, hsize]
    omega
  subst hs
  refine ⟨hsize, hnext, hbound, fun j hj => offset_mono _ _ hj, hslice, ?_, ?_⟩
  · refine ⟨_, Insert.template_eq table columns size dialect, ?_, ?_, groups_text _ _ _, ?_⟩
    · simp [Insert.groups]
    · intro group hgroup
      obtain ⟨g, hg, rfl⟩ := List.mem_map.mp hgroup
      obtain ⟨row, -, rfl⟩ := List.mem_map.mp hg
      simp
    · rw [groups_text, List.length_map, List.length_range, hlength]
  · intro k hk
    simp only [hlength] at hk
    have hrow : (sizes.take i).sum + k / columns.length < values.size / columns.length := by
      have hdiv : k / columns.length < size := (Nat.div_lt_iff_lt_mul hw).mpr hk
      have hsum := (Nat.mul_le_mul_right_iff hw).mp (hv ▸ hbound)
      rw [List.take_add_one, hsize, Option.toList_some, List.sum_append, List.sum_singleton] at hsum
      rw [hv, Nat.mul_div_cancel _ hw]
      omega
    rw [Insert.getElem?_getElem?_split hw hrow, List.getElem?_take_of_lt hk, List.getElem?_drop]
    rfl

end Batch

namespace Loader

open Database

/-- The inserts that an accepted commit executes are those of its batches in their order, all of
them when it succeeds, and each of them fits its slice of the buffer. -/
theorem commit_inserts_aligned {ω : Type} (session : Session ω) {l : Loader}
    {values : Array Value} {delete : Option Delete}
    (hl : l.stage = .accumulating values delete) {columns : List String} (hc : columns ≠ [])
    (hm : values.size % columns.length = 0) (hmax : 0 < l.maxBatchSize) (table : String) (w : ω) :
    let sizes := Batch.partition (values.size / columns.length) l.maxBatchSize
    (sizes.sum = values.size / columns.length ∧
      (∀ (i : Nat) (h : i + 1 < sizes.length), sizes[i] = l.maxBatchSize) ∧
      (∀ size ∈ sizes.getLast?, 1 ≤ size ∧ size ≤ l.maxBatchSize)) ∧
    ∃ (inserts : List Insert) (ran : List Statement),
      (inserts.length = sizes.length ∧ inserts.flatMap Insert.values = values.toList ∧
        ∀ i s, inserts[i]? = some s → Batch.Aligned table columns l.dialect values sizes i s) ∧
      l.commit session.recorded table columns (w, []) =
        ((l.commit session table columns w).1, (l.commit session table columns w).2.1,
          (l.commit session table columns w).2.2, ran) ∧
      ran <+: plan delete inserts ∧
      (sizes ≠ [] → (l.commit session table columns w).1.isOk = true → ran = plan delete inserts) := by
  intro sizes
  have hsum : sizes.sum = values.size / columns.length := Batch.partition_sum _ hmax
  have hv : values.size = sizes.sum * columns.length := by
    rw [hsum, Nat.mul_comm]
    exact (Nat.mul_div_cancel' (Nat.dvd_of_mod_eq_zero hm)).symm
  have hstatements := Batch.statements_partition table columns l.dialect values
    (values.size / columns.length) l.maxBatchSize
  obtain ⟨ran, hran, hrun, -, hall⟩ := commit_recorded session hl hc hm table w
  rw [hstatements] at hran hall
  refine ⟨⟨hsum, fun i h => Batch.partition_getElem h, ?_⟩, _, ran, ⟨?_, ?_, ?_⟩, hrun, hran, hall⟩
  · intro size hsize
    have hmem := List.mem_of_getLast? (Option.mem_def.mp hsize)
    have hsizes := Batch.mem_partition hmem
    omega
  · exact Batch.length_inserts _ _ _ _ _
  · exact Batch.flatMap_values_inserts _ _ _ (Array.length_toList.trans hv)
  · intro i s hs
    exact Batch.aligned_inserts table l.dialect hc hv hs

/-- Three rows in batches of two. -/
def threeLines : Loader :=
  ⟨.postgres, 2, .accumulating #[.int 2, .int 20, .int 3, .int 30, .int 4, .int 40] none, 0⟩

theorem commit_three_lines_aligned : ∃ inserts : List Insert, inserts.length = 2 ∧
    (∀ i s, inserts[i]? = some s → Batch.Aligned "lines" ["id", "qty"] .postgres
      #[.int 2, .int 20, .int 3, .int 30, .int 4, .int 40] [2, 1] i s) ∧
    (threeLines.commit Connection.session.recorded "lines" ["id", "qty"] (.lines, [])).2.2.2 =
      plan none inserts := by
  obtain ⟨-, inserts, ran, ⟨hlength, -, haligned⟩, hrun, -, hall⟩ :=
    commit_inserts_aligned Connection.session (l := threeLines) rfl
      (show ["id", "qty"] ≠ [] by decide) (by decide) (by decide) "lines" .lines
  have hok : (threeLines.commit Connection.session "lines" ["id", "qty"] .lines).1.isOk = true := by
    decide +kernel
  refine ⟨inserts, hlength, haligned, ?_⟩
  rw [hrun]
  exact hall (by decide) hok

end Loader

end TableLoad
