import TableLoad.Proofs.TwoPass

namespace TableLoad.Dataset

open TwoPass

/-- What a dataset knows after some keys: the columns and ignored keys of one pass over them, and
for each of them the place of the column that it leads to. -/
structure Discovered (d : Dataset) (keys : List String) : Prop where
  columns_eq : d.columns = TwoPass.columns d.catalog d.mapping keys
  ignored_eq : d.ignored = TwoPass.ignored d.catalog d.mapping keys
  find?_bindings : ∀ key, d.bindings.find? key =
    if key ∈ keys then
      (column? d.catalog d.mapping key).bind fun c => d.columns.indexOf? c.name
    else none

variable {d : Dataset} {keys : List String}

theorem discovered_new (catalog : ColumnSet) (mapping : FieldMap) :
    (new catalog mapping).Discovered [] :=
  ⟨rfl, rfl, fun _ => rfl⟩

namespace Discovered

theorem names_nodup (h : d.Discovered keys) : d.columns.names.Nodup :=
  h.columns_eq ▸ names_columns_nodup keys

/-- Every column is one that some key led to, and a key that leads to a column of this name leads
to it. -/
theorem column_of_at? (h : d.Discovered keys) {i : Nat} {c e : Column} {key : String}
    (hi : d.columns.at? i = some e) (hc : column? d.catalog d.mapping key = some c)
    (hn : e.name = c.name) : e = { c with sourceKey := e.sourceKey } := by
  have hmem : e ∈ (TwoPass.columns d.catalog d.mapping keys).columns := by
    rw [← h.columns_eq]
    exact List.mem_of_getElem? hi
  obtain ⟨l, -, hl⟩ := column?_of_mem_columns hmem
  have he : e = { c with sourceKey := l } := column?_unique hc hl hn
  rw [he]

theorem binding (h : d.Discovered keys) {key : String} (hk : key ∈ keys) {c : Column}
    (hc : column? d.catalog d.mapping key = some c) :
    ∃ i e, d.bindings.find? key = some i ∧ d.columns.indexOf? c.name = some i ∧
      d.columns.at? i = some e ∧ e = { c with sourceKey := e.sourceKey } := by
  have hmem : c.name ∈ d.columns.names := by
    rw [h.columns_eq]
    exact name_mem_columns hk hc
  cases hi : d.columns.indexOf? c.name with
  | none => exact absurd hmem (ColumnSet.indexOf?_eq_none.mp hi)
  | some i =>
    obtain ⟨e, he, hn⟩ := ColumnSet.at?_of_indexOf? hi
    refine ⟨i, e, ?_, rfl, he, h.column_of_at? he hc hn⟩
    rw [h.find?_bindings, if_pos hk, hc, Option.bind_some, hi]

theorem binding_eq_none (h : d.Discovered keys) {key : String}
    (hc : column? d.catalog d.mapping key = none) : d.bindings.find? key = none := by
  rw [h.find?_bindings, hc, Option.bind_none, ite_self]

theorem knows_iff (h : d.Discovered keys) (key : String) : d.knows key = true ↔ key ∈ keys := by
  rw [knows, h.ignored_eq, find?_ignored]
  by_cases hk : key ∈ keys
  · simp only [hk, if_true, iff_true, Bool.or_eq_true]
    cases hc : column? d.catalog d.mapping key with
    | some c =>
      obtain ⟨i, -, hi, -⟩ := h.binding hk hc
      exact Or.inl (by simp [hi])
    | none =>
      refine Or.inr (Option.isSome_iff_ne_none.mpr fun hr => ?_)
      exact reason?_eq_none.mp hr hc
  · simp [hk, h.find?_bindings]

theorem append_of_mem (h : d.Discovered keys) {key : String} (hk : key ∈ keys) :
    d.Discovered (keys ++ [key]) := by
  refine ⟨?_, ?_, fun l => ?_⟩
  · rw [columns_append_of_mem hk, h.columns_eq]
  · rw [ignored_append_of_mem hk, h.ignored_eq]
  · have hiff : l ∈ keys ++ [key] ↔ l ∈ keys := by
      simp only [List.mem_append, List.mem_singleton, or_iff_left_iff_imp]
      exact fun hl => hl ▸ hk
    rw [h.find?_bindings]
    simp only [hiff]

/-- The places of the keys that came before, when a new key is bound and columns are only
appended. -/
theorem find?_bindings_insert (h : d.Discovered keys) {key : String} {c : Column}
    (hc : column? d.catalog d.mapping key = some c) {s : ColumnSet} {i : Nat}
    (hs : d.columns.columns <+: s.columns) (hi : s.indexOf? c.name = some i) (l : String) :
    (d.bindings.insert key i).find? l =
      if l ∈ keys ++ [key] then
        (column? d.catalog d.mapping l).bind fun c => s.indexOf? c.name
      else none := by
  rw [Keyed.find?_insert]
  by_cases hl : l = key
  · simp [hl, hc, hi]
  · simp only [hl, if_false, h.find?_bindings, List.mem_append, List.mem_singleton, or_false]
    by_cases hk : l ∈ keys
    · simp only [hk, if_true]
      cases hcl : column? d.catalog d.mapping l with
      | none => rfl
      | some e =>
        obtain ⟨j, -, -, hj, -⟩ := h.binding hk hcl
        simp only [Option.bind_some]
        rw [hj, ColumnSet.indexOf?_of_prefix hs hj]
    · simp [hk]

theorem learn_ignored (h : d.Discovered keys) {key : String} {reason : IgnoreReason}
    (hc : column? d.catalog d.mapping key = none)
    (he : reason? d.catalog d.mapping key = some reason) :
    { d with ignored := d.ignored.insert key reason }.Discovered (keys ++ [key]) := by
  refine ⟨?_, ?_, fun l => ?_⟩
  · change d.columns = TwoPass.columns d.catalog d.mapping (keys ++ [key])
    rw [columns_append_singleton, hc, h.columns_eq]
  · change d.ignored.insert key reason = TwoPass.ignored d.catalog d.mapping (keys ++ [key])
    rw [ignored_append_singleton, he, h.ignored_eq]
  · change d.bindings.find? l = _
    rw [h.find?_bindings]
    by_cases hl : l = key
    · simp [hl, hc]
    · simp [hl]

section Column

variable {key : String} {entry : Column}

theorem ignored_of_column (h : d.Discovered keys)
    (hreason : reason? d.catalog d.mapping key = none) :
    d.ignored = TwoPass.ignored d.catalog d.mapping (keys ++ [key]) := by
  rw [ignored_append_singleton, hreason, h.ignored_eq]

/-- A second key for a column brings no column. -/
theorem learn_shared (h : d.Discovered keys)
    (hc : column? d.catalog d.mapping key = some { entry with sourceKey := key })
    (hreason : reason? d.catalog d.mapping key = none) {i : Nat}
    (hi : d.columns.indexOf? entry.name = some i) :
    { d with bindings := d.bindings.insert key i }.Discovered (keys ++ [key]) := by
  have hmem : entry.name ∈ (TwoPass.columns d.catalog d.mapping keys).names := by
    rw [← h.columns_eq]
    by_contra hn
    rw [ColumnSet.indexOf?_eq_none.mpr hn] at hi
    cases hi
  refine ⟨?_, h.ignored_of_column hreason, fun l => ?_⟩
  · change d.columns = TwoPass.columns d.catalog d.mapping (keys ++ [key])
    rw [columns_append_singleton, hc, h.columns_eq]
    exact (if_pos hmem).symm
  · exact h.find?_bindings_insert hc (List.prefix_refl _) hi l

theorem learn_new (h : d.Discovered keys)
    (hc : column? d.catalog d.mapping key = some { entry with sourceKey := key })
    (hreason : reason? d.catalog d.mapping key = none) (hn : entry.name ∉ d.columns.names) :
    { d with
      bindings := d.bindings.insert key d.columns.size
      columns := d.columns.append { entry with sourceKey := key } }.Discovered (keys ++ [key]) := by
  refine ⟨?_, h.ignored_of_column hreason, fun l => ?_⟩
  · change d.columns.append _ = TwoPass.columns d.catalog d.mapping (keys ++ [key])
    rw [h.columns_eq] at hn ⊢
    rw [columns_append_singleton, hc]
    exact (if_neg hn).symm
  · exact h.find?_bindings_insert hc (List.prefix_append _ _) (ColumnSet.indexOf?_append_self hn) l

end Column

/-- Learning a key never fails, and it leaves the rows alone. -/
theorem learn (h : d.Discovered keys) (key : String) :
    ∃ d', d.learn key = (.ok (), d') ∧ d'.Discovered (keys ++ [key]) ∧
      d'.catalog = d.catalog ∧ d'.mapping = d.mapping ∧ d'.rows = d.rows := by
  rcases resolve_cases d.catalog d.mapping key with
    ⟨reason, hr, hc, hreason⟩ | ⟨entry, hr, hc, hreason⟩
  · exact ⟨_, by simp only [Dataset.learn, hr], h.learn_ignored hc hreason, rfl, rfl, rfl⟩
  · cases hi : d.columns.indexOf? entry.name with
    | some i =>
      exact ⟨_, by simp only [Dataset.learn, hr, hi], h.learn_shared hc hreason hi, rfl, rfl, rfl⟩
    | none =>
      -- The name is new, so the push does not refuse the column.
      have hn : entry.name ∉ d.columns.names := ColumnSet.indexOf?_eq_none.mp hi
      have hpush : d.columns.push { entry with sourceKey := key } =
          .ok (d.columns.append { entry with sourceKey := key }) := ColumnSet.push_eq_append hn
      exact ⟨_, by simp only [Dataset.learn, hr, hi, hpush], h.learn_new hc hreason hn, rfl, rfl,
        rfl⟩

theorem learnAll (h : d.Discovered keys) (more : List String) :
    ∃ d', d.learnAll more = (.ok (), d') ∧ d'.Discovered (keys ++ more) ∧
      d'.catalog = d.catalog ∧ d'.mapping = d.mapping ∧ d'.rows = d.rows := by
  induction more generalizing d keys with
  | nil => exact ⟨d, rfl, by simpa using h, rfl, rfl, rfl⟩
  | cons key more ih =>
    by_cases hk : key ∈ keys
    · obtain ⟨d', hl, hd, hrest⟩ := ih (h.append_of_mem hk)
      refine ⟨d', ?_, by simpa using hd, hrest⟩
      rw [Dataset.learnAll, if_pos ((h.knows_iff key).mpr hk), hl]
    · obtain ⟨d₁, hl₁, hd₁, hc₁, hm₁, hr₁⟩ := h.learn key
      obtain ⟨d', hl, hd, hc, hm, hr⟩ := ih hd₁
      refine ⟨d', ?_, by simpa using hd, hc.trans hc₁, hm.trans hm₁, hr.trans hr₁⟩
      rw [Dataset.learnAll, if_neg (fun hc => hk ((h.knows_iff key).mp hc)), hl₁]
      exact hl

theorem columns_prefix (h : d.Discovered keys) {d' : Dataset} {more : List String}
    (h' : d'.Discovered (keys ++ more)) (hc : d'.catalog = d.catalog)
    (hm : d'.mapping = d.mapping) : d.columns.columns <+: d'.columns.columns := by
  rw [h.columns_eq, h'.columns_eq, hc, hm]
  exact TwoPass.columns_prefix keys more

end Discovered

end TableLoad.Dataset
