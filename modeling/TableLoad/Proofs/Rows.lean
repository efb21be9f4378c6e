import TableLoad.Proofs.Discovery

namespace TableLoad.Dataset

open TwoPass

theorem forall₂_set {α β : Type} {P Q : α → β → Prop} {xs : List α} {ys : List β}
    (h : List.Forall₂ P xs ys) {i : Nat} {y : β} (hi : ∀ x, xs[i]? = some x → Q x y)
    (hne : ∀ j x z, j ≠ i → xs[j]? = some x → P x z → Q x z) :
    List.Forall₂ Q xs (ys.set i y) := by
  obtain ⟨hl, hg⟩ := List.forall₂_iff_get.mp h
  refine List.forall₂_iff_get.mpr ⟨by simpa using hl, fun j h₁ h₂ => ?_⟩
  have hx : xs[j]? = some xs[j] := List.getElem?_eq_getElem h₁
  by_cases hj : i = j
  · subst hj
    simpa using hi _ hx
  · have hz := hg j h₁ (hl ▸ h₁)
    simp only [List.get_eq_getElem, List.getElem_set_ne hj] at hz ⊢
    exact hne j _ _ (Ne.symm hj) hx hz

variable {d : Dataset} {keys : List String}

theorem padded_of_length {columns : ColumnSet} {row : Row} (h : row.length = columns.size) :
    padded columns row = row := by
  simp [padded, h, ColumnSet.size]

namespace Discovered

/-- A value that does not fit ends the row. -/
theorem place_error (h : d.Discovered keys) {entry : String × Json} (hk : entry.1 ∈ keys)
    {e : LoadError} (hc : check d.catalog d.mapping entry = .error e) (row : Row) :
    d.place row entry = .error e := by
  cases hcol : column? d.catalog d.mapping entry.1 with
  | none => simp [check, hcol] at hc
  | some c =>
    obtain ⟨i, e', hb, -, hat, he⟩ := h.binding hk hcol
    have hco : e'.coerce entry.2 = c.coerce entry.2 := by rw [he]; rfl
    simp only [check, hcol] at hc
    simp only [place, hb, hat, hco]
    cases hv : c.coerce entry.2 with
    | ok v => simp [hv, Except.map] at hc
    | error e₁ => simpa [hv, Except.map] using hc

/-- A value that fits goes into the cell of its column and no other. -/
theorem place_ok (h : d.Discovered keys) {entry : String × Json} (hk : entry.1 ∈ keys)
    (hc : check d.catalog d.mapping entry = .ok ()) {entries : List (String × Json)} {row : Row}
    (hrow : IsRow d.catalog d.mapping d.columns entries row) :
    ∃ row', d.place row entry = .ok row' ∧
      IsRow d.catalog d.mapping d.columns (entries ++ [entry]) row' := by
  cases hcol : column? d.catalog d.mapping entry.1 with
  | none =>
    refine ⟨row, by simp [place, h.binding_eq_none hcol], hrow.imp fun c v hv => ?_⟩
    rwa [cell_append_singleton, leadsTo_of_none hcol]
  | some c =>
    obtain ⟨i, e, hb, hi, hat, he⟩ := h.binding hk hcol
    have hn : e.name = c.name := by rw [he]
    simp only [check, hcol] at hc
    cases hv : c.coerce entry.2 with
    | error e₁ => simp [hv, Except.map] at hc
    | ok v =>
      have hco : e.coerce entry.2 = .ok v := by rw [he]; exact hv
      refine ⟨row.set i v, by simp [place, hb, hat, hco, Except.map], forall₂_set hrow ?_ ?_⟩
      · intro x hx
        have hxe : x = e := Option.some.inj (hx.symm.trans hat)
        have hl : leadsTo d.catalog d.mapping x entry = true := by
          rw [leadsTo_of_some hcol, hxe, hn, beq_self_eq_true]
        rw [cell_append_singleton, hl, if_pos rfl, hxe, hco]
      · intro j x z hj hx hz
        have hl : leadsTo d.catalog d.mapping x entry = false := by
          rw [leadsTo_of_some hcol, beq_eq_false_iff_ne]
          intro hc
          have hidx := ColumnSet.indexOf?_of_at? h.names_nodup hx
          rw [← hc, hi] at hidx
          exact hj (Option.some.inj hidx).symm
        rwa [cell_append_singleton, hl]

/-- Placing the values of some entries: the first misfit, or the row of the second pass. -/
theorem foldlM_place (h : d.Discovered keys) {entries : List (String × Json)}
    (hk : ∀ entry ∈ entries, entry.1 ∈ keys) :
    match verdict d.catalog d.mapping entries with
    | .error e => entries.foldlM d.place (d.columns.columns.map Column.fill) = .error e
    | .ok () => ∃ row, entries.foldlM d.place (d.columns.columns.map Column.fill) = .ok row ∧
        IsRow d.catalog d.mapping d.columns entries row := by
  induction entries using List.reverseRecOn with
  | nil =>
    refine ⟨d.columns.columns.map Column.fill, rfl, ?_⟩
    rw [IsRow, List.forall₂_map_right_iff]
    exact List.forall₂_same.mpr fun c _ => cell_nil c
  | append_singleton entries entry ih =>
    have ih := ih fun e he => hk e (List.mem_append_left _ he)
    have hkey : entry.1 ∈ keys := hk entry (by simp)
    rw [verdict_append_singleton]
    simp only [List.foldlM_append, List.foldlM_cons, List.foldlM_nil]
    cases hv : verdict d.catalog d.mapping entries with
    | error e =>
      rw [hv] at ih
      simp only at ih
      simp [Except.bind, ih, bind]
    | ok u =>
      rw [hv] at ih
      obtain ⟨row, hrow, his⟩ := ih
      simp only [Except.bind, hrow, bind, pure, Except.pure]
      cases hc : check d.catalog d.mapping entry with
      | error e => simp [h.place_error hkey hc]
      | ok u =>
        obtain ⟨row', hp, his'⟩ := h.place_ok hkey hc his
        exact ⟨row', by simp [hp], his'⟩

/-- A row filled up for new columns: no key of its record leads to them. -/
theorem padded_isRow (h : d.Discovered keys) {s : ColumnSet} (hs : s.names.Nodup)
    (hp : d.columns.columns <+: s.columns) {entries : List (String × Json)}
    (hk : ∀ entry ∈ entries, entry.1 ∈ keys) {row : Row}
    (hrow : IsRow d.catalog d.mapping d.columns entries row) :
    IsRow d.catalog d.mapping s entries (padded s row) := by
  obtain ⟨new, hnew⟩ := hp
  have hlen : row.length = d.columns.columns.length := hrow.length_eq.symm
  have hpad : padded s row = row ++ new.map Column.fill := by
    rw [padded, ← hnew, hlen, List.drop_left]
  rw [IsRow, hpad, ← hnew]
  refine List.rel_append hrow ?_
  rw [List.forall₂_map_right_iff]
  refine List.forall₂_same.mpr fun c hc => cell_eq_fill fun entry he => ?_
  cases hcol : column? d.catalog d.mapping entry.1 with
  | none => exact leadsTo_of_none hcol c
  | some c' =>
    rw [leadsTo_of_some hcol, beq_eq_false_iff_ne]
    intro hn
    -- The column of the key stands among the old ones, so no new one has its name.
    have hold : c'.name ∈ d.columns.names := by
      rw [h.columns_eq]
      exact name_mem_columns (hk entry he) hcol
    have hnodup := hs
    rw [ColumnSet.names, ← hnew, List.map_append] at hnodup
    exact (List.nodup_append.mp hnodup).2.2 _ hold _ (List.mem_map_of_mem hc) hn

/-- Taking in the keys of a record never fails; every row is filled up. -/
theorem discover (h : d.Discovered keys) (hw : ∀ row ∈ d.rows, row.length = d.columns.size)
    (record : Record) :
    ∃ d', d.discover record = (.ok (), d') ∧ d'.Discovered (keys ++ record.keys) ∧
      d'.catalog = d.catalog ∧ d'.mapping = d.mapping ∧
      d'.rows = d.rows.map (padded d'.columns) := by
  obtain ⟨d', hl, hd, hc, hm, hr⟩ := h.learnAll record.keys
  by_cases hlt : d.columns.size < d'.columns.size
  · refine ⟨{ d' with rows := d'.rows.map (padded d'.columns) }, ?_,
      ⟨hd.columns_eq, hd.ignored_eq, hd.find?_bindings⟩, hc, hm, by rw [hr]⟩
    simp [Dataset.discover, hl, hlt]
  · refine ⟨d', by simp [Dataset.discover, hl, hlt], hd, hc, hm, ?_⟩
    have hle := (h.columns_prefix hd hc hm).length_le
    have hsize : d.columns.size = d'.columns.size := by
      simp only [ColumnSet.size] at hlt ⊢
      omega
    rw [hr]
    apply Array.ext
    · simp
    · intro i hi _
      have hrow := hw d.rows[i] (Array.getElem_mem hi)
      rw [Array.getElem_map, padded_of_length (hrow.trans hsize)]

end Discovered

end TableLoad.Dataset
