import TableLoad.Proofs.RowStore

namespace TableLoad.Loader

open Session Database

variable {ω R S : Type} {session : Session ω} {view : View ω R}

/-- Two commits of one buffer, with any batch sizes and dialects. An empty buffer runs nothing, so
a delete that is registered does not run either. -/
theorem commit_batching_invisible (ht : session.Transactional view) (hr : session.Rowwise view S)
    (hnever : ∀ w, session.cancelled w = false) {l₁ l₂ : Loader} (h₁ : 0 < l₁.maxBatchSize)
    (h₂ : 0 < l₂.maxBatchSize) {values : Array Value} {delete₁ delete₂ : Option Delete}
    (hl₁ : l₁.stage = .accumulating values delete₁) (hl₂ : l₂.stage = .accumulating values delete₂)
    (hdelete : delete₁.map Delete.rule = delete₂.map Delete.rule) (table : String)
    (columns : List String) (w : ω) :
    match l₁.commit session table columns w, l₂.commit session table columns w with
    | (.ok counts₁, _, w₁), (.ok counts₂, _, w₂) =>
      counts₁ = counts₂ ∧ view.rows w₁ = view.rows w₂ ∧
        (values = #[] → counts₁ = ⟨table, 0, 0, 0, columns.length⟩ ∧ w₁ = w ∧ w₂ = w) ∧
        (values ≠ #[] → ∃ removed t,
          hr.oneByOne (delete₁.map Delete.rule) table (assignments columns values) (hr.state w) =
            .ok (removed, t) ∧ view.rows w₁ = hr.rows t ∧
          counts₁ = ⟨table, removed, values.size / columns.length, values.size / columns.length,
            columns.length⟩)
    | (.error e₁, _, w₁), (.error e₂, _, w₂) =>
      e₁.kind = e₂.kind ∧ view.rows w₁ = view.rows w ∧ view.rows w₂ = view.rows w ∧
        (columns ≠ [] → values.size % columns.length = 0 →
          hr.oneByOne (delete₁.map Delete.rule) table (assignments columns values) (hr.state w) =
            .error e₁.kind)
    | _, _ => False := by
  by_cases hc : columns = []
  · subst hc
    rw [commit_of_no_column session hl₁, commit_of_no_column session hl₂]
    exact ⟨rfl, rfl, rfl, fun hne => absurd rfl hne⟩
  by_cases hm : values.size % columns.length = 0
  · by_cases hempty : values = #[]
    · have hzero : values.size / columns.length = 0 := by
        rw [hempty, Array.size_empty, Nat.zero_div]
      have hnone : ∀ max, Batch.partition (values.size / columns.length) max = [] := by
        intro max
        rw [hzero]
        exact Batch.partition_eq_nil.mpr (Or.inl rfl)
      rw [commit_of_no_batch hl₁ hc hm (hnone _), commit_of_no_batch hl₂ hc hm (hnone _), hzero]
      exact ⟨rfl, rfl, fun _ => ⟨rfl, rfl, rfl⟩, fun hne => absurd hempty hne⟩
    -- the run row by row knows neither the size of the batches nor the dialect
    · have hcommit₁ := commit_oneByOne ht hr hnever h₁ hl₁ hempty hc hm table w
      have hcommit₂ := commit_oneByOne ht hr hnever h₂ hl₂ hempty hc hm table w
      rw [← hdelete] at hcommit₂
      cases hone : hr.oneByOne (delete₁.map Delete.rule) table (assignments columns values)
          (hr.state w) with
      | ok pair =>
        rw [hone] at hcommit₁ hcommit₂
        obtain ⟨l₁', w₁, hrun₁, hrows₁⟩ := hcommit₁
        obtain ⟨l₂', w₂, hrun₂, hrows₂⟩ := hcommit₂
        rw [hrun₁, hrun₂]
        exact ⟨rfl, hrows₁.trans hrows₂.symm, fun h => absurd h hempty,
          fun _ => ⟨pair.1, pair.2, rfl, hrows₁, rfl⟩⟩
      | error kind =>
        rw [hone] at hcommit₁ hcommit₂
        obtain ⟨e₁, l₁', w₁, hrun₁, hkind₁, hrows₁⟩ := hcommit₁
        obtain ⟨e₂, l₂', w₂, hrun₂, hkind₂, hrows₂⟩ := hcommit₂
        rw [hrun₁, hrun₂]
        exact ⟨hkind₁.trans hkind₂.symm, hrows₁, hrows₂, fun _ _ => by rw [hkind₁]⟩
  · rw [commit_of_misaligned session hl₁ hc hm, commit_of_misaligned session hl₂ hc hm]
    exact ⟨rfl, rfl, rfl, fun _ h => absurd h hm⟩

/-- Three lines to load in batches of some size, and one to delete before. -/
def replacing (dialect : Dialect) (max : Nat) : Loader :=
  ⟨dialect, max, .accumulating #[.int 2, .int 20, .int 3, .null, .int 4, .int 40]
    (some ⟨"lines", .ofList [("id", .int 1)], dialect⟩), 0⟩

theorem commit_replacing_alike : ∃ counts w₁ w₂,
    ((replacing .postgres 1).commit Connection.session.uncancelled "lines" ["id", "qty"]
      .lines).1 = .ok counts ∧
    ((replacing .duckdb 2).commit Connection.session.uncancelled "lines" ["id", "qty"]
      .lines).1 = .ok counts ∧
    ((replacing .postgres 1).commit Connection.session.uncancelled "lines" ["id", "qty"]
      .lines).2.2 = w₁ ∧
    ((replacing .duckdb 2).commit Connection.session.uncancelled "lines" ["id", "qty"]
      .lines).2.2 = w₂ ∧
    Connection.view.rows w₁ = Connection.view.rows w₂ := by
  have h := commit_batching_invisible Connection.transactional.uncancelled Connection.rowwise
    (fun _ => rfl) (show 0 < (replacing .postgres 1).maxBatchSize by decide)
    (show 0 < (replacing .duckdb 2).maxBatchSize by decide) rfl rfl rfl "lines" ["id", "qty"]
    .lines
  have hok₁ : ((replacing .postgres 1).commit Connection.session.uncancelled "lines"
      ["id", "qty"] .lines).1.isOk = true := by decide +kernel
  have hok₂ : ((replacing .duckdb 2).commit Connection.session.uncancelled "lines"
      ["id", "qty"] .lines).1.isOk = true := by decide +kernel
  cases hrun₁ : (replacing .postgres 1).commit Connection.session.uncancelled "lines"
      ["id", "qty"] .lines with
  | mk result₁ rest₁ =>
    cases hrun₂ : (replacing .duckdb 2).commit Connection.session.uncancelled "lines"
        ["id", "qty"] .lines with
    | mk result₂ rest₂ =>
      rw [hrun₁] at hok₁ h
      rw [hrun₂] at hok₂ h
      cases result₁ with
      | error e => cases hok₁
      | ok counts₁ =>
        cases result₂ with
        | error e => cases hok₂
        | ok counts₂ =>
          obtain ⟨hcounts, hrows, -⟩ := h
          exact ⟨counts₁, _, _, rfl, by rw [hcounts], rfl, rfl, hrows⟩

/-- No line to load, and one to delete before. -/
def deleting : Loader :=
  ⟨.duckdb, 200, .accumulating #[] (some ⟨"lines", .ofList [("id", .int 1)], .duckdb⟩), 0⟩

/-- An empty buffer is not loaded as its rows one by one would be: its delete does not run. -/
theorem commit_deleting_nothing : ∃ t,
    deleting.commit Connection.session.uncancelled "lines" ["id", "qty"] .lines =
      (.ok ⟨"lines", 0, 0, 0, 2⟩, { deleting with stage := .spent }, .lines) ∧
    Connection.rowwise.oneByOne (some ("lines", .ofList [("id", .int 1)])) "lines"
      (assignments ["id", "qty"] #[]) (Connection.rowwise.state .lines) = .ok (1, t) ∧
    Connection.view.rows .lines "lines" ≠ Connection.rowwise.rows t "lines" := by
  have hone : (Connection.rowwise.oneByOne (some ("lines", .ofList [("id", .int 1)])) "lines"
      (assignments ["id", "qty"] #[]) (Connection.rowwise.state .lines)).toOption.map
      (fun pair => (pair.1, pair.2.rowsOf "lines")) = some (1, []) := by decide +kernel
  cases hrun : Connection.rowwise.oneByOne (some ("lines", .ofList [("id", .int 1)])) "lines"
      (assignments ["id", "qty"] #[]) (Connection.rowwise.state .lines) with
  | error e =>
    rw [hrun] at hone
    cases hone
  | ok pair =>
    rw [hrun] at hone
    obtain ⟨removed, t⟩ := pair
    obtain ⟨rfl, hrows⟩ := Prod.mk.inj (Option.some.inj hone)
    refine ⟨t, rfl, rfl, ?_⟩
    change Connection.lines.database.rowsOf "lines" ≠ t.rowsOf "lines"
    rw [hrows]
    decide +kernel

end TableLoad.Loader
