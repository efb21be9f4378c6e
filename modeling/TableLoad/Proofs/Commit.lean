import TableLoad.Proofs.Connection

namespace TableLoad.Loader

open Session Database

variable {ω R : Type} {session : Session ω} {view : View ω R}

theorem commit_of_no_column (session : Session ω) {l : Loader} {values : Array Value}
    {delete : Option Delete} (hl : l.stage = .accumulating values delete) (table : String) (w : ω) :
    l.commit session table [] w = (.error .columnsNotProvided, l, w) := by
  simp [commit, hl]

theorem commit_of_misaligned (session : Session ω) {l : Loader} {values : Array Value}
    {delete : Option Delete} (hl : l.stage = .accumulating values delete) {columns : List String}
    (hc : columns ≠ []) (hm : values.size % columns.length ≠ 0) (table : String) (w : ω) :
    l.commit session table columns w =
      (.error (.misalignedBuffer values.size columns.length), l, w) := by
  simp [commit, hl, hc, hm]

theorem commit_refused {l : Loader} {columns : List String}
    (h : ∀ values delete, l.stage = .accumulating values delete →
      columns = [] ∨ values.size % columns.length ≠ 0) (table : String) (w : ω) :
    ∃ e, l.commit session table columns w = (.error e, l, w) := by
  cases hl : l.stage with
  | spent => exact ⟨_, by simp only [commit, hl]; rfl⟩
  | accumulating values delete =>
    by_cases hc : columns = []
    · subst hc
      exact ⟨_, commit_of_no_column session hl table w⟩
    · have hm : values.size % columns.length ≠ 0 := (h values delete hl).resolve_left hc
      exact ⟨_, commit_of_misaligned session hl hc hm table w⟩

section Accepted

variable {l : Loader} {values : Array Value} {delete : Option Delete} {columns : List String}

theorem commit_of_no_batch (hl : l.stage = .accumulating values delete) (hc : columns ≠ [])
    (hm : values.size % columns.length = 0)
    (hp : Batch.partition (values.size / columns.length) l.maxBatchSize = []) (table : String)
    (w : ω) : l.commit session table columns w =
      (.ok ⟨table, 0, values.size / columns.length, 0, columns.length⟩, { l with stage := .spent },
        w) := by
  simp [commit, hl, hc, hm, hp]

theorem commit_of_batches (hl : l.stage = .accumulating values delete) (hc : columns ≠ [])
    (hm : values.size % columns.length = 0)
    (hp : Batch.partition (values.size / columns.length) l.maxBatchSize ≠ []) (table : String)
    (w : ω) : l.commit session table columns w =
      let (result, done, w') := transact session delete (Batch.inserts table columns l.dialect
        (Batch.partition (values.size / columns.length) l.maxBatchSize) values.toList) w
      (result.map fun (removed, inserted) =>
          ⟨table, removed, values.size / columns.length, inserted, columns.length⟩,
        { l with stage := .spent, batchesInserted := l.batchesInserted + done }, w') := by
  cases hs : Batch.partition (values.size / columns.length) l.maxBatchSize with
  | nil => exact absurd hs hp
  | cons size sizes =>
    rw [← hs, ← Batch.statements_partition, hs]
    simp [commit, hl, hc, hm, hs]

end Accepted

theorem appends_of_inserts (ht : session.Transactional view) {table : String}
    {columns : List String} {dialect : Dialect} {values : List Value} {rows max : Nat}
    (hv : values.length = rows * columns.length) (hp : Batch.partition rows max ≠ [])
    {ns : List Nat} {w w' : ω}
    (h : session.Runs ((Batch.inserts table columns dialect (Batch.partition rows max)
      values).map .insert) ns w w') : view.Appends table columns values w w' := by
  obtain ⟨added, hadded, hholds⟩ := h.rows_inserts ht fun s hs => Batch.of_mem_inserts _ _ _ hs
  have hmax : 0 < max := by
    rw [ne_eq, Batch.partition_eq_nil] at hp
    omega
  rw [Batch.tuples_inserts, Batch.partition_sum rows hmax] at hholds
  exact ⟨Insert.split columns.length rows values, added, Insert.flatten_split hv,
    Insert.length_of_mem_split hv, hadded, hholds⟩

/-- A loader accepts a commit, or refuses it and changes nothing. -/
theorem commit_cases (l : Loader) (columns : List String) :
    (∃ values delete, l.stage = .accumulating values delete ∧ columns ≠ [] ∧
      values.size % columns.length = 0) ∨
    ∀ (session : Session ω) (table : String) (w : ω),
      ∃ e, l.commit session table columns w = (.error e, l, w) := by
  by_cases hacc : ∃ values delete, l.stage = .accumulating values delete ∧ columns ≠ [] ∧
      values.size % columns.length = 0
  · exact Or.inl hacc
  · refine Or.inr fun session table w => commit_refused (fun values delete hl => ?_) table w
    by_contra hc
    rw [not_or, not_not] at hc
    exact hacc ⟨values, delete, hl, hc.1, hc.2⟩

/-- A commit that fails leaves every table as it was and opens no transaction. -/
theorem commit_error (ht : session.Transactional view) {l l' : Loader} {table : String}
    {columns : List String} {w w' : ω} {e : LoadError}
    (h : l.commit session table columns w = (.error e, l', w')) :
    view.rows w' = view.rows w ∧ (view.saved w' = view.saved w ∨ view.saved w' = none) := by
  rcases commit_cases (ω := ω) l columns with ⟨values, delete, hl, hc, hm⟩ | hrefused
  · by_cases hp : Batch.partition (values.size / columns.length) l.maxBatchSize = []
    · rw [commit_of_no_batch hl hc hm hp] at h
      cases h
    · rw [commit_of_batches hl hc hm hp] at h
      cases hrun : transact session delete (Batch.inserts table columns l.dialect
          (Batch.partition (values.size / columns.length) l.maxBatchSize) values.toList) w with
      | mk result rest =>
        rw [hrun] at h
        cases result with
        | ok counts => cases h
        | error e' =>
          cases h
          exact transact_error ht hrun
  · obtain ⟨e', he⟩ := hrefused session table w
    rw [he] at h
    cases h
    exact ⟨rfl, Or.inl rfl⟩

/-- A commit that succeeds was accepted; it ran nothing, or one whole transaction. -/
theorem commit_ok {l l' : Loader} {table : String} {columns : List String} {w w' : ω}
    {counts : LoadCounts} (h : l.commit session table columns w = (.ok counts, l', w')) :
    ∃ values delete, l.stage = .accumulating values delete ∧ columns ≠ [] ∧
      values.size % columns.length = 0 ∧ counts.rows = values.size / columns.length ∧
      if Batch.partition counts.rows l.maxBatchSize = [] then w' = w
      else ∃ removed inserted w₀ w₁ w₂,
        session.Transaction (delete.toList.map .delete)
          ((Batch.inserts table columns l.dialect (Batch.partition counts.rows l.maxBatchSize)
            values.toList).map .insert) removed inserted w w₀ w₁ w₂ w' ∧
        counts.removed = removed.sum ∧ counts.inserted = inserted.sum := by
  rcases commit_cases (ω := ω) l columns with ⟨values, delete, hl, hc, hm⟩ | hrefused
  · refine ⟨values, delete, hl, hc, hm, ?_⟩
    by_cases hp : Batch.partition (values.size / columns.length) l.maxBatchSize = []
    · rw [commit_of_no_batch hl hc hm hp] at h
      cases h
      exact ⟨rfl, by rw [if_pos hp]⟩
    · rw [commit_of_batches hl hc hm hp] at h
      cases hrun : transact session delete (Batch.inserts table columns l.dialect
          (Batch.partition (values.size / columns.length) l.maxBatchSize) values.toList) w with
      | mk result rest =>
        rw [hrun] at h
        cases result with
        | error e => cases h
        | ok pair =>
          cases h
          obtain ⟨w₀, w₁, w₂, removed, inserted, htx, hr, hi⟩ := transact_ok hrun
          exact ⟨rfl, by rw [if_neg hp]; exact ⟨removed, inserted, w₀, w₁, w₂, htx, hr, hi⟩⟩
  · obtain ⟨e, he⟩ := hrefused session table w
    rw [he] at h
    cases h

/-- What a transaction over a buffer of whole rows makes of its table. -/
theorem rows_of_transaction (ht : session.Transactional view) {table : String}
    {columns : List String} {dialect : Dialect} {values : Array Value} {max : Nat}
    {delete : Option Delete} {removed inserted : List Nat} {w w₀ w₁ w₂ w' : ω}
    (hm : values.size % columns.length = 0)
    (hp : Batch.partition (values.size / columns.length) max ≠ [])
    (h : session.Transaction (delete.toList.map .delete)
      ((Batch.inserts table columns dialect (Batch.partition (values.size / columns.length) max)
        values.toList).map .insert) removed inserted w w₀ w₁ w₂ w') :
    (delete = none → view.rows w₁ = view.rows w) ∧
      (∀ s, delete = some s →
        view.rows w₁ s.table = (view.rows w s.table).filter fun row => !view.meets s row) ∧
      view.Appends table columns values.toList w₁ w' := by
  have hv : values.toList.length = values.size / columns.length * columns.length := by
    rw [Array.length_toList, Nat.mul_comm]
    exact (Nat.mul_div_cancel' (Nat.dvd_of_mod_eq_zero hm)).symm
  have hbegin := (ht.begin_ok h.begins).1
  have hcommit := (ht.commit_ok h.commits).1
  refine ⟨?_, ?_, ?_⟩
  · rintro rfl
    have hnil := h.deletes
    cases hnil
    exact hbegin
  · rintro s rfl
    rw [h.deletes.rows_delete ht, hbegin]
  · obtain ⟨tuples, added, hflat, hlen, hadded, hholds⟩ := appends_of_inserts ht hv hp h.inserts
    exact ⟨tuples, added, hflat, hlen, by rw [hcommit, hadded], hholds⟩

/-- What a commit that succeeds makes of its table, when the buffer was filled with rows of the
width of its columns. -/
theorem rows_of_commit (ht : session.Transactional view) {l l' : Loader} {values : Array Value}
    {delete : Option Delete} (hl : l.stage = .accumulating values delete)
    {rows : List (List Value)} (hv : values.toList = rows.flatten) {columns : List String}
    (hw : ∀ row ∈ rows, row.length = columns.length) {table : String} {w w' : ω}
    {counts : LoadCounts} (h : l.commit session table columns w = (.ok counts, l', w')) :
    (rows = [] ∨ l.maxBatchSize = 0 → w' = w) ∧
      (rows ≠ [] → 0 < l.maxBatchSize → ∃ w₁ added,
        (delete = none → view.rows w₁ = view.rows w) ∧
        (∀ s, delete = some s →
          view.rows w₁ s.table = (view.rows w s.table).filter fun row => !view.meets s row) ∧
        view.rows w' table = view.rows w₁ table ++ added ∧
        List.Forall₂ view.holds (rows.map (columns.zip ·)) added) := by
  obtain ⟨_, _, hl', hc, hm, hcounts, hrun⟩ := commit_ok h
  rw [hl] at hl'
  cases hl'
  have hwidth : 0 < columns.length := List.length_pos_iff.mpr hc
  have hrows : values.size / columns.length = rows.length := by
    rw [← Array.length_toList, hv, Insert.length_flatten hw]
    exact Nat.mul_div_cancel _ hwidth
  refine ⟨fun hnone => ?_, fun hsome hmax => ?_⟩
  · have hp : Batch.partition counts.rows l.maxBatchSize = [] := by
      rw [Batch.partition_eq_nil, hcounts, hrows]
      exact hnone.imp_left fun hnil => by rw [hnil, List.length_nil]
    rwa [if_pos hp] at hrun
  · have hp : Batch.partition (values.size / columns.length) l.maxBatchSize ≠ [] := by
      have hpos := List.length_pos_iff.mpr hsome
      rw [ne_eq, Batch.partition_eq_nil, hrows]
      omega
    rw [hcounts, if_neg hp] at hrun
    obtain ⟨removed, inserted, w₀, w₁, w₂, htx, -⟩ := hrun
    obtain ⟨hkept, hdelete, tuples, added, hflat, hwidths, hadded, hholds⟩ :=
      rows_of_transaction ht hm hp htx
    -- The values are those of `rows`, and so are the widths: there is one way only to cut them.
    have htuples : tuples = rows := Insert.eq_of_flatten_eq hwidth hwidths hw (hflat.trans hv)
    exact ⟨w₁, added, hkept, hdelete, hadded, htuples ▸ hholds⟩

/-- A commit is all or nothing: when it fails every table is as it was and no transaction is open;
when it succeeds and there are batches, one transaction ran the delete and then inserted every row
of the buffer once and in order; and where the checks pass but there is no batch, it succeeds
without running anything. -/
theorem commit_atomic (ht : session.Transactional view) (l : Loader) (table : String)
    (columns : List String) (w : ω) :
    (match l.commit session table columns w with
    | (.error _, _, w') =>
      view.rows w' = view.rows w ∧ (view.saved w = none → view.saved w' = none)
    | (.ok counts, _, w') =>
      ∃ values delete, l.stage = .accumulating values delete ∧
        counts.rows = values.size / columns.length ∧
        (Batch.partition counts.rows l.maxBatchSize ≠ [] →
          ∃ removed inserted w₀ w₁ w₂,
            session.Transaction (delete.toList.map .delete)
              ((Batch.inserts table columns l.dialect
                (Batch.partition counts.rows l.maxBatchSize) values.toList).map .insert)
              removed inserted w w₀ w₁ w₂ w' ∧
            counts.removed = removed.sum ∧ counts.inserted = inserted.sum ∧
            view.saved w' = none ∧
            (delete = none → view.rows w₁ = view.rows w) ∧
            (∀ s, delete = some s → view.rows w₁ s.table =
              (view.rows w s.table).filter fun row => !view.meets s row) ∧
            view.Appends table columns values.toList w₁ w')) ∧
      ∀ values delete, l.stage = .accumulating values delete → columns ≠ [] →
        values.size % columns.length = 0 →
        Batch.partition (values.size / columns.length) l.maxBatchSize = [] →
        l.commit session table columns w =
          (.ok ⟨table, 0, values.size / columns.length, 0, columns.length⟩,
            { l with stage := .spent }, w) := by
  refine ⟨?_, fun values delete hl hc hm hp => commit_of_no_batch hl hc hm hp table w⟩
  cases hcommit : l.commit session table columns w with
  | mk result rest =>
    obtain ⟨l', w'⟩ := rest
    cases result with
    | error e =>
      obtain ⟨hrows, hsaved⟩ := commit_error ht hcommit
      exact ⟨hrows, fun hnone => hsaved.elim (fun h => h.trans hnone) id⟩
    | ok counts =>
      obtain ⟨values, delete, hl, -, hm, hr, hrest⟩ := commit_ok hcommit
      refine ⟨values, delete, hl, hr, fun hp => ?_⟩
      rw [if_neg hp] at hrest
      obtain ⟨removed, inserted, w₀, w₁, w₂, htx, hrem, hins⟩ := hrest
      have hrows := htx
      rw [hr] at hrows hp
      exact ⟨removed, inserted, w₀, w₁, w₂, htx, hrem, hins, (ht.commit_ok htx.commits).2,
        rows_of_transaction ht hm hp hrows⟩

/-- Two more orders, in batches of one, and a delete of the first. -/
def orders : Loader :=
  ⟨.duckdb, 1, .accumulating #[.int 3, .int 4]
    (some ⟨"main.orders", .ofList [("id", .int 1)], .duckdb⟩), 0⟩

theorem commit_orders : ∃ counts l' w₁ w',
    orders.commit Connection.session "main.orders" ["id"] .orders = (.ok counts, l', w') ∧
      counts.rows = 2 ∧ w'.saved = none ∧
      Connection.view.rows w₁ "main.orders" =
        (Connection.view.rows .orders "main.orders").filter (fun row =>
          !Connection.view.meets ⟨"main.orders", .ofList [("id", .int 1)], .duckdb⟩ row) ∧
      Connection.view.Appends "main.orders" ["id"] [.int 3, .int 4] w₁ w' := by
  have h := (commit_atomic Connection.transactional orders "main.orders" ["id"] .orders).1
  have hok : (orders.commit Connection.session "main.orders" ["id"] .orders).1.isOk = true := by
    decide +kernel
  cases hcommit : orders.commit Connection.session "main.orders" ["id"] .orders with
  | mk result rest =>
    rw [hcommit] at h hok
    cases result with
    | error e => cases hok
    | ok counts =>
      obtain ⟨values, delete, hstage, hrows, hsome⟩ := h
      cases hstage
      have htwo : counts.rows = 2 := hrows
      have hbatches : Batch.partition counts.rows orders.maxBatchSize ≠ [] := by
        rw [htwo]
        decide
      obtain ⟨_, _, _, w₁, _, -, -, -, hsaved, -, hdelete, happends⟩ := hsome hbatches
      exact ⟨counts, rest.1, w₁, rest.2, rfl, htwo, Option.map_eq_none_iff.mp hsaved,
        hdelete _ rfl, happends⟩

end TableLoad.Loader
