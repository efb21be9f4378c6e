import TableLoad.Proofs.Accounting
import TableLoad.Proofs.Placeholder
import TableLoad.Proofs.Recorded

namespace TableLoad

namespace Delete

theorem conditions_eq_mapIdx (dialect : Dialect) (index : Nat) (columns : List String) :
    conditions dialect index columns =
      columns.mapIdx fun i c => c ++ " = " ++ dialect.placeholder (index + i) := by
  induction columns generalizing index with
  | nil => rfl
  | cons c columns ih =>
    rw [conditions, ih, List.mapIdx_cons]
    simp only [Nat.add_zero, Nat.add_assoc, Nat.add_comm 1]

/-- A delete says which rows go unless it has no filter. -/
theorem sql_eq_all_iff {s : Delete} : s.sql = "DELETE FROM " ++ s.table ↔ s.filter.keys = [] := by
  cases hkeys : s.filter.keys with
  | nil => simp [sql, hkeys, conditions]
  | cons c columns =>
    simp only [sql, hkeys, conditions, reduceCtorEq, iff_false]
    intro h
    have hlength := congrArg String.length h
    have hwhere : " WHERE ".length = 7 := rfl
    simp only [String.length_append, hwhere] at hlength
    omega

theorem sql_of_filter {s : Delete} (h : s.filter.keys ≠ []) :
    s.sql = "DELETE FROM " ++ s.table ++ " WHERE " ++
      " AND ".intercalate (conditions s.dialect 1 s.filter.keys) := by
  obtain ⟨c, columns, hkeys⟩ := List.exists_cons_of_ne_nil h
  simp only [sql, hkeys, conditions]

end Delete

namespace Job

theorem bind_eq_ok {ε α β : Type} {x : Except ε α} {f : α → Except ε β} {b : β} :
    (x >>= f) = .ok b ↔ ∃ a, x = .ok a ∧ f a = .ok b := by
  cases x <;> simp [bind, Except.bind]

theorem require_eq_ok {holds : Bool} {e : LoadError} {u : Unit} :
    require holds e = .ok u ↔ holds = true := by
  cases holds <;> simp [require]

theorem validateDelete_flags {r : DeleteRule} (h : validateDelete r = .ok ()) :
    r.truncate = true ↔ r.filter.keys = [] := by
  simp only [validateDelete, bind_eq_ok, require_eq_ok] at h
  obtain ⟨-, hone, -, hsome, -⟩ := h
  have hkeys : r.filter.isEmpty = true ↔ r.filter.keys = [] := by
    simp [Keyed.isEmpty, Keyed.keys]
  rw [← hkeys]
  cases ht : r.truncate <;> simp_all

/-- The delete of a job that makes sense makes sense. -/
theorem validateDelete_of_validate {j : Job} (h : j.validate = .ok ()) {r : DeleteRule}
    (hr : j.delete = some r) : validateDelete r = .ok () := by
  simp only [validate, bind_eq_ok, hr] at h
  obtain ⟨-, -, -, -, -, -, -, -, hdelete⟩ := h
  exact hdelete

end Job

/-- A delete of a table that does what a rule says. -/
structure DeleteRule.Followed (rule : DeleteRule) (table : String) (dialect : Dialect) (s : Delete) :
    Prop where
  /-- It has no condition exactly where all rows are to go. -/
  all_rows : s.sql = "DELETE FROM " ++ table ↔ rule.truncate = true
  /-- Otherwise it has a condition for every column of the filter, with the placeholders of the
  dialect in order. -/
  conditions : rule.truncate = false → rule.filter.keys ≠ [] ∧
    s.sql = "DELETE FROM " ++ table ++ " WHERE " ++ " AND ".intercalate
      (rule.filter.keys.mapIdx fun i c =>
        c ++ " = " ++ if dialect = .postgres then "$" ++ toString (i + 1) else "?")
  ascending : rule.filter.keys.Pairwise (· < ·)
  length_parameters : s.parameters.length = rule.filter.keys.length
  /-- The values are those of the columns, in the same order. -/
  parameters : ∀ (i : Nat) (c : String), rule.filter.keys[i]? = some c →
    ∃ v, rule.filter.find? c = some v ∧ s.parameters[i]? = some (Value.ofJson v)

theorem DeleteRule.followed {rule : DeleteRule} (h : rule.truncate = true ↔ rule.filter.keys = [])
    (table : String) (dialect : Dialect) :
    rule.Followed table dialect ⟨table, rule.conditions, dialect⟩ := by
  have hvalues : rule.conditions = rule.filterValues := by
    cases ht : rule.truncate with
    | false => rw [DeleteRule.conditions, ht, if_neg Bool.false_ne_true]
    | true =>
      have hnil : rule.filter.entries = [] := by simpa [Keyed.keys] using h.mp ht
      apply Keyed.ext
      simp [DeleteRule.conditions, ht, filterValues, Keyed.map, hnil, Keyed.empty]
  have hkeys : rule.conditions.keys = rule.filter.keys := by
    rw [hvalues, filterValues, Keyed.keys_map]
  have hparameters : rule.conditions.entries.map (·.2) =
      rule.filter.entries.map fun entry => Value.ofJson entry.2 := by
    simp [hvalues, filterValues, Keyed.map]
  constructor
  case all_rows => rw [Delete.sql_eq_all_iff, hkeys, h]
  case conditions =>
    intro ht
    have hsome : rule.filter.keys ≠ [] := fun hnil => by simp [h.mpr hnil] at ht
    refine ⟨hsome, ?_⟩
    rw [Delete.sql_of_filter (by rwa [hkeys]), hkeys, Delete.conditions_eq_mapIdx]
    simp only [← Placeholder.text_of, Placeholder.text_of_eq, Nat.add_comm 1]
  case ascending => exact rule.filter.keys_ascending
  case length_parameters =>
    rw [Delete.parameters, hparameters, List.length_map, Keyed.keys, List.length_map]
  case parameters =>
    intro i c hc
    obtain ⟨⟨column, v⟩, hentry, rfl⟩ := List.getElem?_map ▸ hc |> Option.map_eq_some_iff.mp
    refine ⟨v, Keyed.find?_eq_some.mpr (List.mem_of_getElem? hentry), ?_⟩
    rw [Delete.parameters, hparameters, List.getElem?_map, hentry, Option.map_some]

/-- What has run of a plan is a plan. -/
theorem Loader.prefix_plan {delete : Option Delete} {inserts : List Insert} {ran : List Statement}
    (h : ran <+: plan delete inserts) :
    ∃ delete' inserts', ran = plan delete' inserts' ∧ ∀ s, delete' = some s → delete = some s := by
  cases delete with
  | none =>
    obtain ⟨inserts', -, rfl⟩ := List.prefix_map_iff.mp h
    exact ⟨none, inserts', rfl, by simp⟩
  | some s =>
    rcases List.prefix_cons_iff.mp h with rfl | ⟨rest, rfl, hrest⟩
    · exact ⟨none, [], rfl, by simp⟩
    · obtain ⟨inserts', -, rfl⟩ := List.prefix_map_iff.mp hrest
      exact ⟨some s, inserts', rfl, fun _ h => h⟩

namespace Load

open Database

variable {ω σ : Type} {session : Session ω} {source : Source σ}

/-- Reading executes nothing. -/
theorem gather_executes {policy : ErrorPolicy} {g : Gathered} {s s' : σ} {w w' : ω}
    {result : Except LoadError Gathered}
    (h : gather session source policy g s w = (result, s', w')) (log : List Statement) :
    gather session.recorded source policy g s (w, log) = (result, s', w', log) := by
  have hcancelled (w : ω) : session.recorded.cancelled (w, log) = session.cancelled w := rfl
  fun_induction gather session source policy g s w
  case case1 hc =>
    cases h
    rw [gather_of_cancelled (by rwa [hcancelled])]
  case case2 hc s₁ hnext =>
    cases h
    exact gather_of_end (by simpa [hcancelled] using hc) hnext
  case case3 hc record s₁ hnext d _ hadd ih =>
    rw [gather_of_taken (by simpa [hcancelled] using hc) hnext hadd]
    exact ih h
  case case4 hc record s₁ hnext d _ e hpass hadd ih =>
    rw [Bool.and_eq_true, decide_eq_true_eq] at hpass
    rw [gather_of_misfit (by simpa [hcancelled] using hc) hnext hadd, if_pos hpass]
    exact ih h
  case case5 hc record s₁ hnext d e hstop hadd =>
    rw [Bool.and_eq_true, decide_eq_true_eq] at hstop
    cases h
    rw [gather_of_misfit (by simpa [hcancelled] using hc) hnext hadd, if_neg hstop]
    rfl
  case case6 hc e s₁ hnext hpass ih =>
    rw [gather_of_error (by simpa [hcancelled] using hc) hnext, if_pos hpass]
    exact ih h
  case case7 hc e s₁ hnext hstop =>
    cases h
    rw [gather_of_error (by simpa [hcancelled] using hc) hnext, if_neg hstop]
    rfl

/-- A write executes nothing, or what it has planned for its table as far as it comes. -/
theorem write_executes {g : Gathered} {records : List Record}
    (hd : g.dataset.Reconciled records) (session : Session ω) (config : LoadConfig)
    (table : String) (w : ω) :
    ∃ ran inserts, ran <+: Loader.plan (config.deleteFrom table) inserts ∧
      (∀ s ∈ inserts, s.table = table) ∧
      write session.recorded config table g (w, []) =
        ((write session config table g w).1, (write session config table g w).2, ran) := by
  by_cases hrows : g.dataset.rows.toList = []
  · refine ⟨[], [], List.nil_prefix, by simp, ?_⟩
    rw [write_of_no_row hrows, write_of_no_row hrows]
  by_cases hc : g.dataset.columns.names = []
  · refine ⟨[], [], List.nil_prefix, by simp, ?_⟩
    rw [write_of_no_column hrows hc, write_of_no_column hrows hc]
  obtain ⟨values, l, hsize, -, hl, hwrite⟩ := write_of_rows config table hd hrows hc
  have hm : values.size % g.dataset.columns.names.length = 0 := by rw [hsize, Nat.mul_mod_left]
  obtain ⟨ran, hran, hcommit, -⟩ := Loader.commit_recorded session hl hc hm table w
  rw [Batch.statements_partition] at hran
  refine ⟨ran, _, hran, fun s hs => (Batch.of_mem_inserts _ _ _ hs).1, ?_⟩
  rw [hwrite, hwrite, hcommit]

/-- A load executes nothing, or what it has planned for the table whose catalog it has, as far as it
comes. -/
theorem run_executes_into (session : Session ω) (source : Source σ) (destination : Destination)
    (table : String) (config : LoadConfig) (s : σ) (w : ω) :
    ∃ ran, run session.recorded source destination table config s (w, []) =
        ((run session source destination table config s w).1,
          (run session source destination table config s w).2.1,
          (run session source destination table config s w).2.2, ran) ∧
      (ran = [] ∨ ∃ t catalog inserts, destination.resolve table = .ok t ∧
        session.columnsOf t w = .ok catalog ∧ (∀ s ∈ inserts, s.table = t.qualified) ∧
        ran <+: Loader.plan (config.deleteFrom t.qualified) inserts) := by
  cases htable : destination.resolve table with
  | error e => exact ⟨[], by simp only [run, htable, bind, Except.bind], Or.inl rfl⟩
  | ok t =>
    cases hcatalog : session.columnsOf t w with
    | error e =>
      have hrecorded : session.recorded.columnsOf t (w, []) = .error e := hcatalog
      exact ⟨[], by simp only [run, htable, hcatalog, hrecorded, bind, Except.bind], Or.inl rfl⟩
    | ok catalog =>
      have hrecorded : session.recorded.columnsOf t (w, []) = .ok catalog := hcatalog
      rw [run_of_catalog htable hrecorded, run_of_catalog htable hcatalog]
      cases hgather : gather session source config.onError ⟨.new catalog config.mapping, 0, 0⟩ s w
        with
      | mk result rest =>
        rw [gather_executes hgather]
        cases result with
        | error e => exact ⟨[], rfl, Or.inl rfl⟩
        | ok g =>
          obtain ⟨ran, inserts, hran, hinto, hwrite⟩ :=
            write_executes (gather_reconciled hgather).1 session config t.qualified rest.2
          exact ⟨ran, by simp only [hwrite],
            Or.inr ⟨t, catalog, inserts, rfl, hcatalog, hinto, hran⟩⟩

theorem run_executes (session : Session ω) (source : Source σ) (destination : Destination)
    (table : String) (config : LoadConfig) (s : σ) (w : ω) :
    ∃ ran, run session.recorded source destination table config s (w, []) =
        ((run session source destination table config s w).1,
          (run session source destination table config s w).2.1,
          (run session source destination table config s w).2.2, ran) ∧
      (ran = [] ∨ ∃ t inserts, destination.resolve table = .ok t ∧
        ran <+: Loader.plan (config.deleteFrom t.qualified) inserts) := by
  obtain ⟨ran, hrun, hran⟩ := run_executes_into session source destination table config s w
  refine ⟨ran, hrun, hran.imp_right ?_⟩
  rintro ⟨t, -, inserts, htable, -, -, hplan⟩
  exact ⟨t, inserts, htable, hplan⟩

/-- The load of a job that makes sense executes at most one delete, before every insert. Without a
condition it is exactly where the job says that all rows go; otherwise it has the columns of the
job's filter, each once and in order, with the values that the job gives for them. -/
theorem run_deletes_as_told {job : Job} (hjob : job.validate = .ok ()) (session : Session ω)
    (source : Source σ) (destination : Destination) (s : σ) (w : ω) :
    ∃ (delete : Option Delete) (inserts : List Insert),
      run session.recorded source destination job.table (.ofJob job) s (w, []) =
        ((run session source destination job.table (.ofJob job) s w).1,
          (run session source destination job.table (.ofJob job) s w).2.1,
          (run session source destination job.table (.ofJob job) s w).2.2,
          delete.toList.map .delete ++ inserts.map .insert) ∧
      ∀ d, delete = some d → ∃ rule t, job.delete = some rule ∧
        destination.resolve job.table = .ok t ∧
        rule.Followed t.qualified job.dialect d := by
  obtain ⟨ran, hrun, hnothing | ⟨t, inserts, htable, hran⟩⟩ :=
    run_executes session source destination job.table (.ofJob job) s w
  · exact ⟨none, [], by rw [hrun, hnothing]; rfl, by simp⟩
  · obtain ⟨delete, inserts', rfl, hdelete⟩ := Loader.prefix_plan hran
    refine ⟨delete, inserts', hrun, fun d hd => ?_⟩
    obtain ⟨rule, hrule, rfl⟩ := Option.map_eq_some_iff.mp (hdelete d hd)
    have hflags := Job.validateDelete_flags (Job.validateDelete_of_validate hjob hrule)
    exact ⟨rule, t, hrule, htable, DeleteRule.followed hflags t.qualified job.dialect⟩

/-- Replaces the first order. -/
def ordersJob : Job :=
  { name := "orders", target := ⟨.duckdb, ":memory:", none⟩, table := "orders",
    maxBatchSize := 10, dialectOverride := some .postgres, mapping := .empty,
    delete := some ⟨.ofList [("id", .number (.int 1))], false⟩, onError := .skip }

theorem run_orders_deletes : ∃ (d : Delete) (inserts : List Insert) (rule : DeleteRule),
    (run Connection.session.recorded Input.source .inMemory "orders" (.ofJob ordersJob) orders
        (.orders, [])).2.2.2 = .delete d :: inserts.map .insert ∧
      ordersJob.delete = some rule ∧ rule.Followed "main.orders" .postgres d := by
  have hvalid : ordersJob.validate = .ok () := by decide +kernel
  obtain ⟨delete, inserts, hrun, htold⟩ := run_deletes_as_told hvalid Connection.session
    Input.source .inMemory orders .orders
  have hfirst : (run Connection.session.recorded Input.source .inMemory "orders"
      (.ofJob ordersJob) orders (.orders, [])).2.2.2.head? =
        some (.delete ⟨"main.orders", .ofList [("id", .int 1)], .postgres⟩) := by
    decide +kernel
  have hresolve : Destination.inMemory.resolve "orders" = .ok ⟨none, "main", "orders"⟩ := by
    decide +kernel
  change run Connection.session.recorded Input.source .inMemory "orders" _ _ _ = _ at hrun
  rw [hrun] at hfirst ⊢
  cases delete with
  | none => cases inserts <;> cases hfirst
  | some d =>
    obtain ⟨rule, t, hrule, ht, hfollowed⟩ := htold d rfl
    cases hresolve.symm.trans ht
    exact ⟨d, inserts, rule, rfl, hrule, hfollowed⟩

end Load

end TableLoad
