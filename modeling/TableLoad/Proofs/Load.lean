import TableLoad.Load
import TableLoad.Proofs.Commit
import TableLoad.Proofs.Outcomes
import TableLoad.Proofs.Reconciliation
import TableLoad.Record.Input

namespace TableLoad

theorem forall₂_through {α β γ : Type} {P : α → β → Prop} {Q : β → γ → Prop} {xs : List α}
    {ys : List β} {zs : List γ} (h : List.Forall₂ P xs ys) (h' : List.Forall₂ Q ys zs) :
    List.Forall₂ (fun x z => ∃ y, P x y ∧ Q y z) xs zs := by
  induction h generalizing zs with
  | nil =>
    cases h'
    exact .nil
  | cons hxy _ ih =>
    cases h' with
    | cons hyz hrest => exact .cons ⟨_, hxy, hyz⟩ (ih hrest)

theorem Loader.foldlM_addRow (rows : List Row) {l : Loader} {values : Array Value}
    {delete : Option Delete} (hl : l.stage = .accumulating values delete) :
    ∃ values', rows.foldlM (fun l row => l.addRow row) l =
        .ok { l with stage := .accumulating values' delete } ∧
      values'.toList = values.toList ++ rows.flatten := by
  induction rows generalizing l values with
  | nil => exact ⟨values, by rw [← hl]; rfl, by simp⟩
  | cons row rows ih =>
    have hadd : l.addRow row = .ok { l with stage := .accumulating (values ++ row) delete } := by
      simp only [addRow, hl]
    obtain ⟨values', hfold, hvalues⟩ :=
      ih (l := { l with stage := .accumulating (values ++ row) delete }) rfl
    refine ⟨values', ?_, by simpa using hvalues⟩
    rw [List.foldlM_cons, hadd]
    exact hfold

namespace LoadConfig

variable {ω R : Type} (config : LoadConfig)

/-- The delete that goes before the inserts. -/
def deleteFrom (table : String) : Option Delete :=
  config.delete.map fun rule => ⟨table, rule.conditions, config.dialect⟩

/-- What the delete leaves of some rows. -/
def remaining (view : Session.View ω R) (table : String) (rows : List R) : List R :=
  match config.deleteFrom table with
  | none => rows
  | some s => rows.filter fun row => !view.meets s row

end LoadConfig

namespace Load

open Session TwoPass Database

variable {ω σ R : Type} {session : Session ω} {view : View ω R} {source : Source σ}

/-- Reading touches nothing that the passing of time leaves alone. -/
theorem gather_keeps {α : Type} (f : ω → α) (hf : ∀ w, f (session.afterRead w) = f w)
    {policy : ErrorPolicy} {g : Gathered} {s s' : σ} {w w' : ω} {result : Except LoadError Gathered}
    (h : gather session source policy g s w = (result, s', w')) : f w' = f w := by
  fun_induction gather session source policy g s w
  case case1 =>
    cases h
    rfl
  case case2 | case5 | case7 =>
    cases h
    exact hf _
  case case3 ih | case4 ih | case6 ih => rw [ih h, hf]

theorem gather_rows (ht : session.Transactional view) {policy : ErrorPolicy} {g : Gathered}
    {s s' : σ} {w w' : ω} {result : Except LoadError Gathered}
    (h : gather session source policy g s w = (result, s', w')) : view.rows w' = view.rows w :=
  gather_keeps view.rows ht.afterRead h

/-- A reading that succeeds has taken in every record that was decoded. -/
theorem gather_ok {policy : ErrorPolicy} {g g' : Gathered} {s s' : σ} {w w' : ω}
    (h : gather session source policy g s w = (.ok g', s', w')) :
    g'.dataset = g.dataset.addAll (source.decoded s) := by
  fun_induction gather session source policy g s w
  case case1 | case5 | case7 => cases h
  case case2 hnext =>
    cases h
    rw [Source.decoded_of_end hnext]
    rfl
  -- a record is taken in, or passed over; its columns stay either way
  case case3 hnext _ _ hadd ih | case4 hnext _ _ _ _ hadd ih =>
    rw [ih h, Source.decoded_of_record hnext, Dataset.addAll_cons, hadd]
  case case6 hnext hd ih => rw [ih h, Source.decoded_of_dataError hnext hd.1]

theorem loaderFor_ok (config : LoadConfig) (table : String) (d : Dataset) :
    ∃ values, loaderFor config table d = .ok ⟨config.dialect, config.maxBatchSize,
        .accumulating values (config.deleteFrom table), 0⟩ ∧
      values.toList = d.values := by
  let loader : Loader :=
    ⟨config.dialect, config.maxBatchSize, .accumulating #[] (config.deleteFrom table), 0⟩
  obtain ⟨values, hfold, hvalues⟩ := Loader.foldlM_addRow d.rows.toList (l := loader) rfl
  refine ⟨values, ?_, by simpa [Dataset.values] using hvalues⟩
  rw [← hfold]
  simp only [loaderFor, loader, LoadConfig.deleteFrom]
  cases config.delete <;> rfl

/-- What a write makes of its table: nothing at all, or the rows of the dataset behind those that
the delete leaves. -/
theorem write_ok (ht : session.Transactional view) {config : LoadConfig} {table : String}
    {g : Gathered} {records : List Record} (hd : g.dataset.Reconciled records) {w w' : ω}
    {report : LoadReport} (h : write session config table g w = (.ok report, w')) :
    report.columns = g.dataset.columns.names ∧
      (g.dataset.rows.toList = [] ∨ config.maxBatchSize = 0 → w' = w) ∧
      (g.dataset.rows.toList ≠ [] → 0 < config.maxBatchSize →
        ∃ added, view.rows w' table = config.remaining view table (view.rows w table) ++ added ∧
          List.Forall₂ (fun row r => view.holds (report.columns.zip row) r)
            g.dataset.rows.toList added) := by
  obtain ⟨values, hloader, hvalues⟩ := loaderFor_ok config table g.dataset
  simp only [write, hloader] at h
  split at h
  · rename_i hempty
    have hnil : g.dataset.rows.toList = [] := by simpa [Dataset.isEmpty] using hempty
    cases h
    exact ⟨rfl, fun _ => rfl, fun hne => absurd hnil hne⟩
  · cases hcommit : Loader.commit session _ table g.dataset.columns.names w with
    | mk result rest =>
      rw [hcommit] at h
      cases result with
      | error e => cases h
      | ok counts =>
        cases h
        obtain ⟨hnone, hsome⟩ :=
          Loader.rows_of_commit ht rfl hvalues hd.length_eq_names hcommit
        refine ⟨rfl, hnone, fun hrows hmax => ?_⟩
        obtain ⟨w₁, added, hkept, hdelete, hadded, hholds⟩ := hsome hrows hmax
        rw [List.forall₂_map_left_iff] at hholds
        refine ⟨added, ?_, hholds⟩
        rw [hadded, LoadConfig.remaining]
        cases hdel : config.deleteFrom table with
        | none => rw [hkept hdel]
        | some s =>
          have htable : s.table = table := by
            obtain ⟨rule, -, rfl⟩ := Option.map_eq_some_iff.mp hdel
            rfl
          simp only [← htable, hdelete s hdel]

section Run

variable {destination : Destination} {table : String} {config : LoadConfig} {s s' : σ} {w w' : ω}

/-- A load stops without a table or its catalog, stops reading, or writes what it has read. -/
theorem run_cases (session : Session ω) (source : Source σ) (destination : Destination)
    (table : String) (config : LoadConfig) (s : σ) (w : ω) :
    (∃ e, run session source destination table config s w = (.error e, s, w)) ∨
    ∃ t catalog s' w', destination.resolve table = .ok t ∧ session.columnsOf t w = .ok catalog ∧
      ((∃ e, gather session source config.onError ⟨.new catalog config.mapping, 0, 0⟩ s w =
            (.error e, s', w') ∧
          run session source destination table config s w = (.error e, s', w')) ∨
        ∃ g, gather session source config.onError ⟨.new catalog config.mapping, 0, 0⟩ s w =
            (.ok g, s', w') ∧
          run session source destination table config s w =
            ((write session config t.qualified g w').1, s',
              (write session config t.qualified g w').2)) := by
  cases htable : destination.resolve table with
  | error e => exact Or.inl ⟨e, by simp [run, htable, bind, Except.bind]⟩
  | ok t =>
    cases hcatalog : session.columnsOf t w with
    | error e => exact Or.inl ⟨e, by simp [run, htable, hcatalog, bind, Except.bind]⟩
    | ok catalog =>
      cases hgather : gather session source config.onError ⟨.new catalog config.mapping, 0, 0⟩ s w
        with
      | mk result rest =>
        refine Or.inr ⟨t, catalog, rest.1, rest.2, rfl, hcatalog, ?_⟩
        cases result with
        | error e =>
          refine Or.inl ⟨e, hgather, ?_⟩
          simp [run, htable, hcatalog, hgather, bind, Except.bind, pure, Except.pure]
        | ok g =>
          refine Or.inr ⟨g, hgather, ?_⟩
          simp [run, htable, hcatalog, hgather, bind, Except.bind, pure, Except.pure]

theorem run_ok {report : LoadReport}
    (h : run session source destination table config s w = (.ok report, s', w')) :
    ∃ t catalog g w₁, destination.resolve table = .ok t ∧ session.columnsOf t w = .ok catalog ∧
      gather session source config.onError ⟨.new catalog config.mapping, 0, 0⟩ s w =
        (.ok g, s', w₁) ∧
      write session config t.qualified g w₁ = (.ok report, w') := by
  rcases run_cases session source destination table config s w with
    ⟨e', hrun⟩ | ⟨t, catalog, s₁, w₁, htable, hcatalog, ⟨e', hgather, hrun⟩ | ⟨g, hgather, hrun⟩⟩
  · rw [hrun] at h
    cases h
  · rw [hrun] at h
    cases h
  · rw [hrun, Prod.mk.injEq, Prod.mk.injEq] at h
    obtain ⟨hresult, rfl, hw⟩ := h
    exact ⟨t, catalog, g, w₁, htable, hcatalog, hgather, Prod.ext hresult hw⟩

end Run

/-- One order that fits and one that does not. -/
def orders : Input :=
  .records [.ofList [("id", .number (.int 3))], .ofList [("id", .string "four")]] 0

/-- What does not fit is passed over, and the first order is deleted. -/
def ordersConfig : LoadConfig :=
  { LoadConfig.default with
    onError := .skip
    delete := some ⟨.ofList [("id", .number (.int 1))], false⟩ }

end Load

end TableLoad
