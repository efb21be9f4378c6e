import TableLoad.Proofs.DeclaredDefault
import TableLoad.Proofs.Trace

namespace TableLoad

namespace Load

open Session TwoPass Database

section Endings

variable {ω R S : Type} {session : Session ω} {view : View ω R} {hr : session.Rowwise view S}
  {table : String} {catalog : ColumnSet} {declared : String → Value} {good : S → Prop}

theorem loading_congr (hd : hr.Defaults table catalog declared good)
    {rows rows' : List (List (String × Value))}
    (h : List.Forall₂ (Rowwise.Alike catalog declared) rows rows') {names names' : List String}
    (hnames : rows ≠ [] → (names = [] ↔ names' = [])) {t : S} (ht : good t)
    {rule : Option (String × Keyed Value)} (hrule : ∀ r ∈ rule, r.1 = table) :
    loading hr rule table names rows t = loading hr rule table names' rows' t := by
  have hone := hd.oneByOne_congr h ht hrule
  cases h with
  | nil => rfl
  | cons hrow hrest =>
    have hiff := hnames (List.cons_ne_nil _ _)
    simp only [loading, hone, hiff, if_neg (List.cons_ne_nil _ _)]

theorem rows_addAll (catalog : ColumnSet) (mapping : FieldMap) (records : List Record) :
    ((Dataset.new catalog mapping).addAll records).columns =
        columns catalog mapping (keysOf records) ∧
      List.Forall₂ (fun record row =>
          IsRow catalog mapping (columns catalog mapping (keysOf records)) record.entries row)
        (survivors catalog mapping records)
        ((Dataset.new catalog mapping).addAll records).rows.toList := by
  obtain ⟨hrec, hc, hm⟩ := Dataset.Reconciled.addAll catalog mapping records
  have hcolumns := hrec.discovered.columns_eq
  have hrows := hrec.rows
  rw [hc, hm] at hcolumns
  simp only [hc, hm, hcolumns] at hrows
  exact ⟨hcolumns, hrows⟩

theorem assigned_eq_nil {mapping : FieldMap} {records : List Record}
    (h : survivors catalog mapping records = []) :
    assigned ((Dataset.new catalog mapping).addAll records) = [] := by
  have hrows := (rows_addAll catalog mapping records).2
  rw [h] at hrows
  rw [assigned, List.forall₂_nil_left_iff.mp hrows, List.map_nil]

theorem survivors_idem (catalog : ColumnSet) (mapping : FieldMap) (records : List Record) :
    survivors catalog mapping (survivors catalog mapping records) =
      survivors catalog mapping records :=
  List.filter_eq_self.mpr fun _ hrecord => List.of_mem_filter hrecord

theorem mem_of_mem_survivors {mapping : FieldMap} {records : List Record} :
    ∀ record ∈ survivors catalog mapping records, record ∈ records :=
  fun _ hrecord => List.mem_of_mem_filter hrecord

theorem assigned_filled (catalog : ColumnSet) (mapping : FieldMap) (declared : String → Value)
    (records : List Record) :
    List.Forall₂ (Rowwise.Alike catalog declared)
      (assigned ((Dataset.new catalog mapping).addAll records))
      ((assigned ((Dataset.new catalog mapping).addAll (survivors catalog mapping records))).map
        (· ++ fills catalog mapping (survivors catalog mapping records) records)) := by
  obtain ⟨hcolumns, hrows⟩ := rows_addAll catalog mapping records
  obtain ⟨hcolumns', hrows'⟩ := rows_addAll catalog mapping (survivors catalog mapping records)
  rw [survivors_idem] at hrows'
  have hkept := (List.forall₂_and_left _ _).mpr ⟨fun _ hrecord => hrecord, hrows⟩
  rw [assigned, assigned, hcolumns, hcolumns', List.map_map, List.forall₂_map_left_iff,
    List.forall₂_map_right_iff]
  refine (forall₂_through hkept.flip hrows').imp fun row row' hboth => ?_
  obtain ⟨record, ⟨hrecord, hrow⟩, hrow'⟩ := hboth
  exact alike_filled mem_of_mem_survivors declared hrecord hrow hrow'

/-- How a load of the records that fit ends when it also fills, in every row, the columns that
only the others led to. -/
def filledEnding (hr : session.Rowwise view S) (config : LoadConfig) (table : String)
    (catalog : ColumnSet) (outcomes : List (Except LoadError Record)) (t : S) :
    Except LoadError S :=
  match fatal? outcomes with
  | some e => .error e.kind
  | none =>
    let records := outcomes.filterMap Except.toOption
    let kept := survivors catalog config.mapping records
    loading hr ((config.deleteFrom table).map Delete.rule) table
      (columns catalog config.mapping (keysOf records)).names
      ((assigned ((Dataset.new catalog config.mapping).addAll kept)).map
        (· ++ fills catalog config.mapping kept records)) t

/-- The columns that only records led to which do not fit do not show: they are filled with what
they hold anyway, and they are not all the columns that there are. -/
structure Untraced (catalog : ColumnSet) (mapping : FieldMap) (declared : String → Value)
    (records : List Record) : Prop where
  fill : ∀ c ∈ traces catalog mapping (survivors catalog mapping records) records,
    declared c.name = c.fill
  columns : (columns catalog mapping (keysOf (survivors catalog mapping records))).names = [] →
    (TwoPass.columns catalog mapping (keysOf records)).names = []

theorem deleteFrom_rule (config : LoadConfig) (table : String) :
    ∀ r ∈ (config.deleteFrom table).map Delete.rule, r.1 = table := by
  intro r hmem
  obtain ⟨s, hs, rfl⟩ := Option.map_eq_some_iff.mp hmem
  obtain ⟨rule, -, rfl⟩ := Option.map_eq_some_iff.mp hs
  rfl

theorem ending_filled (hd : hr.Defaults table catalog declared good) (config : LoadConfig)
    (outcomes : List (Except LoadError Record)) {t : S} (ht : good t) :
    ending hr config table catalog outcomes t = filledEnding hr config table catalog outcomes t := by
  rw [ending, filledEnding]
  cases fatal? outcomes with
  | some e => rfl
  | none =>
    simp only
    rw [(rows_addAll catalog config.mapping _).1]
    exact loading_congr hd (assigned_filled catalog config.mapping declared _) (fun _ => Iff.rfl) ht
      (deleteFrom_rule config table)

/-- Outcomes that do not survive make no difference to the end of a load when what they leave
behind does not show. -/
theorem ending_survivors (hd : hr.Defaults table catalog declared good) {config : LoadConfig}
    {outcomes : List (Except LoadError Record)}
    (h : survivors catalog config.mapping (outcomes.filterMap Except.toOption) ≠ [] →
      Untraced catalog config.mapping declared (outcomes.filterMap Except.toOption))
    {t : S} (ht : good t) :
    ending hr config table catalog outcomes t =
      ending hr config table catalog (outcomes.filter (survives catalog config.mapping)) t := by
  rw [ending, ending, fatal?_survivors, decoded_survivors]
  cases fatal? outcomes with
  | some e => rfl
  | none =>
    simp only
    generalize outcomes.filterMap Except.toOption = records at h ⊢
    rw [(rows_addAll catalog config.mapping records).1,
      (rows_addAll catalog config.mapping (survivors catalog config.mapping records)).1]
    by_cases hnone : survivors catalog config.mapping records = []
    -- with no row to insert the columns do not matter
    · rw [loading, loading, if_pos (assigned_eq_nil hnone), hnone, if_pos (assigned_eq_nil rfl)]
    · have huntraced := h hnone
      have hfilled := assigned_filled catalog config.mapping declared records
      rw [List.forall₂_map_right_iff] at hfilled
      have halike := hfilled.imp fun _ _ => alike_unfilled huntraced.fill
      refine loading_congr hd halike (fun _ => ⟨fun hnil => ?_, huntraced.columns⟩) ht
        (deleteFrom_rule config table)
      apply List.eq_nil_iff_forall_not_mem.mpr
      intro name hname
      have hmem := mem_names_of_kept mem_of_mem_survivors hname
      rw [hnil] at hmem
      cases hmem

end Endings

/-- Two runs from one state both succeed and leave the same rows, or fail in the same way and leave
those that were there. -/
def EndAlike {ω R α β : Type} (view : View ω R) (w : ω) :
    Except LoadError α → ω → Except LoadError β → ω → Prop
  | .ok _, w₁, .ok _, w₂ => view.rows w₁ = view.rows w₂
  | .error e₁, w₁, .error e₂, w₂ =>
    e₁.kind = e₂.kind ∧ view.rows w₁ = view.rows w ∧ view.rows w₂ = view.rows w
  | _, _, _, _ => False

theorem Ends.alike {ω R S α β : Type} {session : Session ω} {view : View ω R}
    {hr : session.Rowwise view S} {w w₁ w₂ : ω} {ending : Except LoadError S}
    {result₁ : Except LoadError α} {result₂ : Except LoadError β}
    (h₁ : Ends hr w ending result₁ w₁) (h₂ : Ends hr w ending result₂ w₂) :
    EndAlike view w result₁ w₁ result₂ w₂ := by
  cases ending with
  | ok t =>
    obtain ⟨hok₁, hrows₁⟩ := h₁
    obtain ⟨hok₂, hrows₂⟩ := h₂
    cases result₁ with
    | error e => cases hok₁
    | ok a =>
      cases result₂ with
      | error e => cases hok₂
      | ok b => exact hrows₁.trans hrows₂.symm
  | error kind =>
    obtain ⟨hrows₁, e₁, rfl, hkind₁⟩ := h₁
    obtain ⟨hrows₂, e₂, rfl, hkind₂⟩ := h₂
    exact ⟨hkind₁.trans hkind₂.symm, hrows₁, hrows₂⟩

theorem EndAlike.isOk {ω R α β : Type} {view : View ω R} {w w₁ w₂ : ω}
    {result₁ : Except LoadError α} {result₂ : Except LoadError β}
    (h : EndAlike view w result₁ w₁ result₂ w₂) : result₁.isOk = result₂.isOk := by
  cases result₁ <;> cases result₂ <;> first | rfl | cases h

theorem EndAlike.rows {ω R α β : Type} {view : View ω R} {w w₁ w₂ : ω}
    {result₁ : Except LoadError α} {result₂ : Except LoadError β}
    (h : EndAlike view w result₁ w₁ result₂ w₂) : view.rows w₁ = view.rows w₂ := by
  cases result₁ with
  | ok a =>
    cases result₂ with
    | ok b => exact h
    | error e => cases h
  | error e =>
    cases result₂ with
    | ok b => cases h
    | error e' => exact h.2.1.trans h.2.2.symm

/-- A load that passes over the records that fail ends as one of the others would that fills, in
every row, the columns that only the failing ones led to. It ends as a load of the others alone
when these columns do not show. -/
theorem run_survivors {ω σ σ' R S : Type} {session : Session ω} {view : View ω R}
    (ht : session.Transactional view) (hr : session.Rowwise view S)
    (hread : ∀ w, hr.state (session.afterRead w) = hr.state w)
    (hcancelled : ∀ w w', session.cancelled w = session.cancelled w') (config : LoadConfig)
    (hskip : config.onError = .skip) (hmax : 0 < config.maxBatchSize) (destination : Destination)
    (table : String) (source : Source σ) (source' : Source σ') (s : σ) (s' : σ') (w : ω)
    (declared : String → Value) (good : S → Prop) (hgood : good (hr.state w))
    (h : ∀ t catalog, destination.resolve table = .ok t → session.columnsOf t w = .ok catalog →
      hr.Defaults t.qualified catalog declared good ∧
        source'.outcomes s' = (source.outcomes s).filter (survives catalog config.mapping)) :
    (∀ t catalog, destination.resolve table = .ok t → session.columnsOf t w = .ok catalog →
      session.cancelled w = false →
      Ends hr w
        (filledEnding hr config t.qualified catalog (source.outcomes s) (hr.state w))
        (run session source destination table config s w).1
        (run session source destination table config s w).2.2) ∧
    ((∀ t catalog, destination.resolve table = .ok t → session.columnsOf t w = .ok catalog →
      survivors catalog config.mapping (source.decoded s) ≠ [] →
        Untraced catalog config.mapping declared (source.decoded s)) →
      EndAlike view w (run session source destination table config s w).1
        (run session source destination table config s w).2.2
        (run session source' destination table config s' w).1
        (run session source' destination table config s' w).2.2) := by
  refine ⟨?_, ?_⟩
  · intro t catalog htable hcatalog hc
    obtain ⟨hd, -⟩ := h t catalog htable hcatalog
    rw [← ending_filled hd config (source.outcomes s) hgood]
    exact run_ends ht hr hread (fun w' => (hcancelled w' w).trans hc) hskip hmax htable hcatalog
      source s
  · intro huntraced
    cases htable : destination.resolve table with
    | error e => simp [EndAlike, run, htable, bind, Except.bind]
    | ok t =>
      cases hcatalog : session.columnsOf t w with
      | error e => simp [EndAlike, run, htable, hcatalog, bind, Except.bind]
      | ok catalog =>
        cases hc : session.cancelled w with
        | true =>
          -- cancelled from the start, neither run reads a record
          have hstop : ∀ {σ : Type} (source : Source σ) (s : σ),
              run session source destination table config s w =
                (.error (.cancelled CancelPoint.read.name), s, w) := by
            intro σ source s
            have hgather : gather session source config.onError
                ⟨.new catalog config.mapping, 0, 0⟩ s w =
                  (.error (.cancelled CancelPoint.read.name), s, w) := by
              rw [gather, if_pos hc]
            simp [run, htable, hcatalog, hgather, bind, Except.bind, pure, Except.pure]
          rw [hstop source s, hstop source' s']
          exact ⟨rfl, rfl, rfl⟩
        | false =>
          have hnever : ∀ w', session.cancelled w' = false :=
            fun w' => (hcancelled w' w).trans hc
          obtain ⟨hd, houtcomes⟩ := h t catalog htable hcatalog
          have hends := run_ends ht hr hread hnever hskip hmax htable hcatalog source s
          have hends' := run_ends ht hr hread hnever hskip hmax htable hcatalog source' s'
          rw [houtcomes, ← ending_survivors hd (huntraced t catalog htable hcatalog) hgood] at hends'
          exact hends.alike hends'

section Runs

/-- Loads records into a table and passes over those that fail. -/
def skipping (c : Connection) (table : String) (records : List Record) :
    Except LoadError LoadReport × Input × Connection :=
  run Connection.session.uncancelled Input.source .inMemory table
    { LoadConfig.default with onError := .skip } (.records records 0) c

def bareNote : Record :=
  .ofList [("id", .number (.int 3))]

/-- A note that does not fit: its number is none. -/
def lateNote : Record :=
  .ofList [("id", .string "four"), ("note", .string "late")]

def noteCatalog : ColumnSet :=
  ⟨Connection.noteColumns.map TableColumn.toColumn⟩

def lineCatalog : ColumnSet :=
  ⟨Connection.lineColumns.map TableColumn.toColumn⟩

theorem skipping_notes :
    (skipping .notes "notes" [bareNote, lateNote]).1.isOk = true ∧
    EndAlike Connection.view .notes (skipping .notes "notes" [bareNote, lateNote]).1
      (skipping .notes "notes" [bareNote, lateNote]).2.2 (skipping .notes "notes" [bareNote]).1
      (skipping .notes "notes" [bareNote]).2.2 := by
  refine ⟨by decide +kernel, ?_⟩
  have hresolve : Destination.inMemory.resolve "notes" = .ok ⟨none, "main", "notes"⟩ := by
    decide +kernel
  have hcolumns : Connection.session.uncancelled.columnsOf ⟨none, "main", "notes"⟩ .notes =
      .ok noteCatalog := by decide +kernel
  have hdistinct : (Connection.noteColumns.map fun c => Text.asciiLower c.name).Nodup := by
    decide +kernel
  have hdeclared : ∀ c ∈ Connection.noteColumns, c.toColumn.hasExpressionDefault = false →
      c.unnamedValue = c.storage.cast .null := by decide +kernel
  have hbare : survives noteCatalog .empty (.ok bareNote) = true := by decide +kernel
  have hlate : survives noteCatalog .empty (.ok lateNote) = false := by decide +kernel
  have hgood : (Connection.notes.database.table? "main.notes").map Table.columns =
      some Connection.noteColumns := by decide +kernel
  have hdefaults : Connection.rowwise.Defaults "main.notes" noteCatalog (fun _ => .null)
      (HasColumns "main.notes" Connection.noteColumns) :=
    Connection.defaults hdistinct (fun _ he => List.mem_map.mp he) hdeclared "main.notes"
  refine (run_survivors Connection.transactional.uncancelled Connection.rowwise (fun _ => rfl)
    (fun _ _ => rfl) { LoadConfig.default with onError := .skip } rfl (by decide) .inMemory "notes"
    Input.source Input.source (.records [bareNote, lateNote] 0) (.records [bareNote] 0) .notes
    (fun _ => .null) (HasColumns "main.notes" Connection.noteColumns) hgood ?_).2 ?_
  · intro t catalog ht hcatalog
    cases hresolve.symm.trans ht
    cases hcolumns.symm.trans hcatalog
    refine ⟨hdefaults, ?_⟩
    rw [Source.outcomes_records, Source.outcomes_records]
    change [.ok bareNote] =
      List.filter (survives noteCatalog .empty) [.ok bareNote, .ok lateNote]
    rw [List.filter_cons, if_pos hbare, List.filter_cons, hlate]
    rfl
  · intro t catalog ht hcatalog _
    cases hresolve.symm.trans ht
    cases hcolumns.symm.trans hcatalog
    rw [Source.decoded_records]
    exact ⟨by decide +kernel, by decide +kernel⟩

def plainLine : Record :=
  .ofList [("id", .number (.int 2))]

/-- A line that does not fit, for a quantity that others leave to its default. -/
def oddLine : Record :=
  .ofList [("id", .string "x"), ("qty", .number (.int 1))]

/-- A record that is passed over takes the declared default away from the others, and it gives a
column to a record that has none. -/
theorem skipping_lines_traced :
    ([plainLine, oddLine].map (accepts lineCatalog .empty) = [true, false] ∧
      [.empty, oddLine].map (accepts lineCatalog .empty) = [true, false]) ∧
    ¬ EndAlike Connection.view .lines (skipping .lines "lines" [plainLine, oddLine]).1
        (skipping .lines "lines" [plainLine, oddLine]).2.2
        (skipping .lines "lines" [plainLine]).1 (skipping .lines "lines" [plainLine]).2.2 ∧
    ¬ EndAlike Connection.view .lines (skipping .lines "lines" [.empty, oddLine]).1
        (skipping .lines "lines" [.empty, oddLine]).2.2
        (skipping .lines "lines" [.empty]).1 (skipping .lines "lines" [.empty]).2.2 := by
  refine ⟨by decide +kernel, fun h => ?_, fun h => ?_⟩
  · have hdiffer : Connection.view.rows (skipping .lines "lines" [plainLine, oddLine]).2.2
        "main.lines" ≠ Connection.view.rows (skipping .lines "lines" [plainLine]).2.2
        "main.lines" := by decide +kernel
    exact hdiffer (congrFun h.rows "main.lines")
  · have hdiffer : (skipping .lines "lines" [.empty, oddLine]).1.isOk ≠
        (skipping .lines "lines" [.empty]).1.isOk := by decide +kernel
    exact hdiffer h.isOk

end Runs

end Load

end TableLoad
