import TableLoad.Proofs.Commit
import TableLoad.Proofs.Placeholder

namespace TableLoad

/-- An error without the words of the database and the place of the batch. -/
def LoadError.kind : LoadError → LoadError
  | delete _ => delete ""
  | insertBatch .. => insertBatch 0 0 ""
  | transaction _ => transaction ""
  | e => e

/-- What a delete removes, without the dialect it is written in. -/
def Delete.rule (s : Delete) : String × Keyed Value :=
  (s.table, s.filter)

namespace Session

variable {ω R S : Type}

/-- A database for which a row is the same row in whatever statement it comes. Statements are read
by binding their placeholders. -/
structure Rowwise (session : Session ω) (view : View ω R) (S : Type) where
  /-- What statements see of the database, and change. -/
  state : ω → S
  rows : S → String → List R
  rows_state : ∀ w, view.rows w = rows (state w)
  /-- Puts one row into a table, given by its columns and their values; nothing if the row is
  refused. -/
  insertRow : (table : String) → List (String × Value) → S → Option S
  /-- Removes rows from a table and says how many; nothing if the conditions are refused. -/
  deleteRows : (table : String) → List (String × Value) → S → Option (Nat × S)
  begins : S → Bool
  commits : S → Bool
  begin : ∀ w, match session.begin w with
    | (.ok (), w') => begins (state w) = true ∧ state w' = state w
    | (.error _, _) => begins (state w) = false
  insert : ∀ {s : Insert} {tuples : List (List Value)} (w : ω), 0 < s.rows →
    s.values.length = s.rows * s.columns.length → s.bound = some tuples →
    match (tuples.map (s.columns.zip ·)).foldlM (fun t row => insertRow s.table row t)
      (state w) with
    | some t => ∃ w', session.execute (.insert s) w = (.ok s.rows, w') ∧ state w' = t
    | none => ∃ e w', session.execute (.insert s) w = (.error e, w')
  delete : ∀ {s : Delete} {conditions : List (String × Value)} (w : ω),
    s.bound = some conditions →
    match deleteRows s.table conditions (state w) with
    | some (n, t) => ∃ w', session.execute (.delete s) w = (.ok n, w') ∧ state w' = t
    | none => ∃ e w', session.execute (.delete s) w = (.error e, w')
  commit : ∀ w, (session.commit w).1.isOk = commits (state w)

namespace Rowwise

variable {session : Session ω} {view : View ω R} (hr : session.Rowwise view S)

def insertRows (table : String) (rows : List (List (String × Value))) (t : S) : Option S :=
  rows.foldlM (fun t row => hr.insertRow table row t) t

def deleteFirst (rule : Option (String × Keyed Value)) (t : S) : Option (Nat × S) :=
  match rule with
  | none => some (0, t)
  | some (table, filter) => hr.deleteRows table filter.entries t

/-- The delete and then row after row: how many rows are gone and what is there instead, or the
kind of the failure. -/
def statements (rule : Option (String × Keyed Value)) (table : String)
    (rows : List (List (String × Value))) (t : S) : Except LoadError (Nat × S) :=
  match hr.deleteFirst rule t with
  | none => .error (.delete "")
  | some (removed, t) =>
    match hr.insertRows table rows t with
    | none => .error (.insertBatch 0 0 "")
    | some t => .ok (removed, t)

/-- What one transaction comes to that runs the delete and then puts in row after row. -/
def oneByOne (rule : Option (String × Keyed Value)) (table : String)
    (rows : List (List (String × Value))) (t : S) : Except LoadError (Nat × S) :=
  if hr.begins t then
    match hr.statements rule table rows t with
    | .error kind => .error kind
    | .ok (removed, t) => if hr.commits t then .ok (removed, t) else .error (.transaction "")
  else .error (.transaction "")

theorem insertRows_append (table : String) (first rest : List (List (String × Value))) (t : S) :
    hr.insertRows table (first ++ rest) t =
      (hr.insertRows table first t).bind (hr.insertRows table rest) := by
  simp only [insertRows, List.foldlM_append]
  rfl

/-- What a column holds in a row that gives values for some columns. -/
def valueIn (declared : String → Value) (row : List (String × Value)) (name : String) : Value :=
  (row.lookup name).getD (declared name)

/-- A row for columns of the catalog that load, each once. -/
def Names (catalog : ColumnSet) (row : List (String × Value)) : Prop :=
  (row.map (·.1)).Nodup ∧ ∀ name ∈ row.map (·.1),
    ∃ c ∈ catalog.columns, c.name = name ∧ c.hasExpressionDefault = false

/-- Two rows that may come in place of one another, where the columns that neither names hold what
is declared. -/
def Alike (catalog : ColumnSet) (declared : String → Value) (row row' : List (String × Value)) :
    Prop :=
  Names catalog row ∧ Names catalog row' ∧
    ∀ name, valueIn declared row name = valueIn declared row' name

/-- A table that has the columns of a catalog in every state that is good, and fills a column that
a row does not name with its declared default. -/
structure Defaults (table : String) (catalog : ColumnSet) (declared : String → Value)
    (good : S → Prop) : Prop where
  insert_good : ∀ {row t t'}, good t → hr.insertRow table row t = some t' → good t'
  delete_good : ∀ {filter t n t'}, good t → hr.deleteRows table filter t = some (n, t') → good t'
  insert_eq : ∀ {row row' t}, good t → Alike catalog declared row row' →
    hr.insertRow table row t = hr.insertRow table row' t

variable {hr} {table : String} {catalog : ColumnSet} {declared : String → Value} {good : S → Prop}

/-- Rows that come to the same values go in alike. -/
theorem Defaults.insertRows_congr (hd : hr.Defaults table catalog declared good)
    {rows rows' : List (List (String × Value))}
    (h : List.Forall₂ (Alike catalog declared) rows rows') {t : S} (ht : good t) :
    hr.insertRows table rows t = hr.insertRows table rows' t := by
  induction h generalizing t with
  | nil => rfl
  | cons hrow _ ih =>
    have hfirst := hd.insert_eq ht hrow
    simp only [insertRows, List.foldlM_cons, hfirst]
    cases hinsert : hr.insertRow table _ t with
    | none => rfl
    | some t' =>
      rw [← hfirst] at hinsert
      exact ih (hd.insert_good ht hinsert)

theorem Defaults.oneByOne_congr (hd : hr.Defaults table catalog declared good)
    {rows rows' : List (List (String × Value))}
    (h : List.Forall₂ (Alike catalog declared) rows rows') {t : S} (ht : good t)
    {rule : Option (String × Keyed Value)} (hrule : ∀ r ∈ rule, r.1 = table) :
    hr.oneByOne rule table rows t = hr.oneByOne rule table rows' t := by
  have hgood : ∀ {n t'}, hr.deleteFirst rule t = some (n, t') → good t' := by
    intro n t' hdelete
    cases rule with
    | none =>
      cases hdelete
      exact ht
    | some r =>
      have htable := hrule r rfl
      obtain ⟨name, filter⟩ := r
      subst htable
      exact hd.delete_good ht hdelete
  have hstatements : hr.statements rule table rows t = hr.statements rule table rows' t := by
    unfold statements
    cases hdelete : hr.deleteFirst rule t with
    | none => rfl
    | some pair => simp only [hd.insertRows_congr h (hgood hdelete)]
  rw [oneByOne, oneByOne, hstatements]

end Rowwise

end Session

namespace Loader

open Session

variable {ω R S : Type} {session : Session ω} {view : View ω R}

theorem runDelete_rowwise (hr : session.Rowwise view S)
    (hnever : ∀ w, session.cancelled w = false) (delete : Option Delete) (w : ω) :
    match hr.deleteFirst (delete.map Delete.rule) (hr.state w) with
    | some (n, t) => ∃ w', runDelete session delete w = (.ok n, w') ∧ hr.state w' = t
    | none => ∃ e w', runDelete session delete w = (.error (.delete e), w') := by
  cases delete with
  | none => exact ⟨w, rfl, rfl⟩
  | some s =>
    have hexec := hr.delete w s.bound_eq
    have hrule : hr.deleteFirst ((some s).map Delete.rule) (hr.state w) =
      hr.deleteRows s.table s.filter.entries (hr.state w) := rfl
    rw [hrule]
    cases hdelete : hr.deleteRows s.table s.filter.entries (hr.state w) with
    | none =>
      rw [hdelete] at hexec
      obtain ⟨e, w', he⟩ := hexec
      exact ⟨e, w', by simp [runDelete, hnever, he]⟩
    | some pair =>
      rw [hdelete] at hexec
      obtain ⟨w', he, hstate⟩ := hexec
      exact ⟨w', by simp [runDelete, hnever, he], hstate⟩

/-- Inserts into these columns that each have as many values as their rows need. -/
def Fit (table : String) (columns : List String) (inserts : List Insert) : Prop :=
  ∀ s ∈ inserts, s.table = table ∧ s.columns = columns ∧ 0 < s.rows ∧
    s.values.length = s.rows * s.columns.length

theorem fit_inserts (table : String) (columns : List String) (dialect : Dialect)
    {sizes : List Nat} {values : List Value} (hv : values.length = sizes.sum * columns.length)
    (hsizes : ∀ size ∈ sizes, 0 < size) :
    Fit table columns (Batch.inserts table columns dialect sizes values) := by
  induction sizes generalizing values with
  | nil =>
    intro s hs
    cases hs
  | cons size sizes ih =>
    have hsum : values.length = size * columns.length + sizes.sum * columns.length := by
      rw [hv, List.sum_cons, Nat.add_mul]
    intro s hs
    rcases List.mem_cons.mp hs with rfl | hs
    · refine ⟨rfl, rfl, hsizes size List.mem_cons_self, ?_⟩
      change (values.take (size * columns.length)).length = size * columns.length
      rw [List.length_take, hsum]
      omega
    · refine ih ?_ (fun r hr => hsizes r (List.mem_cons_of_mem _ hr)) s hs
      rw [List.length_drop, hsum, Nat.add_sub_cancel_left]

/-- However the rows are cut into inserts, they go in one by one. -/
theorem runInserts_rowwise (hr : session.Rowwise view S)
    (hnever : ∀ w, session.cancelled w = false) {table : String} {columns : List String}
    {inserts : List Insert} (hfit : Fit table columns inserts) (total done inserted : Nat) (w : ω) :
    match hr.insertRows table ((inserts.flatMap Insert.tuples).map (columns.zip ·))
      (hr.state w) with
    | some t => ∃ done' w', runInserts session total done inserted inserts w =
        (.ok (inserted + (inserts.map Insert.rows).sum), done', w') ∧ hr.state w' = t
    | none => ∃ batch e done' w', runInserts session total done inserted inserts w =
        (.error (.insertBatch batch total e), done', w') := by
  -- over the batches; the state after each is the one that its rows one by one lead to
  induction inserts generalizing done inserted w with
  | nil => exact ⟨done, w, rfl, rfl⟩
  | cons s rest ih =>
    obtain ⟨htable, hcolumns, hrows, hlength⟩ := hfit s List.mem_cons_self
    have hexec := hr.insert w hrows hlength (Insert.bound_eq hlength)
    rw [htable, hcolumns] at hexec
    rw [List.flatMap_cons, List.map_append, hr.insertRows_append]
    change (match hr.insertRows table (s.tuples.map (columns.zip ·)) (hr.state w) with
      | some t => ∃ w', session.execute (.insert s) w = (.ok s.rows, w') ∧ hr.state w' = t
      | none => ∃ e w', session.execute (.insert s) w = (.error e, w')) at hexec
    cases hfirst : hr.insertRows table (s.tuples.map (columns.zip ·)) (hr.state w) with
    | none =>
      rw [hfirst] at hexec
      obtain ⟨e, w', he⟩ := hexec
      rw [Option.bind_none]
      exact ⟨done + 1, e, done, w', by simp [runInserts, hnever, he]⟩
    | some t =>
      rw [hfirst] at hexec
      obtain ⟨w₁, he, rfl⟩ := hexec
      have hstep : runInserts session total done inserted (s :: rest) w =
          runInserts session total (done + 1) (inserted + s.rows) rest w₁ := by
        simp [runInserts, hnever, he]
      have hrest := ih (fun r hr => hfit r (List.mem_cons_of_mem _ hr)) (done + 1)
        (inserted + s.rows) w₁
      rw [Option.bind_some, hstep, List.map_cons, List.sum_cons, ← Nat.add_assoc]
      exact hrest

theorem runStatements_rowwise (hr : session.Rowwise view S)
    (hnever : ∀ w, session.cancelled w = false) {table : String} {columns : List String}
    {inserts : List Insert} (hfit : Fit table columns inserts) (delete : Option Delete) (w : ω) :
    match hr.statements (delete.map Delete.rule) table
      ((inserts.flatMap Insert.tuples).map (columns.zip ·)) (hr.state w) with
    | .ok (removed, t) => ∃ done w', runStatements session delete inserts w =
        (.ok (removed, (inserts.map Insert.rows).sum), done, w') ∧ hr.state w' = t
    | .error kind => ∃ e done w', runStatements session delete inserts w = (.error e, done, w') ∧
        e.kind = kind := by
  have hdel := runDelete_rowwise hr hnever delete w
  unfold Rowwise.statements
  cases hfirst : hr.deleteFirst (delete.map Delete.rule) (hr.state w) with
  | none =>
    rw [hfirst] at hdel
    obtain ⟨e, w₁, he⟩ := hdel
    exact ⟨.delete e, 0, w₁, by simp [runStatements, he], rfl⟩
  | some pair =>
    obtain ⟨removed, t₁⟩ := pair
    rw [hfirst] at hdel
    obtain ⟨w₁, hdelrun, rfl⟩ := hdel
    have hins := runInserts_rowwise hr hnever hfit inserts.length 0 0 w₁
    simp only
    cases hrest : hr.insertRows table ((inserts.flatMap Insert.tuples).map (columns.zip ·))
        (hr.state w₁) with
    | none =>
      rw [hrest] at hins
      obtain ⟨batch, e, done, w₂, he⟩ := hins
      exact ⟨.insertBatch batch inserts.length e, done, w₂,
        by simp [runStatements, hdelrun, he, Except.map], rfl⟩
    | some t₂ =>
      rw [hrest] at hins
      obtain ⟨done, w₂, hinsrun, hstate⟩ := hins
      exact ⟨done, w₂, by simp [runStatements, hdelrun, hinsrun, Except.map], hstate⟩

theorem transact_rowwise (hr : session.Rowwise view S)
    (hnever : ∀ w, session.cancelled w = false) {table : String} {columns : List String}
    {inserts : List Insert} (hfit : Fit table columns inserts) (delete : Option Delete) (w : ω) :
    match hr.oneByOne (delete.map Delete.rule) table
      ((inserts.flatMap Insert.tuples).map (columns.zip ·)) (hr.state w) with
    | .ok (removed, t) => ∃ done w₂ w', hr.state w₂ = t ∧ session.commit w₂ = (.ok (), w') ∧
        transact session delete inserts w =
          (.ok (removed, (inserts.map Insert.rows).sum), done, w')
    | .error kind => ∃ e done w', transact session delete inserts w = (.error e, done, w') ∧
        e.kind = kind := by
  have hbegins := hr.begin w
  unfold Rowwise.oneByOne
  cases hbegin : session.begin w with
  | mk result w₀ =>
    rw [hbegin] at hbegins
    cases result with
    | error e =>
      have hno : ¬ hr.begins (hr.state w) = true := by
        rw [Bool.not_eq_true]
        exact hbegins
      rw [if_neg hno]
      exact ⟨_, 0, w₀, by simp only [transact, hnever, hbegin]; rfl, rfl⟩
    | ok u =>
      obtain ⟨hyes, hstate⟩ := hbegins
      have hstatements := runStatements_rowwise hr hnever hfit delete w₀
      rw [hstate] at hstatements
      rw [if_pos hyes]
      cases hone : hr.statements (delete.map Delete.rule) table
          ((inserts.flatMap Insert.tuples).map (columns.zip ·)) (hr.state w) with
      | error kind =>
        rw [hone] at hstatements
        obtain ⟨e, done, w₁, hrun, hkind⟩ := hstatements
        exact ⟨e, done, session.rollback w₁, by simp [transact, hnever, hbegin, hrun], hkind⟩
      | ok pair =>
        obtain ⟨removed, t⟩ := pair
        rw [hone] at hstatements
        obtain ⟨done, w₂, hrun, rfl⟩ := hstatements
        have hcommits := hr.commit w₂
        simp only
        cases hcommit : session.commit w₂ with
        | mk result w₃ =>
          rw [hcommit] at hcommits
          cases result with
          | error e =>
            have hno : ¬ hr.commits (hr.state w₂) = true := by
              rw [← hcommits]
              exact Bool.false_ne_true
            rw [if_neg hno]
            exact ⟨_, done, w₃, by simp only [transact, hnever, hbegin, hrun, hcommit]; rfl, rfl⟩
          | ok u =>
            have hyes : hr.commits (hr.state w₂) = true := hcommits.symm
            rw [if_pos hyes]
            exact ⟨done, w₂, w₃, rfl, hcommit,
              by simp only [transact, hnever, hbegin, hrun, hcommit]; rfl⟩

/-- The rows of a buffer, each with the columns that it gives values for. -/
def assignments (columns : List String) (values : Array Value) : List (List (String × Value)) :=
  (Insert.split columns.length (values.size / columns.length) values.toList).map (columns.zip ·)

theorem partition_ne_nil {values : Array Value} (hsome : values ≠ #[]) {columns : List String}
    (hm : values.size % columns.length = 0) {max : Nat} (hmax : 0 < max) :
    Batch.partition (values.size / columns.length) max ≠ [] := by
  have hsize : 0 < values.size := Array.size_pos_iff.mpr hsome
  have hrows : values.size / columns.length * columns.length = values.size :=
    Nat.div_mul_cancel (Nat.dvd_of_mod_eq_zero hm)
  rw [ne_eq, Batch.partition_eq_nil, not_or]
  refine ⟨?_, Nat.ne_of_gt hmax⟩
  intro hzero
  rw [hzero, Nat.zero_mul] at hrows
  omega

/-- A commit of at least one row comes to what one row after the other comes to. -/
theorem commit_oneByOne (ht : session.Transactional view) (hr : session.Rowwise view S)
    (hnever : ∀ w, session.cancelled w = false) {l : Loader} (hmax : 0 < l.maxBatchSize)
    {values : Array Value} {delete : Option Delete}
    (hl : l.stage = .accumulating values delete) (hsome : values ≠ #[]) {columns : List String}
    (hc : columns ≠ []) (hm : values.size % columns.length = 0) (table : String) (w : ω) :
    match hr.oneByOne (delete.map Delete.rule) table (assignments columns values)
      (hr.state w) with
    | .ok (removed, t) => ∃ l' w', l.commit session table columns w =
        (.ok ⟨table, removed, values.size / columns.length, values.size / columns.length,
          columns.length⟩, l', w') ∧ view.rows w' = hr.rows t
    | .error kind => ∃ e l' w', l.commit session table columns w = (.error e, l', w') ∧
        e.kind = kind ∧ view.rows w' = view.rows w := by
  have hrows : values.size / columns.length * columns.length = values.size :=
    Nat.div_mul_cancel (Nat.dvd_of_mod_eq_zero hm)
  have hp := partition_ne_nil hsome hm hmax
  have hsum := Batch.partition_sum (values.size / columns.length) hmax
  have hfit : Fit table columns (Batch.inserts table columns l.dialect
      (Batch.partition (values.size / columns.length) l.maxBatchSize) values.toList) := by
    apply fit_inserts
    · rw [hsum, hrows, Array.length_toList]
    · exact fun size hmem => (Batch.mem_partition hmem).1
  have htx := transact_rowwise hr hnever hfit delete w
  rw [Batch.tuples_inserts, hsum] at htx
  rw [assignments]
  cases hone : hr.oneByOne (delete.map Delete.rule) table
      ((Insert.split columns.length (values.size / columns.length) values.toList).map
        (columns.zip ·)) (hr.state w) with
  | error kind =>
    rw [hone] at htx
    obtain ⟨e, done, w', hrun, hkind⟩ := htx
    have hcommit : ∃ l', l.commit session table columns w = (.error e, l', w') := by
      rw [commit_of_batches hl hc hm hp, hrun]
      exact ⟨_, rfl⟩
    obtain ⟨l', hcommit⟩ := hcommit
    exact ⟨e, l', w', hcommit, hkind, (commit_error ht hcommit).1⟩
  | ok pair =>
    rw [hone] at htx
    obtain ⟨done, w₂, w', hstate, hend, hrun⟩ := htx
    rw [Batch.rows_inserts, hsum] at hrun
    refine ⟨_, w', by rw [commit_of_batches hl hc hm hp, hrun]; rfl, ?_⟩
    rw [(ht.commit_ok hend).1, hr.rows_state, hstate]

end Loader

end TableLoad
