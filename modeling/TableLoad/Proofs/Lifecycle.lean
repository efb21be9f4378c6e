import TableLoad.Proofs.Alignment

namespace TableLoad.Loader

/-- A call on a loader. Every commit brings its own connection, and its own cancellation. -/
inductive Call (ω : Type)
  | addRow (row : List Value)
  | setDelete (delete : Delete)
  | commit (session : Session ω) (table : String) (columns : List String)

/-- What a call gives back; the counts are those of a commit. -/
abbrev Answer := Except LoadError (Option LoadCounts)

variable {ω : Type}

/-- Makes a call. -/
def call (l : Loader) (w : ω) : Call ω → Answer × Loader × ω
  | .addRow row =>
    match l.addRow row with
    | .ok l' => (.ok none, l', w)
    | .error e => (.error e, l, w)
  | .setDelete delete =>
    match l.setDelete delete with
    | .ok l' => (.ok none, l', w)
    | .error e => (.error e, l, w)
  | .commit session table columns =>
    ((l.commit session table columns w).1.map some, (l.commit session table columns w).2)

/-- Makes calls one after the other. -/
def calls (l : Loader) (w : ω) : List (Call ω) → List Answer × Loader × ω
  | [] => ([], l, w)
  | c :: cs =>
    let first := l.call w c
    let rest := calls first.2.1 first.2.2 cs
    (first.1 :: rest.1, rest.2)

theorem calls_append {l l' : Loader} {w w' : ω} {before : List (Call ω)} {answers : List Answer}
    (h : l.calls w before = (answers, l', w')) (after : List (Call ω)) :
    l.calls w (before ++ after) = (answers ++ (l'.calls w' after).1, (l'.calls w' after).2) := by
  induction before generalizing l w answers with
  | nil =>
    cases h
    rfl
  | cons c before ih =>
    simp only [calls, Prod.mk.injEq] at h
    obtain ⟨hanswers, hstate⟩ := h
    have hrest := ih (Prod.ext rfl hstate)
    rw [List.cons_append, calls, hrest, ← hanswers]
    rfl

section Gathered

def Call.row? : Call ω → Option (List Value)
  | .addRow row => some row
  | _ => none

def Call.delete? : Call ω → Option Delete
  | .setDelete delete => some delete
  | _ => none

/-- The values of all rows that calls have brought, in the order of the calls. -/
def buffered (cs : List (Call ω)) : List Value :=
  (cs.filterMap Call.row?).flatten

/-- The delete that calls have registered last. -/
def registered (cs : List (Call ω)) : Option Delete :=
  (cs.filterMap Call.delete?).getLast?

/-- A commit that finds whole rows behind the calls before it. -/
def Passes (before : List (Call ω)) : Call ω → Prop
  | .commit _ _ columns => columns ≠ [] ∧ (buffered before).length % columns.length = 0
  | _ => False

def NonePassed (cs : List (Call ω)) : Prop :=
  ∀ before c after, cs = before ++ c :: after → ¬ Passes before c

/-- What a call that does not pass as a commit is answered. -/
def waitingAnswer (before : List (Call ω)) : Call ω → Answer
  | .commit _ _ columns =>
    if columns = [] then .error .columnsNotProvided
    else .error (.misalignedBuffer (buffered before).length columns.length)
  | _ => .ok none

def waitingAnswers (before : List (Call ω)) : List (Call ω) → List Answer
  | [] => []
  | c :: cs => waitingAnswer before c :: waitingAnswers (before ++ [c]) cs

/-- A loader that has gathered what calls have brought. -/
def gathering (dialect : Dialect) (max : Nat) (cs : List (Call ω)) : Loader :=
  ⟨dialect, max, .accumulating (buffered cs).toArray (registered cs), 0⟩

theorem buffered_append (cs : List (Call ω)) (c : Call ω) :
    buffered (cs ++ [c]) = buffered cs ++ (c.row?.getD []) := by
  simp only [buffered, List.filterMap_append, List.flatten_append]
  cases hrow : c.row? <;> simp [hrow]

theorem registered_append (cs : List (Call ω)) (c : Call ω) :
    registered (cs ++ [c]) = c.delete?.or (registered cs) := by
  simp only [registered, List.filterMap_append]
  cases hdelete : c.delete? <;> simp [hdelete]

variable (dialect : Dialect) (max : Nat)

theorem gathering_nil : gathering dialect max ([] : List (Call ω)) = new dialect max := rfl

/-- A call before any commit has passed is taken in, or refused without a trace. -/
theorem call_gathering {before : List (Call ω)} {c : Call ω} (h : ¬ Passes before c) (w : ω) :
    (gathering dialect max before).call w c =
      (waitingAnswer before c, gathering dialect max (before ++ [c]), w) := by
  have hbuffer := buffered_append before c
  have hdelete := registered_append before c
  cases c with
  | addRow row =>
    have hvalues : (buffered before).toArray ++ row = (buffered before ++ row).toArray := by
      apply Array.toList_inj.mp
      rw [Array.toList_appendList]
    simp only [Call.row?, Option.getD_some, Call.delete?, Option.none_or] at hbuffer hdelete
    simp only [call, addRow, gathering, hbuffer, hdelete, hvalues, waitingAnswer]
  | setDelete delete =>
    simp only [Call.row?, Option.getD_none, List.append_nil, Call.delete?, Option.some_or]
      at hbuffer hdelete
    simp only [call, setDelete, gathering, hbuffer, hdelete, waitingAnswer]
  | commit session table columns =>
    simp only [Call.row?, Option.getD_none, List.append_nil, Call.delete?, Option.none_or]
      at hbuffer hdelete
    have hsame : gathering dialect max (before ++ [.commit session table columns]) =
        gathering dialect max before := by
      rw [gathering, gathering, hbuffer, hdelete]
    rw [hsame]
    have hl : (gathering dialect max before).stage =
      .accumulating (buffered before).toArray (registered before) := rfl
    by_cases hc : columns = []
    · subst hc
      rw [call, commit_of_no_column session hl]
      rfl
    · have hm : (buffered before).toArray.size % columns.length ≠ 0 := by
        rw [List.size_toArray]
        exact fun hm => h ⟨hc, hm⟩
      rw [call, commit_of_misaligned session hl hc hm, waitingAnswer, if_neg hc, List.size_toArray]
      rfl

theorem calls_gathering {cs : List (Call ω)} (before : List (Call ω))
    (h : ∀ early c late, cs = early ++ c :: late → ¬ Passes (before ++ early) c) (w : ω) :
    (gathering dialect max before).calls w cs =
      (waitingAnswers before cs, gathering dialect max (before ++ cs), w) := by
  induction cs generalizing before with
  | nil => rw [List.append_nil]; rfl
  | cons c cs ih =>
    have hfirst : ¬ Passes before c := by
      have hnil := h [] c cs rfl
      rwa [List.append_nil] at hnil
    have hrest : ∀ early d late, cs = early ++ d :: late →
        ¬ Passes (before ++ [c] ++ early) d := by
      intro early d late hcs
      rw [List.append_assoc, List.singleton_append]
      exact h (c :: early) d late (by rw [hcs, List.cons_append])
    rw [calls, call_gathering dialect max hfirst]
    simp only [ih (before ++ [c]) hrest, waitingAnswers, List.append_assoc, List.singleton_append]

end Gathered

section Spent

theorem call_spent {l : Loader} (hl : l.stage = .spent) (w : ω) (c : Call ω) :
    l.call w c = (.error .loaderSpent, l, w) := by
  cases c with
  | addRow row => simp only [call, addRow, hl]
  | setDelete delete => simp only [call, setDelete, hl]
  | commit session table columns =>
    simp only [call, commit, hl]
    rfl

theorem calls_spent {l : Loader} (hl : l.stage = .spent) (w : ω) (cs : List (Call ω)) :
    l.calls w cs = (cs.map fun _ => .error .loaderSpent, l, w) := by
  induction cs with
  | nil => rfl
  | cons c cs ih =>
    rw [calls, call_spent hl]
    simp only [ih, List.map_cons]

/-- Whatever an accepted commit comes to, it uses the loader up. -/
theorem commit_spends (session : Session ω) {l : Loader} {values : Array Value}
    {delete : Option Delete} (hl : l.stage = .accumulating values delete) {columns : List String}
    (hc : columns ≠ []) (hm : values.size % columns.length = 0) (table : String) (w : ω) :
    (l.commit session table columns w).2.1.stage = .spent := by
  by_cases hp : Batch.partition (values.size / columns.length) l.maxBatchSize = []
  · rw [commit_of_no_batch hl hc hm hp]
  · rw [commit_of_batches hl hc hm hp]

end Spent

/-- The first commit that passes, if one does, splits the calls. -/
theorem nonePassed_or_split (cs : List (Call ω)) : NonePassed cs ∨
    ∃ before session table columns after, cs = before ++ .commit session table columns :: after ∧
      NonePassed before ∧ columns ≠ [] ∧ (buffered before).length % columns.length = 0 := by
  induction cs using List.reverseRecOn with
  | nil => exact Or.inl fun before c after h => by simp at h
  | append_singleton cs c ih =>
    rcases ih with hnone | ⟨before, session, table, columns, after, rfl, hnone, hc, hm⟩
    · by_cases hpass : Passes cs c
      · cases c with
        | commit session table columns =>
          exact Or.inr ⟨cs, session, table, columns, [], rfl, hnone, hpass.1, hpass.2⟩
        | addRow row => exact hpass.elim
        | setDelete delete => exact hpass.elim
      · refine Or.inl fun before d after h => ?_
        rcases List.eq_nil_or_concat after with rfl | ⟨after', e, rfl⟩
        · obtain ⟨rfl, hcd⟩ := List.append_inj' h rfl
          rw [List.singleton_inj] at hcd
          rwa [← hcd]
        · have h' : cs ++ [c] = (before ++ d :: after') ++ [e] := by simpa using h
          exact hnone before d after' (List.append_inj' h' rfl).1
    · exact Or.inr ⟨before, session, table, columns, after ++ [c], by simp, hnone, hc, hm⟩

/-- Whatever calls are made in whatever order: while no commit has passed the checks, rows and
deletes are taken in, commits are refused without a trace, and the database is not touched. The
first commit that passes works on the rows of all calls before it in their order and on the last
delete of them; then the loader is spent, and every later call is refused and changes neither it
nor the database. -/
theorem calls_lifecycle (dialect : Dialect) (max : Nat) (cs : List (Call ω)) (w : ω) :
    (NonePassed cs ∧ (new dialect max).calls w cs =
      (waitingAnswers [] cs, gathering dialect max cs, w)) ∨
    ∃ before session table columns after, cs = before ++ .commit session table columns :: after ∧
      NonePassed before ∧ columns ≠ [] ∧ (buffered before).length % columns.length = 0 ∧
      (new dialect max).calls w before =
        (waitingAnswers [] before, gathering dialect max before, w) ∧
      ∃ result l w', (gathering dialect max before).commit session table columns w =
          (result, l, w') ∧
        l.stage = .spent ∧ l.pending = 0 ∧
        (new dialect max).calls w cs =
          (waitingAnswers [] before ++ result.map some :: after.map fun _ => .error .loaderSpent,
            l, w') ∧
        ∃ inserts ran, (0 < max → inserts.flatMap Insert.values = buffered before) ∧
          (gathering dialect max before).commit session.recorded table columns (w, []) =
            (result, l, w', ran) ∧
          ran <+: plan (registered before) inserts ∧
          (inserts ≠ [] → result.isOk = true → ran = plan (registered before) inserts) := by
  rcases nonePassed_or_split cs with hnone | ⟨before, session, table, columns, after, hcs, hnone,
    hc, hm⟩
  · have hrun := calls_gathering dialect max [] (fun early c late h => hnone early c late h) w
    exact Or.inl ⟨hnone, hrun⟩
  · have hrun := calls_gathering dialect max []
      (fun early c late h => hnone early c late h) w
    have hl : (gathering dialect max before).stage =
      .accumulating (buffered before).toArray (registered before) := rfl
    have hm' : (buffered before).toArray.size % columns.length = 0 := by
      rwa [List.size_toArray]
    have hspent := commit_spends session hl hc hm' table w
    obtain ⟨ran, hran, hrec, -, hall⟩ := commit_recorded session hl hc hm' table w
    have hv : (buffered before).length =
        (Batch.partition ((buffered before).toArray.size / columns.length) max).sum *
          columns.length ∨ max = 0 := by
      by_cases hmax : max = 0
      · exact Or.inr hmax
      · left
        rw [Batch.partition_sum _ (Nat.pos_of_ne_zero hmax), Nat.mul_comm]
        exact (Nat.mul_div_cancel' (Nat.dvd_of_mod_eq_zero hm)).symm
    cases hcommit : (gathering dialect max before).commit session table columns w with
    | mk result rest =>
      obtain ⟨l, w'⟩ := rest
      rw [hcommit] at hspent hrec hall
      change l.stage = .spent at hspent
      refine Or.inr ⟨before, session, table, columns, after, hcs, hnone, hc, hm, hrun, result, l, w',
        hcommit, hspent, ?_, ?_, _, ran, ?_, hrec, hran, ?_⟩
      · simp only [pending, hspent]
      · have hlast : (gathering dialect max before).call w (.commit session table columns) =
            (result.map some, l, w') := by
          rw [call, hcommit]
        rw [hcs, ← gathering_nil, calls_append hrun]
        simp only [List.nil_append, calls, hlast, calls_spent hspent]
      · intro hmax
        rw [Batch.statements_partition]
        exact Batch.flatMap_values_inserts _ _ _ (hv.resolve_right (by omega))
      · intro hne
        apply hall
        intro hp
        rw [hp] at hne
        exact hne rfl

/-- A delete and a row, the commit of both, and a row that comes too late. -/
def lateRow : List (Call Database.Connection) :=
  [.setDelete ⟨"lines", .ofList [("id", .int 1)], .duckdb⟩, .addRow [.int 2, .int 20],
    .commit Database.Connection.session "lines" ["id", "qty"], .addRow [.int 3, .int 30]]

/-- The commit succeeds. It has run the delete and inserted the one row that came before it. -/
theorem calls_lateRow : ∃ counts l w' inserts,
    (new .duckdb 200).calls .lines lateRow =
      ([.ok none, .ok none, .ok (some counts), .error .loaderSpent], l, w') ∧
    l.stage = .spent ∧ inserts.flatMap Insert.values = [.int 2, .int 20] ∧
    ((gathering .duckdb 200 (lateRow.take 2)).commit Database.Connection.session.recorded "lines"
        ["id", "qty"] (.lines, [])).2.2.2 =
      plan (some ⟨"lines", .ofList [("id", .int 1)], .duckdb⟩) inserts := by
  rcases calls_lifecycle .duckdb 200 lateRow .lines with ⟨hnone, -⟩ | ⟨before, session, table,
    columns, after, hcs, -, -, -, -, result, l, w', hcommit, hspent, -, hcalls, inserts, ran,
    hvalues, hrecorded, -, hall⟩
  · exact absurd ⟨by decide, by decide⟩ (hnone (lateRow.take 2) _ _ rfl)
  have hsplit : before = lateRow.take 2 ∧ session = Database.Connection.session ∧
      table = "lines" ∧ columns = ["id", "qty"] ∧ after = lateRow.drop 3 := by
    match before, hcs with
    | [], hcs | [_], hcs => simp [lateRow] at hcs
    | [_, _], hcs =>
      obtain ⟨rfl, rfl, ⟨rfl, rfl, rfl⟩, rfl⟩ := by simpa [lateRow] using hcs
      exact ⟨rfl, rfl, rfl, rfl, rfl⟩
    | _ :: _ :: _ :: early, hcs => cases early <;> simp [lateRow] at hcs
  obtain ⟨rfl, rfl, rfl, rfl, rfl⟩ := hsplit
  have hok : ((gathering .duckdb 200 (lateRow.take 2)).commit Database.Connection.session "lines"
      ["id", "qty"] .lines).1.isOk = true := by decide +kernel
  rw [hcommit] at hok
  cases result with
  | error e => cases hok
  | ok counts =>
    have hsome : inserts ≠ [] := by
      rintro rfl
      cases hvalues (by decide)
    refine ⟨counts, l, w', inserts, hcalls, hspent, hvalues (by decide), ?_⟩
    rw [hrecorded]
    exact hall hsome rfl

end TableLoad.Loader
