import TableLoad.Batch.Loader
import TableLoad.Proofs.Partition

namespace TableLoad

@[simp] theorem isOk_ok {ε α : Type} (a : α) : (Except.ok a : Except ε α).isOk = true := rfl

@[simp] theorem isOk_error {ε α : Type} (e : ε) : (Except.error e : Except ε α).isOk = false := rfl

theorem isOk_map {ε α β : Type} (f : α → β) (r : Except ε α) : (r.map f).isOk = r.isOk := by
  cases r <;> rfl

namespace Session

variable {ω R : Type}

/-- How the tables of a database look to the one who is connected to it. -/
structure View (ω R : Type) where
  /-- The rows of a table. -/
  rows : ω → String → List R
  /-- What the open transaction goes back to; none is open where there is nothing. -/
  saved : ω → Option (String → List R)
  /-- A row that a delete removes. -/
  meets : Delete → R → Bool
  /-- A row that holds these values in these columns, and was given no others. -/
  holds : List (String × Value) → R → Prop

/-- The table has the rows of a buffer behind those it had, each once and in order. -/
def View.Appends (view : View ω R) (table : String) (columns : List String) (values : List Value)
    (w w' : ω) : Prop :=
  ∃ (tuples : List (List Value)) (added : List R), tuples.flatten = values ∧
    (∀ tuple ∈ tuples, tuple.length = columns.length) ∧
    view.rows w' table = view.rows w table ++ added ∧
    List.Forall₂ view.holds (tuples.map (columns.zip ·)) added

/-- What a load relies on in a database. -/
structure Transactional (session : Session ω) (view : View ω R) : Prop where
  afterRead : ∀ w, view.rows (session.afterRead w) = view.rows w
  begin_ok : ∀ {w w'}, session.begin w = (.ok (), w') →
    view.rows w' = view.rows w ∧ view.saved w' = some (view.rows w)
  begin_error : ∀ {w w' e}, session.begin w = (.error e, w') →
    view.rows w' = view.rows w ∧ view.saved w' = view.saved w
  execute_saved : ∀ s w, view.saved (session.execute s w).2 = view.saved w
  delete_ok : ∀ {s w w' n}, session.execute (.delete s) w = (.ok n, w') →
    view.rows w' s.table = (view.rows w s.table).filter fun row => !view.meets s row
  insert_ok : ∀ {s w w' n}, session.execute (.insert s) w = (.ok n, w') →
    ∃ added, view.rows w' s.table = view.rows w s.table ++ added ∧
      List.Forall₂ view.holds (s.tuples.map (s.columns.zip ·)) added
  commit_ok : ∀ {w w'}, session.commit w = (.ok (), w') →
    view.rows w' = view.rows w ∧ view.saved w' = none
  commit_error : ∀ {w w' e rows}, session.commit w = (.error e, w') → view.saved w = some rows →
    view.rows w' = rows ∧ view.saved w' = none
  rollback : ∀ {w rows}, view.saved w = some rows →
    view.rows (session.rollback w) = rows ∧ view.saved (session.rollback w) = none

/-- Statements that succeed one after the other, with the numbers of rows that they report. -/
inductive Runs (session : Session ω) : List Statement → List Nat → ω → ω → Prop
  | nil (w : ω) : Runs session [] [] w w
  | cons {s : Statement} {n : Nat} {rest : List Statement} {ns : List Nat} {w w₁ w₂ : ω} :
      session.execute s w = (.ok n, w₁) → Runs session rest ns w₁ w₂ →
      Runs session (s :: rest) (n :: ns) w w₂

/-- A whole transaction that succeeds: deletes from `w₀` to `w₁`, then inserts to `w₂`. -/
structure Transaction (session : Session ω) (deletes inserts : List Statement)
    (removed inserted : List Nat) (w w₀ w₁ w₂ w' : ω) : Prop where
  begins : session.begin w = (.ok (), w₀)
  deletes : session.Runs deletes removed w₀ w₁
  inserts : session.Runs inserts inserted w₁ w₂
  commits : session.commit w₂ = (.ok (), w')

variable {session : Session ω} {view : View ω R}

/-- What inserts into one table append to it, row by row. -/
theorem Runs.rows_inserts (ht : session.Transactional view) {table : String}
    {columns : List String} {inserts : List Insert} {ns : List Nat} {w w' : ω}
    (h : session.Runs (inserts.map .insert) ns w w')
    (hs : ∀ s ∈ inserts, s.table = table ∧ s.columns = columns) :
    ∃ added, view.rows w' table = view.rows w table ++ added ∧
      List.Forall₂ view.holds ((inserts.flatMap Insert.tuples).map (columns.zip ·)) added := by
  induction inserts generalizing ns w with
  | nil =>
    cases h
    exact ⟨[], by simp, .nil⟩
  | cons s rest ih =>
    cases h with
    | cons hexec hrest =>
      obtain ⟨htable, hcolumns⟩ := hs s List.mem_cons_self
      obtain ⟨first, hfirst, hholds⟩ := ht.insert_ok hexec
      obtain ⟨more, hmore, hholds'⟩ := ih hrest fun t hm => hs t (List.mem_cons_of_mem _ hm)
      rw [htable] at hfirst
      rw [hcolumns] at hholds
      refine ⟨first ++ more, by rw [hmore, hfirst, List.append_assoc], ?_⟩
      rw [List.flatMap_cons, List.map_append]
      exact List.rel_append hholds hholds'

theorem Runs.rows_delete (ht : session.Transactional view) {s : Delete} {ns : List Nat} {w w' : ω}
    (h : session.Runs [.delete s] ns w w') :
    view.rows w' s.table = (view.rows w s.table).filter fun row => !view.meets s row := by
  cases h with
  | cons hexec hrest =>
    cases hrest
    exact ht.delete_ok hexec

end Session

namespace Loader

open Session

variable {ω R : Type} {session : Session ω} {view : View ω R}

theorem runDelete_ok {delete : Option Delete} {w w' : ω} {n : Nat}
    (h : runDelete session delete w = (.ok n, w')) :
    ∃ ns, session.Runs (delete.toList.map .delete) ns w w' ∧ n = ns.sum := by
  cases delete with
  | none =>
    simp only [runDelete, Prod.mk.injEq, Except.ok.injEq] at h
    obtain ⟨rfl, rfl⟩ := h
    exact ⟨[], .nil w, rfl⟩
  | some s =>
    simp only [runDelete] at h
    split at h
    · cases h
    · split at h
      · cases h
      · rename_i m w₁ hexec
        cases h
        exact ⟨[n], .cons hexec (.nil _), by simp⟩

theorem runInserts_ok {total done inserted : Nat} {inserts : List Insert} {w w' : ω}
    {n done' : Nat} (h : runInserts session total done inserted inserts w = (.ok n, done', w')) :
    ∃ ns, session.Runs (inserts.map .insert) ns w w' ∧ n = inserted + ns.sum := by
  induction inserts generalizing done inserted w with
  | nil =>
    simp only [runInserts, Prod.mk.injEq, Except.ok.injEq] at h
    obtain ⟨rfl, -, rfl⟩ := h
    exact ⟨[], .nil w, rfl⟩
  | cons s rest ih =>
    simp only [runInserts] at h
    split at h
    · cases h
    · split at h
      · cases h
      · rename_i m w₁ hexec
        obtain ⟨ns, hruns, hsum⟩ := ih h
        refine ⟨m :: ns, .cons hexec hruns, ?_⟩
        rw [hsum, List.sum_cons]
        omega

theorem runDelete_saved (ht : session.Transactional view) (delete : Option Delete) (w : ω) :
    view.saved (runDelete session delete w).2 = view.saved w := by
  cases delete with
  | none => rfl
  | some s =>
    have hexec := ht.execute_saved (.delete s) w
    simp only [runDelete]
    split
    · rfl
    · split <;> simp_all

/-- No statement touches what the transaction goes back to, whether it succeeds or fails. -/
theorem runInserts_saved (ht : session.Transactional view) (total done inserted : Nat)
    (inserts : List Insert) (w : ω) :
    view.saved (runInserts session total done inserted inserts w).2.2 = view.saved w := by
  induction inserts generalizing done inserted w with
  | nil => rfl
  | cons s rest ih =>
    have hexec := ht.execute_saved (.insert s) w
    simp only [runInserts]
    split
    · rfl
    · split
      · rename_i e w₁ he
        rwa [he] at hexec
      · rename_i n w₁ he
        rw [he] at hexec
        rw [ih, hexec]

theorem runStatements_saved (ht : session.Transactional view) (delete : Option Delete)
    (inserts : List Insert) (w : ω) :
    view.saved (runStatements session delete inserts w).2.2 = view.saved w := by
  have hdel := runDelete_saved ht delete w
  simp only [runStatements]
  split
  · rename_i e w₁ he
    rwa [he] at hdel
  · rename_i n w₁ he
    rw [he] at hdel
    rw [← hdel]
    exact runInserts_saved ht inserts.length 0 0 inserts w₁

theorem runStatements_ok {delete : Option Delete} {inserts : List Insert} {w w' : ω}
    {removed inserted done : Nat}
    (h : runStatements session delete inserts w = (.ok (removed, inserted), done, w')) :
    ∃ w₁ dels ins, session.Runs (delete.toList.map .delete) dels w w₁ ∧
      session.Runs (inserts.map .insert) ins w₁ w' ∧ removed = dels.sum ∧ inserted = ins.sum := by
  simp only [runStatements] at h
  split at h
  · cases h
  · rename_i n w₁ hdel
    obtain ⟨dels, hruns, hn⟩ := runDelete_ok hdel
    cases hins : runInserts session inserts.length 0 0 inserts w₁ with
    | mk result rest =>
      rw [hins] at h
      cases result with
      | error e => cases h
      | ok m =>
        obtain ⟨ins, hruns', hm⟩ := runInserts_ok hins
        cases h
        exact ⟨w₁, dels, ins, hruns, hruns', hn, by rw [hm, Nat.zero_add]⟩

/-- A transaction that fails, at whatever point and for whatever reason, leaves every table as it
was and is closed. -/
theorem transact_error (ht : session.Transactional view) {delete : Option Delete}
    {inserts : List Insert} {w w' : ω} {e : LoadError} {done : Nat}
    (h : transact session delete inserts w = (.error e, done, w')) :
    view.rows w' = view.rows w ∧ (view.saved w' = view.saved w ∨ view.saved w' = none) := by
  simp only [transact] at h
  split at h
  · cases h
    exact ⟨rfl, Or.inl rfl⟩
  · split at h
    · rename_i e₀ w₀ hbegin
      cases h
      obtain ⟨hrows, hsaved⟩ := ht.begin_error hbegin
      exact ⟨hrows, Or.inl hsaved⟩
    · rename_i w₀ hbegin
      have hsaved := (ht.begin_ok hbegin).2
      -- However far the statements got, the transaction still goes back to the tables of `w`.
      have hkeep := runStatements_saved ht delete inserts w₀
      split at h
      · rename_i e₁ done₁ w₁ hrun
        rw [hrun, hsaved] at hkeep
        cases h
        obtain ⟨hrows, hnone⟩ := ht.rollback hkeep
        exact ⟨hrows, Or.inr hnone⟩
      · rename_i counts done₁ w₁ hrun
        rw [hrun, hsaved] at hkeep
        split at h
        · rename_i e₁ w₂ hcommit
          cases h
          obtain ⟨hrows, hnone⟩ := ht.commit_error hcommit hkeep
          exact ⟨hrows, Or.inr hnone⟩
        · cases h

theorem transact_ok {delete : Option Delete} {inserts : List Insert} {w w' : ω}
    {removed inserted done : Nat}
    (h : transact session delete inserts w = (.ok (removed, inserted), done, w')) :
    ∃ w₀ w₁ w₂ dels ins, session.Transaction (delete.toList.map .delete) (inserts.map .insert)
      dels ins w w₀ w₁ w₂ w' ∧ removed = dels.sum ∧ inserted = ins.sum := by
  simp only [transact] at h
  split at h
  · cases h
  · split at h
    · cases h
    · rename_i w₀ hbegin
      split at h
      · cases h
      · rename_i counts done₁ w₂ hrun
        split at h
        · cases h
        · rename_i w₃ hcommit
          cases h
          obtain ⟨w₁, dels, ins, hdels, hins, hr, hi⟩ := runStatements_ok hrun
          exact ⟨w₀, w₁, w₂, dels, ins, ⟨hbegin, hdels, hins, hcommit⟩, hr, hi⟩

end Loader

end TableLoad
