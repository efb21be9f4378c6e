import TableLoad.Proofs.Commit

namespace TableLoad

/-- A session that also keeps every statement it was given to execute, a failing one included. -/
def Session.recorded {ω : Type} (session : Session ω) : Session (ω × List Statement) where
  cancelled p := session.cancelled p.1
  afterRead p := (session.afterRead p.1, p.2)
  columnsOf t p := session.columnsOf t p.1
  begin p := ((session.begin p.1).1, (session.begin p.1).2, p.2)
  execute s p := ((session.execute s p.1).1, (session.execute s p.1).2, p.2 ++ [s])
  commit p := ((session.commit p.1).1, (session.commit p.1).2, p.2)
  rollback p := (session.rollback p.1, p.2)

namespace Loader

variable {ω : Type} (session : Session ω)

def plan (delete : Option Delete) (inserts : List Insert) : List Statement :=
  delete.toList.map .delete ++ inserts.map .insert

theorem runDelete_recorded (delete : Option Delete) (w : ω) (log : List Statement) :
    ∃ ran, ran <+: delete.toList.map Statement.delete ∧
      runDelete session.recorded delete (w, log) =
        ((runDelete session delete w).1, (runDelete session delete w).2, log ++ ran) ∧
      ((runDelete session delete w).1.isOk = true → ran = delete.toList.map .delete) := by
  cases delete with
  | none => exact ⟨[], List.prefix_refl _, by simp [runDelete], fun _ => rfl⟩
  | some s =>
    have hcancelled : session.recorded.cancelled (w, log) = session.cancelled w := rfl
    have hrecord : session.recorded.execute (.delete s) (w, log) =
      ((session.execute (.delete s) w).1, (session.execute (.delete s) w).2, log ++ [.delete s]) :=
      rfl
    cases hc : session.cancelled w with
    | true =>
      refine ⟨[], List.nil_prefix, ?_, ?_⟩
      · simp [runDelete, hcancelled, hc]
      · intro hok
        simp [runDelete, hc] at hok
    | false =>
      refine ⟨[.delete s], List.prefix_refl _, ?_, fun _ => rfl⟩
      cases hexec : session.execute (.delete s) w with
      | mk result w₁ => cases result <;> simp [runDelete, hcancelled, hrecord, hc, hexec]

/-- Whatever stops the inserts, those that ran are the first ones. -/
theorem runInserts_recorded (total done inserted : Nat) (inserts : List Insert) (w : ω)
    (log : List Statement) :
    ∃ ran, ran <+: inserts.map Statement.insert ∧
      runInserts session.recorded total done inserted inserts (w, log) =
        ((runInserts session total done inserted inserts w).1,
          (runInserts session total done inserted inserts w).2.1,
          (runInserts session total done inserted inserts w).2.2, log ++ ran) ∧
      ((runInserts session total done inserted inserts w).1.isOk = true →
        ran = inserts.map .insert) := by
  induction inserts generalizing done inserted w log with
  | nil => exact ⟨[], List.prefix_refl _, by simp [runInserts], fun _ => rfl⟩
  | cons s rest ih =>
    have hcancelled : session.recorded.cancelled (w, log) = session.cancelled w := rfl
    have hrecord : session.recorded.execute (.insert s) (w, log) =
      ((session.execute (.insert s) w).1, (session.execute (.insert s) w).2, log ++ [.insert s]) :=
      rfl
    cases hc : session.cancelled w with
    | true =>
      refine ⟨[], List.nil_prefix, ?_, ?_⟩
      · simp [runInserts, hcancelled, hc]
      · intro hok
        simp [runInserts, hc] at hok
    | false =>
      cases hexec : session.execute (.insert s) w with
      | mk result w₁ =>
        cases result with
        | error e =>
          refine ⟨[Statement.insert s], ?_, ?_, ?_⟩
          · rw [List.map_cons]
            exact List.prefix_append [Statement.insert s] _
          · simp [runInserts, hcancelled, hrecord, hc, hexec]
          · intro hok
            simp [runInserts, hc, hexec] at hok
        | ok n =>
          obtain ⟨ran, hran, hrun, hall⟩ := ih (done + 1) (inserted + n) w₁ (log ++ [.insert s])
          have hplain : runInserts session total done inserted (s :: rest) w =
              runInserts session total (done + 1) (inserted + n) rest w₁ := by
            simp [runInserts, hc, hexec]
          have hstep : runInserts session.recorded total done inserted (s :: rest) (w, log) =
              runInserts session.recorded total (done + 1) (inserted + n) rest
                (w₁, log ++ [.insert s]) := by
            simp [runInserts, hcancelled, hrecord, hc, hexec]
          refine ⟨.insert s :: ran, ?_, ?_, ?_⟩
          · rw [List.map_cons]
            exact List.cons_prefix_cons.mpr ⟨rfl, hran⟩
          · rw [hstep, hplain, hrun, List.append_assoc, List.singleton_append]
          · intro hok
            rw [hplain] at hok
            rw [hall hok, List.map_cons]

theorem runStatements_recorded (delete : Option Delete) (inserts : List Insert) (w : ω)
    (log : List Statement) :
    ∃ ran, ran <+: plan delete inserts ∧
      runStatements session.recorded delete inserts (w, log) =
        ((runStatements session delete inserts w).1, (runStatements session delete inserts w).2.1,
          (runStatements session delete inserts w).2.2, log ++ ran) ∧
      ((runStatements session delete inserts w).1.isOk = true → ran = plan delete inserts) := by
  obtain ⟨dels, hdels, hdelrun, hdelall⟩ := runDelete_recorded session delete w log
  cases hdel : runDelete session delete w with
  | mk result w₁ =>
    rw [hdel] at hdelrun hdelall
    cases result with
    | error e =>
      refine ⟨dels, hdels.trans (List.prefix_append _ _), ?_, ?_⟩
      · simp [runStatements, hdelrun, hdel]
      · intro hok
        simp [runStatements, hdel] at hok
    | ok removed =>
      have hfull := hdelall rfl
      obtain ⟨ran, hran, hrun, hall⟩ :=
        runInserts_recorded session inserts.length 0 0 inserts w₁ (log ++ dels)
      have hok : (runStatements session delete inserts w).1.isOk =
          (runInserts session inserts.length 0 0 inserts w₁).1.isOk := by
        simp only [runStatements, hdel, isOk_map]
      refine ⟨dels ++ ran, ?_, ?_, ?_⟩
      · rw [hfull]
        exact (List.prefix_append_right_inj _).mpr hran
      · simp only [runStatements, hdelrun, hdel, hrun, List.append_assoc]
      · intro h
        rw [hok] at h
        rw [hfull, hall h, plan]

theorem transact_recorded (delete : Option Delete) (inserts : List Insert) (w : ω) :
    ∃ ran, ran <+: plan delete inserts ∧
      transact session.recorded delete inserts (w, []) =
        ((transact session delete inserts w).1, (transact session delete inserts w).2.1,
          (transact session delete inserts w).2.2, ran) ∧
      ((transact session delete inserts w).1.isOk = true → ran = plan delete inserts) := by
  have hcancelled : session.recorded.cancelled (w, []) = session.cancelled w := rfl
  have hrecord : session.recorded.begin (w, []) =
    ((session.begin w).1, (session.begin w).2, []) := rfl
  cases hc : session.cancelled w with
  | true =>
    refine ⟨[], List.nil_prefix, ?_, ?_⟩
    · simp [transact, hcancelled, hc]
    · intro hok
      simp [transact, hc] at hok
  | false =>
    cases hbegin : session.begin w with
    | mk result w₀ =>
      cases result with
      | error e =>
        refine ⟨[], List.nil_prefix, ?_, ?_⟩
        · simp [transact, hcancelled, hrecord, hc, hbegin]
        · intro hok
          simp [transact, hc, hbegin] at hok
      | ok u =>
        obtain ⟨ran, hran, hrun, hall⟩ := runStatements_recorded session delete inserts w₀ []
        rw [List.nil_append] at hrun
        cases hstatements : runStatements session delete inserts w₀ with
        | mk result rest =>
          rw [hstatements] at hrun hall
          refine ⟨ran, hran, ?_, ?_⟩
          · cases result with
            | error e =>
              have hback : session.recorded.rollback (rest.2, ran) =
                (session.rollback rest.2, ran) := rfl
              simp [transact, hcancelled, hrecord, hc, hbegin, hrun, hstatements, hback]
            | ok counts =>
              have hcommit : session.recorded.commit (rest.2, ran) =
                ((session.commit rest.2).1, (session.commit rest.2).2, ran) := rfl
              cases hend : session.commit rest.2 with
              | mk result w₂ =>
                cases result <;>
                  simp [transact, hcancelled, hrecord, hc, hbegin, hrun, hstatements, hcommit, hend]
          · intro hok
            cases result with
            | error e => simp [transact, hc, hbegin, hstatements] at hok
            | ok counts => exact hall rfl

/-- What an accepted commit executes. -/
theorem commit_recorded {l : Loader} {values : Array Value} {delete : Option Delete}
    {columns : List String} (hl : l.stage = .accumulating values delete) (hc : columns ≠ [])
    (hm : values.size % columns.length = 0) (table : String) (w : ω) :
    let sizes := Batch.partition (values.size / columns.length) l.maxBatchSize
    let planned := plan delete (Batch.statements table columns l.dialect values sizes)
    ∃ ran, ran <+: planned ∧
      l.commit session.recorded table columns (w, []) =
        ((l.commit session table columns w).1, (l.commit session table columns w).2.1,
          (l.commit session table columns w).2.2, ran) ∧
      (sizes = [] → ran = []) ∧
      (sizes ≠ [] → (l.commit session table columns w).1.isOk = true → ran = planned) := by
  intro sizes planned
  by_cases hp : sizes = []
  · refine ⟨[], List.nil_prefix, ?_, fun _ => rfl, fun hne => absurd hp hne⟩
    rw [commit_of_no_batch hl hc hm hp, commit_of_no_batch hl hc hm hp]
  · have hplanned : planned = plan delete (Batch.inserts table columns l.dialect sizes
        values.toList) := by
      simp only [planned, sizes, Batch.statements_partition]
    obtain ⟨ran, hran, hrun, hall⟩ := transact_recorded session delete
      (Batch.inserts table columns l.dialect sizes values.toList) w
    refine ⟨ran, hplanned ▸ hran, ?_, fun hnil => absurd hnil hp, fun _ hok => ?_⟩
    · rw [commit_of_batches hl hc hm hp, commit_of_batches hl hc hm hp]
      simp only [sizes] at hrun ⊢
      rw [hrun]
    · rw [hplanned]
      apply hall
      rw [commit_of_batches hl hc hm hp] at hok
      simpa only [isOk_map] using hok

end Loader

end TableLoad
