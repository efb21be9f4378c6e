import TableLoad.Proofs.Recorded

namespace TableLoad.Loader

open Session Database

variable {ω : Type}

/-- The steps of a commit that has batches. A batch has a number, counted from one, and knows how
many there are. -/
inductive Step
  | begin
  | delete (s : Delete)
  | batch (number total : Nat) (s : Insert)
  | finish

namespace Step

/-- The name under which a cancellation before the step is told. The last step looks for none. -/
def checkpoint? : Step → Option String
  | begin => some "begin"
  | delete _ => some "delete"
  | batch .. => some "insert"
  | finish => none

def statement? : Step → Option Statement
  | delete s => some (.delete s)
  | batch _ _ s => some (.insert s)
  | begin | finish => none

def isBatch : Step → Bool
  | batch .. => true
  | _ => false

/-- What the step asks of the database. -/
def ask (session : Session ω) (w : ω) : Step → Except String Unit × ω
  | begin => session.begin w
  | delete s =>
    ((session.execute (.delete s) w).1.map fun _ => (), (session.execute (.delete s) w).2)
  | batch _ _ s =>
    ((session.execute (.insert s) w).1.map fun _ => (), (session.execute (.insert s) w).2)
  | finish => session.commit w

/-- How the failure of the step is told. -/
def failure (message : String) : Step → LoadError
  | begin => .transaction ("begin failed: " ++ message)
  | delete _ => .delete message
  | batch number total _ => .insertBatch number total message
  | finish => .transaction ("commit failed: " ++ message)

/-- What happens to the transaction when the step stops the commit. -/
def abandon (session : Session ω) (w : ω) : Step → ω
  | delete _ | batch .. => session.rollback w
  | begin | finish => w

/-- No cancellation is in the way of the step. -/
def Open (session : Session ω) (w : ω) (step : Step) : Prop :=
  step.checkpoint? ≠ none → session.cancelled w = false

end Step

/-- Steps taken one after the other: those that were taken, the statements that were executed, and
the step that stopped with its error, if one did. -/
inductive Course (session : Session ω) :
    List Step → ω → List Step → List Statement → Option (Step × LoadError) → ω → Prop
  | done (w : ω) : Course session [] w [] [] none w
  | cancelled {step : Step} {rest : List Step} {point : String} {w : ω} :
      step.checkpoint? = some point → session.cancelled w = true →
      Course session (step :: rest) w [] [] (some (step, .cancelled point)) w
  | failed {step : Step} {rest : List Step} {message : String} {w w₁ : ω} :
      step.Open session w → step.ask session w = (.error message, w₁) →
      Course session (step :: rest) w [] step.statement?.toList
        (some (step, step.failure message)) w₁
  | took {step : Step} {rest taken : List Step} {ran : List Statement}
      {stop : Option (Step × LoadError)} {w w₁ w₂ : ω} :
      step.Open session w → step.ask session w = (.ok (), w₁) →
      Course session rest w₁ taken ran stop w₂ →
      Course session (step :: rest) w (step :: taken) (step.statement?.toList ++ ran) stop w₂

namespace Course

variable {session : Session ω} {xs ys steps taken taken' : List Step} {ran ran' : List Statement}
  {stop : Option (Step × LoadError)} {w w₁ w₂ : ω}

/-- All steps are taken, or those before the one that stops. -/
theorem taken_eq (h : Course session steps w taken ran stop w₁) :
    match stop with
    | none => steps = taken
    | some (step, _) => ∃ after, steps = taken ++ step :: after := by
  induction h with
  | done => rfl
  | cancelled | failed => exact ⟨_, rfl⟩
  | @took step rest taken ran stop w w₁ w₂ _ _ _ ih =>
    cases stop with
    | none => exact congrArg (step :: ·) ih
    | some last =>
      obtain ⟨after, hafter⟩ := ih
      exact ⟨after, congrArg (step :: ·) hafter⟩

theorem append (h : Course session xs w taken ran none w₁)
    (h' : Course session ys w₁ taken' ran' stop w₂) :
    Course session (xs ++ ys) w (taken ++ taken') (ran ++ ran') stop w₂ := by
  generalize hstop : (none : Option (Step × LoadError)) = first at h
  induction h with
  | done => exact h'
  | cancelled | failed => cases hstop
  | took hopen hask _ ih =>
    rw [List.append_assoc]
    exact took hopen hask (ih h' hstop)

/-- What follows a step that stops does not matter. -/
theorem append_stopped {last : Step × LoadError}
    (h : Course session xs w taken ran (some last) w₁) (ys : List Step) :
    Course session (xs ++ ys) w taken ran (some last) w₁ := by
  generalize hstop : some last = stop at h
  induction h with
  | done => cases hstop
  | cancelled hpoint hcancelled => exact cancelled hpoint hcancelled
  | failed hopen hask => exact failed hopen hask
  | took hopen hask _ ih => exact took hopen hask (ih hstop)

/-- A session that keeps its statements keeps those of the course. -/
theorem of_recorded {p p' : ω × List Statement}
    (h : Course session.recorded steps p taken ran stop p') :
    Course session steps p.1 taken ran stop p'.1 ∧ p'.2 = p.2 ++ ran := by
  have hask (step : Step) (q : ω × List Statement) : step.ask session.recorded q =
      ((step.ask session q.1).1, (step.ask session q.1).2, q.2 ++ step.statement?.toList) := by
    cases step <;> simp [Step.ask, Step.statement?, Session.recorded]
  induction h with
  | done p => exact ⟨done p.1, (List.append_nil p.2).symm⟩
  | @cancelled _ _ _ p hpoint hcancelled =>
    exact ⟨cancelled hpoint hcancelled, (List.append_nil p.2).symm⟩
  | failed hopen hfail =>
    rw [hask, Prod.mk.injEq] at hfail
    obtain ⟨herror, rfl⟩ := hfail
    exact ⟨failed hopen (Prod.ext herror rfl), rfl⟩
  | took hopen hok _ ih =>
    rw [hask, Prod.mk.injEq] at hok
    obtain ⟨hok, rfl⟩ := hok
    obtain ⟨hrest, hran⟩ := ih
    exact ⟨took hopen (Prod.ext hok rfl) hrest, by rw [hran, List.append_assoc]⟩

end Course

section Steps

/-- The batches of a commit that has `total` of them, behind `done` others. -/
def batches (total done : Nat) (inserts : List Insert) : List Step :=
  inserts.mapIdx fun i s => .batch (done + i + 1) total s

theorem batches_cons (total done : Nat) (s : Insert) (rest : List Insert) :
    batches total done (s :: rest) =
      .batch (done + 1) total s :: batches total (done + 1) rest := by
  simp only [batches, List.mapIdx_cons, Nat.add_right_comm done 1, Nat.add_assoc]

/-- The steps between the first and the last. -/
def statementSteps (delete : Option Delete) (inserts : List Insert) : List Step :=
  delete.toList.map .delete ++ batches inserts.length 0 inserts

def steps (delete : Option Delete) (inserts : List Insert) : List Step :=
  .begin :: (statementSteps delete inserts ++ [.finish])

theorem countP_batches (total done : Nat) (inserts : List Insert) :
    (batches total done inserts).countP Step.isBatch = inserts.length := by
  induction inserts generalizing done with
  | nil => rfl
  | cons s rest ih => rw [batches_cons, List.countP_cons_of_pos rfl, ih, List.length_cons]

theorem countP_statementSteps (delete : Option Delete) (inserts : List Insert) :
    (statementSteps delete inserts).countP Step.isBatch = inserts.length := by
  rw [statementSteps, List.countP_append, countP_batches]
  cases delete <;> simp [Step.isBatch]

theorem mem_statementSteps {delete : Option Delete} {inserts : List Insert} {step : Step}
    (h : step ∈ statementSteps delete inserts) :
    (∃ s, step = .delete s) ∨ ∃ number total s, step = .batch number total s := by
  rcases List.mem_append.mp h with h | h
  · obtain ⟨s, -, rfl⟩ := List.mem_map.mp h
    exact .inl ⟨s, rfl⟩
  · obtain ⟨i, hi, rfl⟩ := List.mem_mapIdx.mp h
    exact .inr ⟨_, _, _, rfl⟩

theorem abandon_of_mem {delete : Option Delete} {inserts : List Insert} {step : Step}
    (h : step ∈ statementSteps delete inserts) (session : Session ω) (w : ω) :
    step.abandon session w = session.rollback w := by
  rcases mem_statementSteps h with ⟨s, rfl⟩ | ⟨number, total, s, rfl⟩ <;> rfl

theorem finish_notMem (delete : Option Delete) (inserts : List Insert) :
    .finish ∉ statementSteps delete inserts := by
  intro h
  rcases mem_statementSteps h with ⟨s, hs⟩ | ⟨number, total, s, hs⟩ <;> cases hs

end Steps

/-- The result is the error of the step that stopped; where none did, it is no error. -/
def Told {α : Type} (stop : Option (Step × LoadError)) (result : Except LoadError α) : Prop :=
  match stop with
  | none => result.isOk = true
  | some (_, e) => result = .error e

section Runs

variable (session : Session ω)

theorem runInserts_course (total done inserted : Nat) (inserts : List Insert) (w : ω) :
    ∃ taken ran stop w', Course session (batches total done inserts) w taken ran stop w' ∧
      (runInserts session total done inserted inserts w).2 =
        (done + taken.countP Step.isBatch, w') ∧
      Told stop (runInserts session total done inserted inserts w).1 := by
  induction inserts generalizing done inserted w with
  | nil => exact ⟨[], [], none, w, .done w, rfl, rfl⟩
  | cons s rest ih =>
    rw [batches_cons]
    cases hc : session.cancelled w with
    | true =>
      refine ⟨[], [], some (_, .cancelled "insert"), w, .cancelled rfl hc, ?_, ?_⟩
      · simp [runInserts, hc]
      · simp [Told, runInserts, hc, CancelPoint.name]
    | false =>
      have hopen : (Step.batch (done + 1) total s).Open session w := fun _ => hc
      cases hexec : session.execute (.insert s) w with
      | mk result w₁ =>
        cases result with
        | error e =>
          refine ⟨[], _, some (_, .insertBatch (done + 1) total e), w₁,
            .failed hopen ?_, ?_, ?_⟩
          · simp [Step.ask, hexec, Except.map]
          · simp [runInserts, hc, hexec]
          · simp [Told, runInserts, hc, hexec]
        | ok n =>
          obtain ⟨taken, ran, stop, w', hcourse, hstate, htold⟩ := ih (done + 1) (inserted + n) w₁
          have hrun : runInserts session total done inserted (s :: rest) w =
              runInserts session total (done + 1) (inserted + n) rest w₁ := by
            simp [runInserts, hc, hexec]
          refine ⟨_, _, stop, w', .took hopen ?_ hcourse, ?_, ?_⟩
          · simp [Step.ask, hexec, Except.map]
          · rw [hrun, hstate, List.countP_cons_of_pos rfl, Nat.add_assoc, Nat.add_comm 1]
          · rw [hrun]
            exact htold

theorem runDelete_course (delete : Option Delete) (w : ω) :
    ∃ taken ran stop w', Course session (delete.toList.map .delete) w taken ran stop w' ∧
      (runDelete session delete w).2 = w' ∧ taken.countP Step.isBatch = 0 ∧
      Told stop (runDelete session delete w).1 := by
  cases delete with
  | none => exact ⟨[], [], none, w, .done w, rfl, rfl, rfl⟩
  | some s =>
    cases hc : session.cancelled w with
    | true =>
      refine ⟨[], [], some (_, .cancelled "delete"), w, .cancelled rfl hc, ?_, rfl, ?_⟩
      · simp [runDelete, hc]
      · simp [Told, runDelete, hc, CancelPoint.name]
    | false =>
      have hopen : (Step.delete s).Open session w := fun _ => hc
      cases hexec : session.execute (.delete s) w with
      | mk result w₁ =>
        cases result with
        | error e =>
          refine ⟨[], _, some (_, .delete e), w₁, .failed hopen ?_, ?_, rfl, ?_⟩
          · simp [Step.ask, hexec, Except.map]
          · simp [runDelete, hc, hexec]
          · simp [Told, runDelete, hc, hexec]
        | ok n =>
          refine ⟨_, _, none, w₁, .took hopen ?_ (.done w₁), ?_, rfl, ?_⟩
          · simp [Step.ask, hexec, Except.map]
          · simp [runDelete, hc, hexec]
          · simp [Told, runDelete, hc, hexec]

theorem runStatements_course (delete : Option Delete) (inserts : List Insert) (w : ω) :
    ∃ taken ran stop w', Course session (statementSteps delete inserts) w taken ran stop w' ∧
      (runStatements session delete inserts w).2 = (taken.countP Step.isBatch, w') ∧
      Told stop (runStatements session delete inserts w).1 := by
  obtain ⟨taken, ran, stop, w₁, hdelete, hstate, hnone, htold⟩ := runDelete_course session delete w
  cases hrun : runDelete session delete w with
  | mk result w₀ =>
    rw [hrun] at hstate htold
    subst hstate
    cases stop with
    | some last =>
      cases htold
      refine ⟨taken, ran, some last, w₀, hdelete.append_stopped _, ?_, ?_⟩
      · simp [runStatements, hrun, hnone]
      · simp [Told, runStatements, hrun]
    | none =>
      cases result with
      | error e => cases htold
      | ok removed =>
        obtain ⟨taken', ran', stop', w', hcourse, hstate', htold'⟩ :=
          runInserts_course session inserts.length 0 0 inserts w₀
        refine ⟨_, _, stop', w', hdelete.append hcourse, ?_, ?_⟩
        · simp only [runStatements, hrun, hstate', List.countP_append, hnone]
        · simp only [runStatements, hrun]
          cases stop' with
          | none => exact (isOk_map _ _).trans htold'
          | some last => exact congrArg (Except.map _) htold'

/-- The database once a commit is over: what the steps have made of it, or what is left when one of
them stops. -/
def leave (w : ω) : Option (Step × LoadError) → ω
  | none => w
  | some (step, _) => step.abandon session w

theorem leave_recorded (p : ω × List Statement) (stop : Option (Step × LoadError)) :
    leave session.recorded p stop = (leave session p.1 stop, p.2) := by
  rcases stop with _ | ⟨step, e⟩
  · rfl
  · cases step <;> rfl

theorem transact_course (delete : Option Delete) (inserts : List Insert) (w : ω) :
    ∃ taken ran stop w', Course session (steps delete inserts) w taken ran stop w' ∧
      (transact session delete inserts w).2 =
        (taken.countP Step.isBatch, leave session w' stop) ∧
      Told stop (transact session delete inserts w).1 := by
  cases hc : session.cancelled w with
  | true =>
    refine ⟨[], [], some (_, .cancelled "begin"), w, .cancelled rfl hc, ?_, ?_⟩
    · simp [transact, hc, leave, Step.abandon]
    · simp [Told, transact, hc, CancelPoint.name]
  | false =>
    have hopen : Step.begin.Open session w := fun _ => hc
    cases hbegin : session.begin w with
    | mk result w₀ =>
      cases result with
      | error e =>
        refine ⟨[], _, some (_, .transaction ("begin failed: " ++ e)), w₀, .failed hopen hbegin,
          ?_, ?_⟩
        · simp [transact, hc, hbegin, leave, Step.abandon]
        · simp [Told, transact, hc, hbegin]
      | ok u =>
        obtain ⟨taken, ran, stop, w₁, hcourse, hstate, htold⟩ :=
          runStatements_course session delete inserts w₀
        cases hrun : runStatements session delete inserts w₀ with
        | mk result rest =>
          rw [hrun] at hstate htold
          cases hstate
          cases stop with
          | some last =>
            cases htold
            obtain ⟨after, hafter⟩ := hcourse.taken_eq
            have hmem : last.1 ∈ statementSteps delete inserts := by rw [hafter]; simp
            refine ⟨_, _, some last, w₁, .took hopen hbegin (hcourse.append_stopped _), ?_, ?_⟩
            · simp [transact, hc, hbegin, hrun, leave, abandon_of_mem hmem, Step.isBatch]
            · simp [Told, transact, hc, hbegin, hrun]
          | none =>
            cases result with
            | error e => cases htold
            | ok counts =>
              have hfree : Step.finish.Open session w₁ := fun h => absurd rfl h
              cases hend : session.commit w₁ with
              | mk result w₂ =>
                cases result with
                | error e =>
                  refine ⟨_, _, some (_, .transaction ("commit failed: " ++ e)), w₂,
                    .took hopen hbegin (hcourse.append (.failed hfree hend)), ?_, ?_⟩
                  · simp [transact, hc, hbegin, hrun, hend, leave, Step.abandon, Step.isBatch]
                  · simp [Told, transact, hc, hbegin, hrun, hend]
                | ok u =>
                  refine ⟨_, _, none, w₂,
                    .took hopen hbegin (hcourse.append (.took hfree hend (.done w₂))), ?_, ?_⟩
                  · simp [transact, hc, hbegin, hrun, hend, leave, Step.isBatch]
                  · simp [Told, transact, hc, hbegin, hrun, hend]

end Runs

/-- Where no step stops, and where only the last one does, every batch was inserted. -/
theorem countP_of_last {session : Session ω} {delete : Option Delete} {inserts : List Insert}
    {w w₁ : ω} {taken : List Step} {ran : List Statement} {stop : Option (Step × LoadError)}
    (h : Course session (steps delete inserts) w taken ran stop w₁)
    (hlast : ∀ step e, stop = some (step, e) → step = .finish) :
    taken.countP Step.isBatch = inserts.length := by
  have hall : (steps delete inserts).countP Step.isBatch = inserts.length := by
    simp [steps, countP_statementSteps, Step.isBatch]
  have htaken := h.taken_eq
  cases stop with
  | none => rw [← hall, htaken]
  | some last =>
    obtain ⟨step, e⟩ := last
    cases hlast step e rfl
    obtain ⟨after, hafter⟩ := htaken
    rcases List.eq_nil_or_concat after with rfl | ⟨after, step, rfl⟩
    · rw [← hall, hafter]
      simp [Step.isBatch]
    · -- the last step stands only at the end, so nothing can follow it
      have hfinish : (Step.begin :: statementSteps delete inserts) ++ [.finish] =
          (taken ++ .finish :: after) ++ [step] := by
        simpa only [steps, List.concat_eq_append, List.append_assoc, List.cons_append] using hafter
      have hinit := (List.append_inj' hfinish rfl).1
      have hmem : Step.finish ∈ Step.begin :: statementSteps delete inserts := by
        rw [hinit]
        exact List.mem_append_right taken List.mem_cons_self
      rcases List.mem_cons.mp hmem with hbegin | hmem
      · cases hbegin
      · exact absurd hmem (finish_notMem delete inserts)

/-- The steps of a commit with batches are taken in order until one is found cancelled or fails;
what stops is the error of the commit, nothing is executed behind it, and the batches counted are
those that were inserted before it. Where none stops, or the last one, all of them are. -/
theorem commit_stops_at_first (session : Session ω) (dialect : Dialect) (max : Nat)
    (values : Array Value) (delete : Option Delete) (columns : List String) (hc : columns ≠ [])
    (hm : values.size % columns.length = 0)
    (hp : Batch.partition (values.size / columns.length) max ≠ []) (table : String) (w : ω) :
    let inserts := Batch.statements table columns dialect values
      (Batch.partition (values.size / columns.length) max)
    let l : Loader := ⟨dialect, max, .accumulating values delete, 0⟩
    ∃ taken ran stop w₁ result, Course session (steps delete inserts) w taken ran stop w₁ ∧
      let l' : Loader := ⟨dialect, max, .spent, taken.countP Step.isBatch⟩
      l.commit session table columns w = (result, l', leave session w₁ stop) ∧
      l.commit session.recorded table columns (w, []) =
        (result, l', leave session w₁ stop, ran) ∧
      match stop with
      | none => result.isOk = true ∧ l'.batchesInserted = inserts.length
      | some (step, e) => result = .error e ∧
          (∃ after, steps delete inserts = taken ++ step :: after) ∧
          (step = .finish → l'.batchesInserted = inserts.length) := by
  intro inserts l
  have hl : l.stage = .accumulating values delete := rfl
  have hinserts : inserts = Batch.inserts table columns dialect
      (Batch.partition (values.size / columns.length) max) values.toList :=
    Batch.statements_partition _ _ _ _ _ _
  obtain ⟨taken, ran, stop, p, hcourse, hstate, htold⟩ :=
    transact_course session.recorded delete inserts (w, [])
  obtain ⟨hplain, hran⟩ := hcourse.of_recorded
  obtain ⟨log, -, hrecorded, -⟩ := transact_recorded session delete inserts w
  rw [hrecorded] at hstate htold
  rw [leave_recorded, Prod.mk.injEq, Prod.mk.injEq] at hstate
  obtain ⟨hdone, hw, rfl⟩ := hstate
  rw [List.nil_append] at hran
  have hnone : l.batchesInserted = 0 := rfl
  -- both commits run the transaction, whose end is known
  have hcommit : l.commit session table columns w = _ := commit_of_batches hl hc hm hp table w
  have hcommit' : l.commit session.recorded table columns (w, []) = _ :=
    commit_of_batches hl hc hm hp table (w, [])
  rw [← hinserts] at hcommit hcommit'
  simp only [hrecorded, hdone, hw, hnone, Nat.zero_add] at hcommit hcommit'
  refine ⟨taken, p.2, stop, p.1, _, hran ▸ hplain, hcommit, hcommit', ?_⟩
  cases stop with
  | none => exact ⟨(isOk_map _ _).trans htold, countP_of_last hplain fun _ _ h => by cases h⟩
  | some last =>
    refine ⟨congrArg (Except.map _) htold, hplain.taken_eq, fun hlast => ?_⟩
    exact countP_of_last hplain fun _ _ h => by cases h; exact hlast

/-- The orders again, in a session that is cancelled as soon as one of them is inserted. -/
def cancelledOrders : Connection :=
  { Connection.orders with cancelAt := [.insert 1] }

/-- The delete and the first order are executed and undone; the second order never runs. -/
theorem commit_cancelled_orders : ∃ taken ran step w₁,
    Course Connection.session (steps (some ⟨"main.orders", .ofList [("id", .int 1)], .duckdb⟩)
        (Batch.statements "main.orders" ["id"] .duckdb #[.int 3, .int 4] [1, 1]))
      cancelledOrders taken ran (some (step, .cancelled "insert")) w₁ ∧
    taken.countP Step.isBatch = 1 ∧ ran.length = 2 ∧
    orders.commit Connection.session "main.orders" ["id"] cancelledOrders =
      (.error (.cancelled "insert"), ⟨.duckdb, 1, .spent, 1⟩, step.abandon Connection.session w₁) := by
  obtain ⟨taken, ran, stop, w₁, result, hcourse, hcommit, hrecorded, hstop⟩ :=
    commit_stops_at_first Connection.session .duckdb 1 #[.int 3, .int 4]
      (some ⟨"main.orders", .ofList [("id", .int 1)], .duckdb⟩) ["id"] (by decide) (by decide)
      (by decide) "main.orders" cancelledOrders
  have hrun : (orders.commit Connection.session.recorded "main.orders" ["id"]
      (cancelledOrders, [])).1 = .error (.cancelled "insert") ∧
      (orders.commit Connection.session.recorded "main.orders" ["id"]
        (cancelledOrders, [])).2.1.batchesInserted = 1 ∧
      (orders.commit Connection.session.recorded "main.orders" ["id"]
        (cancelledOrders, [])).2.2.2.length = 2 := by
    decide +kernel
  have hrecorded' : orders.commit Connection.session.recorded "main.orders" ["id"]
      (cancelledOrders, []) = _ := hrecorded
  rw [hrecorded'] at hrun
  obtain ⟨rfl, hcount, hlength⟩ := hrun
  cases stop with
  | none => cases hstop.1
  | some last =>
    obtain ⟨step, e⟩ := last
    cases hstop.1
    have hone : taken.countP Step.isBatch = 1 := hcount
    rw [hone] at hcommit
    exact ⟨taken, ran, step, w₁, hcourse, hone, hlength, hcommit⟩

end TableLoad.Loader
