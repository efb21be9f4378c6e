import TableLoad.Destination
import TableLoad.Proofs.Commit

namespace TableLoad

theorem TableRef.parse_phase {identifier schema : String} {e : LoadError}
    (h : TableRef.parse identifier schema = .error e) : e.phase = "config" := by
  simp only [TableRef.parse] at h
  split at h
  · cases h
    rfl
  · split at h <;> cases h
    rfl

theorem Destination.resolve_phase {destination : Destination} {table : String} {e : LoadError}
    (h : destination.resolve table = .error e) : e.phase = "config" := by
  rw [resolve] at h
  cases hparse : TableRef.parse table destination.schema with
  | ok t =>
    rw [hparse] at h
    cases h
  | error e' =>
    rw [hparse] at h
    cases h
    exact TableRef.parse_phase hparse

namespace Loader

variable {ω : Type} {session : Session ω}

/-- The phases in which a transaction fails. -/
def transactPhases : List String :=
  ["cancelled", "transaction", "delete", "insert"]

theorem runDelete_phase {delete : Option Delete} {w w' : ω} {e : LoadError}
    (h : runDelete session delete w = (.error e, w')) : e.phase ∈ transactPhases := by
  cases delete with
  | none => cases h
  | some s =>
    simp only [runDelete] at h
    split at h
    · cases h
      decide
    · split at h
      · cases h
        simp [LoadError.phase, transactPhases]
      · cases h

theorem runInserts_phase {total done inserted : Nat} {inserts : List Insert} {w w' : ω}
    {e : LoadError} {done' : Nat}
    (h : runInserts session total done inserted inserts w = (.error e, done', w')) :
    e.phase ∈ transactPhases := by
  induction inserts generalizing done inserted w with
  | nil => cases h
  | cons s rest ih =>
    simp only [runInserts] at h
    split at h
    · cases h
      decide
    · split at h
      · cases h
        simp [LoadError.phase, transactPhases]
      · exact ih h

theorem runStatements_phase {delete : Option Delete} {inserts : List Insert} {w w' : ω}
    {e : LoadError} {done : Nat}
    (h : runStatements session delete inserts w = (.error e, done, w')) :
    e.phase ∈ transactPhases := by
  simp only [runStatements] at h
  split at h
  · rename_i hdel
    cases h
    exact runDelete_phase hdel
  · rename_i removed w₁ hdel
    cases hins : runInserts session inserts.length 0 0 inserts w₁ with
    | mk result rest =>
      rw [hins] at h
      cases result with
      | ok n => cases h
      | error e' =>
        cases h
        exact runInserts_phase hins

theorem transact_phase {delete : Option Delete} {inserts : List Insert} {w w' : ω} {e : LoadError}
    {done : Nat} (h : transact session delete inserts w = (.error e, done, w')) :
    e.phase ∈ transactPhases := by
  simp only [transact] at h
  split at h
  · cases h
    decide
  · split at h
    · cases h
      simp [LoadError.phase, transactPhases]
    · split at h
      · rename_i hrun
        cases h
        exact runStatements_phase hrun
      · split at h
        · cases h
          simp [LoadError.phase, transactPhases]
        · cases h

/-- A commit of whole rows fails in its transaction or not at all. -/
theorem commit_phase {l l' : Loader} {values : Array Value} {delete : Option Delete}
    (hl : l.stage = .accumulating values delete) {columns : List String} (hc : columns ≠ [])
    (hm : values.size % columns.length = 0) {table : String} {w w' : ω} {e : LoadError}
    (h : l.commit session table columns w = (.error e, l', w')) : e.phase ∈ transactPhases := by
  by_cases hp : Batch.partition (values.size / columns.length) l.maxBatchSize = []
  · rw [commit_of_no_batch hl hc hm hp] at h
    cases h
  · rw [commit_of_batches hl hc hm hp] at h
    cases hrun : transact session delete (Batch.inserts table columns l.dialect
        (Batch.partition (values.size / columns.length) l.maxBatchSize) values.toList) w with
    | mk result rest =>
      rw [hrun] at h
      cases result with
      | ok counts => cases h
      | error e' =>
        cases h
        exact transact_phase hrun

end Loader

end TableLoad
