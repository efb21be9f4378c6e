import TableLoad.Json.Basic
import TableLoad.LoadError

namespace TableLoad

/-- A source over states of some type. Every record, and every record that fails, brings the
state closer to the end of the input. -/
structure Source (σ : Type) where
  /-- The next record; none at the end of the input. -/
  next : σ → Except LoadError (Option Record) × σ
  /-- Where in the input the source stands. -/
  position : σ → Nat
  /-- How much of the input is left. -/
  size : σ → Nat
  size_lt_of_record : ∀ {s s' r}, next s = (.ok (some r), s') → size s' < size s
  size_lt_of_dataError : ∀ {s s' e}, next s = (.error e, s') → e.isDataError = true →
    size s' < size s

end TableLoad
