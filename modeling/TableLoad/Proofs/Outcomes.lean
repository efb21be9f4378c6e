import Mathlib
import TableLoad.Record.Input

namespace TableLoad.Source

variable {σ : Type} (source : Source σ)

/-- The outcomes up to the end, or up to and with the first failure that is no record's own. -/
def outcomes (s : σ) : List (Except LoadError Record) :=
  match _h : source.next s with
  | (.ok none, _) => []
  | (.ok (some record), s') => .ok record :: outcomes s'
  | (.error e, s') =>
    if _hd : e.isDataError = true then .error e :: outcomes s' else [.error e]
termination_by source.size s
decreasing_by
  · exact source.size_lt_of_record _h
  · exact source.size_lt_of_dataError _h _hd

/-- The records that were decoded. -/
def decoded (s : σ) : List Record :=
  (source.outcomes s).filterMap Except.toOption

variable {source}

theorem outcomes_of_end {s s' : σ} (h : source.next s = (.ok none, s')) :
    source.outcomes s = [] := by
  rw [outcomes]
  split <;> simp_all

theorem outcomes_of_record {s s' : σ} {record : Record}
    (h : source.next s = (.ok (some record), s')) :
    source.outcomes s = .ok record :: source.outcomes s' := by
  rw [outcomes]
  split <;> simp_all

theorem outcomes_of_dataError {s s' : σ} {e : LoadError} (h : source.next s = (.error e, s'))
    (hd : e.isDataError = true) : source.outcomes s = .error e :: source.outcomes s' := by
  rw [outcomes]
  split <;> simp_all

theorem outcomes_of_error {s s' : σ} {e : LoadError} (h : source.next s = (.error e, s'))
    (hd : e.isDataError = false) : source.outcomes s = [.error e] := by
  rw [outcomes]
  split <;> simp_all

theorem decoded_of_end {s s' : σ} (h : source.next s = (.ok none, s')) :
    source.decoded s = [] := by
  rw [decoded, outcomes_of_end h, List.filterMap_nil]

theorem decoded_of_record {s s' : σ} {record : Record}
    (h : source.next s = (.ok (some record), s')) :
    source.decoded s = record :: source.decoded s' := by
  rw [decoded, outcomes_of_record h]
  rfl

theorem decoded_of_dataError {s s' : σ} {e : LoadError} (h : source.next s = (.error e, s'))
    (hd : e.isDataError = true) : source.decoded s = source.decoded s' := by
  rw [decoded, outcomes_of_dataError h hd]
  rfl

theorem outcomes_records (records : List Record) (given : Nat) :
    Input.source.outcomes (.records records given) = records.map .ok := by
  induction records generalizing given with
  | nil => exact outcomes_of_end rfl
  | cons record records ih =>
    have hnext : Input.source.next (.records (record :: records) given) =
        (.ok (some record), .records records (given + 1)) := rfl
    rw [outcomes_of_record hnext, ih, List.map_cons]

theorem decoded_records (records : List Record) (given : Nat) :
    Input.source.decoded (.records records given) = records := by
  rw [decoded, outcomes_records, List.filterMap_map]
  exact List.filterMap_some

end TableLoad.Source
