import TableLoad.Proofs.ColumnForm
import TableLoad.Proofs.ColumnSet

namespace TableLoad.ColumnSet

/-- What makes a set of columns, or changes one. -/
inductive Operation
  | new
  | push (c : Column)
  | collect (cs : List Column)
  /-- Reads a set in its JSON form. -/
  | read (form : Json)

/-- The set that an operation makes, whatever was there before. -/
def Operation.made? : Operation → Option ColumnSet
  | new => some empty
  | push _ => none
  | collect cs => some (ofList cs)
  | read form => ofDocument? (.ofJson form)

/-- The set after an operation. One that is refused leaves it as it was. -/
def after (s : ColumnSet) : Operation → ColumnSet
  | .push c => (s.push c).toOption.getD s
  | o => o.made?.getD s

def build (ops : List Operation) : ColumnSet :=
  ops.foldl after empty

/-- The set that was made last. -/
def lastMade? (ops : List Operation) : Option ColumnSet :=
  (ops.filterMap Operation.made?).getLast?

/-- Every column is what its name leads to, by its place and by itself. -/
def FindsAll (s : ColumnSet) : Prop :=
  ∀ i c, s.at? i = some c →
    s.indexOf? c.name = some i ∧ s.get? c.name = some c ∧ s.find? c.name = some c

section Lookups

variable {s : ColumnSet} {name : String}

/-- What is found under a name is the column at the first place of the name. -/
theorem get?_eq_at? (s : ColumnSet) (name : String) :
    s.get? name = (s.indexOf? name).bind s.at? :=
  List.find?_eq_bind_findIdx?_getElem?

theorem find?_of_get? {c : Column} (h : s.get? name = some c) : s.find? name = some c := by
  rw [find?, h]
  rfl

theorem names_nodup_iff_findsAll : s.names.Nodup ↔ s.FindsAll := by
  constructor
  · intro hs i c hat
    have hindex := indexOf?_of_at? hs hat
    have hget : s.get? c.name = some c := by rw [get?_eq_at?, hindex, Option.bind_some, hat]
    exact ⟨hindex, hget, find?_of_get? hget⟩
  · intro hfinds
    -- a name at two places would lead to both
    refine List.pairwise_iff_getElem.mpr fun i j hi hj hlt heq => ?_
    have hsize : s.names.length = s.columns.length := List.length_map _
    simp only [names, List.getElem_map] at heq
    have hfirst := (hfinds i _ (List.getElem?_eq_getElem (by omega))).1
    have hsecond := (hfinds j _ (List.getElem?_eq_getElem (by omega))).1
    rw [heq, hsecond, Option.some.injEq] at hfirst
    omega

end Lookups

section Operations

variable {s t : ColumnSet} {c : Column} {o : Operation} {ops : List Operation}

theorem push_of_mem (h : c.name ∈ s.names) : (∃ e, s.push c = .error e) ∧ s.after (.push c) = s := by
  have hpush : s.push c = .error (.other ("Duplicate column '" ++ c.name ++ "' in column set")) := by
    rw [push, if_pos (contains_iff.mpr h)]
  refine ⟨⟨_, hpush⟩, ?_⟩
  rw [after, hpush]
  rfl

theorem after_push (h : c.name ∉ s.names) : s.after (.push c) = s.append c := by
  rw [after, push_eq_append h]
  rfl

theorem after_of_made (h : o.made? = some t) : s.after o = t := by
  cases o with
  | push c => cases h
  | new | collect cs | read form => simp [after, h]

theorem names_append_nodup (h : c.name ∉ s.names) :
    (s.append c).names.Nodup ↔ s.names.Nodup := by
  rw [names_append, ← List.concat_eq_append, List.nodup_concat]
  exact and_iff_right h

/-- An operation that makes no set keeps distinct names distinct, and repeated ones repeated. -/
theorem after_nodup_iff (h : o.made? = none) : (s.after o).names.Nodup ↔ s.names.Nodup := by
  cases o with
  | new | collect cs => cases h
  | read form => simp [after, h]
  | push c =>
    by_cases hc : c.name ∈ s.names
    · rw [(push_of_mem hc).2]
    · rw [after_push hc, names_append_nodup hc]

theorem build_append_singleton (ops : List Operation) (o : Operation) :
    build (ops ++ [o]) = (build ops).after o :=
  List.foldl_concat ..

theorem lastMade?_append_singleton (ops : List Operation) (o : Operation) :
    lastMade? (ops ++ [o]) = o.made?.or (lastMade? ops) := by
  rw [lastMade?, List.filterMap_append, List.getLast?_append, lastMade?]
  cases h : o.made? <;> simp [h]

/-- Whether names are distinct is settled when a set is made as a whole. -/
theorem build_nodup_iff (ops : List Operation) :
    (build ops).names.Nodup ↔ ∀ t, lastMade? ops = some t → t.names.Nodup := by
  induction ops using List.reverseRecOn with
  | nil => simp [build, empty, names, lastMade?]
  | append_singleton ops o ih =>
    rw [build_append_singleton, lastMade?_append_singleton]
    cases hmade : o.made? with
    | none => rw [after_nodup_iff hmade, ih, Option.none_or]
    | some t =>
      rw [after_of_made hmade, Option.some_or]
      simp

/-- A set that is made with a name twice was read. -/
theorem exists_read_of_made (h : o.made? = some t) (hnot : ¬ t.names.Nodup) :
    ∃ form, o = .read form ∧ ofDocument? (.ofJson form) = some t := by
  cases o with
  | push c => cases h
  | new =>
    cases h
    exact absurd List.nodup_nil hnot
  | collect cs =>
    cases h
    exact absurd (names_ofList_nodup cs) hnot
  | read form => exact ⟨form, rfl, h⟩

end Operations

/-- In a set built by any operations the names are distinct, and every column is found under its
name, exactly when this holds of the set that was made last; and if it does not, that set was read
from a form with a name twice. A push is refused where its name is there, and changes nothing then.
A set that is written in its JSON form is read as that set. -/
theorem build_distinct_iff (ops : List Operation) :
    ((build ops).names.Nodup ↔ ∀ t, lastMade? ops = some t → t.names.Nodup) ∧
    (∀ t, lastMade? ops = some t → ¬ t.names.Nodup →
      ∃ form, .read form ∈ ops ∧ ofDocument? (.ofJson form) = some t) ∧
    ((build ops).names.Nodup ↔ (build ops).FindsAll) ∧
    (∀ c, c.name ∈ (build ops).names →
      (∃ e, (build ops).push c = .error e) ∧ (build ops).after (.push c) = build ops) ∧
    (∀ c, c.name ∉ (build ops).names → (build ops).push c = .ok ((build ops).append c)) ∧
    ofDocument? (.ofJson (build ops).toJson) = some (build ops) := by
  refine ⟨build_nodup_iff ops, fun t hlast hnot => ?_, names_nodup_iff_findsAll,
    fun c hc => push_of_mem hc, fun c hc => push_eq_append hc, ofDocument?_toJson _⟩
  obtain ⟨o, ho, hmade⟩ := List.mem_filterMap.mp (List.mem_of_getLast? hlast)
  obtain ⟨form, rfl, hread⟩ := exists_read_of_made hmade hnot
  exact ⟨form, ho, hread⟩

/-- Two columns of one name. -/
def twiceNamed : List Column :=
  [.declared "id" "INTEGER" false none, .declared "id" "VARCHAR" true none]

/-- The second column is never found under its name. -/
theorem read_twiceNamed : ¬ (build [.read (ColumnSet.mk twiceNamed).toJson]).names.Nodup ∧
    ∃ c, (build [.read (ColumnSet.mk twiceNamed).toJson]).at? 1 = some c ∧
      (build [.read (ColumnSet.mk twiceNamed).toJson]).get? c.name ≠ some c ∧
      (build [.read (ColumnSet.mk twiceNamed).toJson]).find? c.name ≠ some c := by
  have hread : build [.read (ColumnSet.mk twiceNamed).toJson] = ⟨twiceNamed⟩ := by
    rw [build, List.foldl_cons, List.foldl_nil]
    exact after_of_made (ofDocument?_toJson _)
  rw [hread]
  exact ⟨by decide, _, rfl, by decide, by decide⟩

end TableLoad.ColumnSet
