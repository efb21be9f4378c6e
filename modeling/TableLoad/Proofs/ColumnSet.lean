import Mathlib
import TableLoad.Column.ColumnSet

namespace TableLoad.ColumnSet

theorem contains_iff {s : ColumnSet} {name : String} : s.contains name = true ↔ name ∈ s.names := by
  simp [contains, get?, names]

theorem names_append (s : ColumnSet) (c : Column) : (s.append c).names = s.names ++ [c.name] := by
  simp [append, names]

theorem push_eq_append {s : ColumnSet} {c : Column} (h : c.name ∉ s.names) :
    s.push c = .ok (s.append c) := by
  rw [push, if_neg (fun hc => h (contains_iff.mp hc))]

theorem indexOf?_eq_none {s : ColumnSet} {name : String} :
    s.indexOf? name = none ↔ name ∉ s.names := by
  simp [indexOf?, names, List.findIdx?_eq_none_iff]

theorem at?_of_indexOf? {s : ColumnSet} {name : String} {i : Nat} (h : s.indexOf? name = some i) :
    ∃ c, s.at? i = some c ∧ c.name = name := by
  obtain ⟨hi, hn, -⟩ := List.findIdx?_eq_some_iff_getElem.mp h
  exact ⟨s.columns[i], List.getElem?_eq_getElem hi, by simpa using hn⟩

theorem indexOf?_of_at? {s : ColumnSet} (hs : s.names.Nodup) {c : Column} {i : Nat}
    (h : s.at? i = some c) : s.indexOf? c.name = some i := by
  obtain ⟨hi, rfl⟩ := List.getElem?_eq_some_iff.mp h
  apply List.findIdx?_eq_some_iff_getElem.mpr
  refine ⟨hi, by simp, fun j hj hc => ?_⟩
  have hne := List.pairwise_iff_getElem.mp hs j i (by simp [names]; omega) (by simp [names, hi]) hj
  simp only [names, List.getElem_map] at hne
  exact hne (by simpa using hc)

theorem indexOf?_of_prefix {s t : ColumnSet} (h : s.columns <+: t.columns) {name : String} {i : Nat}
    (hi : s.indexOf? name = some i) : t.indexOf? name = some i := by
  obtain ⟨cs, hcs⟩ := h
  simp only [indexOf?] at hi ⊢
  rw [← hcs, List.findIdx?_append, hi, Option.some_or]

theorem indexOf?_append_self {s : ColumnSet} {c : Column} (h : c.name ∉ s.names) :
    (s.append c).indexOf? c.name = some s.size := by
  have hn : s.columns.findIdx? (·.name == c.name) = none := indexOf?_eq_none.mpr h
  simp [indexOf?, append, size, List.findIdx?_append, hn]

/-- The column that is found first is the one found by its exact name. -/
theorem get?_of_find? {s : ColumnSet} {name : String} {c : Column} (h : s.find? name = some c) :
    s.get? c.name = some c := by
  simp only [find?] at h
  cases hg : s.get? name with
  | some d =>
    have hd : d = c := by simpa [hg] using h
    have hn : d.name = name := by simpa using List.find?_some hg
    rw [← hd, hn, hg]
  | none =>
    have hf : s.columns.find? (fun c => Text.eqIgnoreAsciiCase c.name name) = some c := by
      simpa [hg] using h
    obtain ⟨hp, as, bs, hs, hb⟩ := List.find?_eq_some_iff_append.mp hf
    refine List.find?_eq_some_iff_append.mpr ⟨by simp, as, bs, hs, fun a ha => ?_⟩
    -- An earlier column of the same name would have matched the name before.
    have hne := hb a ha
    by_contra hc
    have he : a.name = c.name := by simpa using hc
    rw [he, hp] at hne
    simp at hne

theorem ofList_append_singleton (cs : List Column) (c : Column) :
    ofList (cs ++ [c]) =
      if c.name ∈ (ofList cs).names then ofList cs else (ofList cs).append c := by
  simp only [ofList, List.foldl_append, List.foldl_cons, List.foldl_nil, contains_iff]

theorem mem_names_ofList {cs : List Column} {name : String} :
    name ∈ (ofList cs).names ↔ name ∈ cs.map Column.name := by
  induction cs using List.reverseRecOn generalizing name with
  | nil => simp [ofList, empty, names]
  | append_singleton cs c ih =>
    rw [ofList_append_singleton]
    split
    · rename_i hc
      have hmem : c.name ∈ cs.map Column.name := ih.mp hc
      simp only [ih, List.map_append, List.mem_append, List.map_cons, List.map_nil,
        List.mem_singleton]
      exact ⟨Or.inl, fun h => h.elim id fun h => h ▸ hmem⟩
    · simp only [names_append, List.mem_append, ih, List.map_append, List.map_cons, List.map_nil]

theorem names_ofList_nodup (cs : List Column) : (ofList cs).names.Nodup := by
  induction cs using List.reverseRecOn with
  | nil => simp [ofList, empty, names]
  | append_singleton cs c ih =>
    rw [ofList_append_singleton]
    split
    · exact ih
    · rename_i hc
      rw [names_append]
      exact List.nodup_append.mpr ⟨ih, by simp, fun a ha b hb => by
        rw [List.mem_singleton.mp hb]
        exact fun h => hc (h ▸ ha)⟩

theorem mem_of_mem_ofList {cs : List Column} {c : Column} (h : c ∈ (ofList cs).columns) : c ∈ cs := by
  induction cs using List.reverseRecOn with
  | nil => simp [ofList, empty] at h
  | append_singleton cs d ih =>
    rw [ofList_append_singleton] at h
    split at h
    · exact List.mem_append_left _ (ih h)
    · rcases List.mem_append.mp h with h | h
      · exact List.mem_append_left _ (ih h)
      · exact List.mem_append_right _ h

theorem ofList_prefix (cs ds : List Column) :
    (ofList cs).columns <+: (ofList (cs ++ ds)).columns := by
  induction ds using List.reverseRecOn with
  | nil => simp
  | append_singleton ds d ih =>
    rw [← List.append_assoc, ofList_append_singleton]
    split
    · exact ih
    · exact ih.trans (List.prefix_append _ _)

end TableLoad.ColumnSet
