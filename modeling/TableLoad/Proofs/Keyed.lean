import Mathlib
import TableLoad.Keyed

namespace TableLoad.Keyed

variable {α : Type}

@[simp] theorem find?_empty (k : String) : (empty : Keyed α).find? k = none := rfl

theorem keys_ascending (m : Keyed α) : m.keys.Pairwise (· < ·) :=
  List.pairwise_map.mpr m.ascending

theorem keys_map {β : Type} (f : String → α → β) (m : Keyed α) : (m.map f).keys = m.keys := by
  simp [map, keys]

theorem find?_eq_some {m : Keyed α} {k : String} {v : α} :
    m.find? k = some v ↔ (k, v) ∈ m.entries := by
  obtain ⟨es, ha⟩ := m
  simp only [find?]
  constructor
  · intro h
    obtain ⟨⟨l, u⟩, hfind, rfl⟩ := Option.map_eq_some_iff.mp h
    have hkey : l = k := by simpa using List.find?_some hfind
    exact hkey ▸ List.mem_of_find?_eq_some hfind
  · intro h
    induction es with
    | nil => cases h
    | cons e es ih =>
      obtain ⟨he, hes⟩ := List.pairwise_cons.mp ha
      rcases List.mem_cons.mp h with rfl | hmem
      · simp
      · have hlt : e.1 < k := he (k, v) hmem
        have hne : e.1 ≠ k := fun heq => String.lt_irrefl k (heq ▸ hlt)
        rw [List.find?_cons_of_neg (by simpa using hne)]
        exact ih hes hmem

theorem entries_nodup (m : Keyed α) : m.entries.Nodup := by
  refine m.ascending.imp fun {a b} hlt heq => ?_
  rw [heq] at hlt
  exact String.lt_irrefl _ hlt

/-- At most one entry stands under a key. -/
theorem filter_key (m : Keyed α) (k : String) :
    m.entries.filter (fun e => [k].contains e.1) = (m.find? k).toList.map fun v => (k, v) := by
  have hother {e : String × α} (h : e.1 ≠ k) : ¬ [k].contains e.1 = true := by simpa using h
  cases hfind : m.find? k with
  | none =>
    have hnone : ∀ e ∈ m.entries, ¬ [k].contains e.1 = true := by
      intro e he
      apply hother
      intro hk
      have hsome : m.find? k = some e.2 := find?_eq_some.mpr (hk ▸ he)
      rw [hfind] at hsome
      cases hsome
    exact List.filter_eq_nil_iff.mpr hnone
  | some v =>
    obtain ⟨before, behind, hsplit⟩ := List.append_of_mem (find?_eq_some.mp hfind)
    have hascending := m.ascending
    rw [hsplit, List.pairwise_append, List.pairwise_cons] at hascending
    obtain ⟨-, ⟨hbehind, -⟩, hbefore⟩ := hascending
    have hfirst : before.filter (fun e => [k].contains e.1) = [] := by
      refine List.filter_eq_nil_iff.mpr fun e he => hother ?_
      exact String.ne_of_lt (hbefore e he (k, v) List.mem_cons_self)
    have hlast : behind.filter (fun e => [k].contains e.1) = [] := by
      refine List.filter_eq_nil_iff.mpr fun e he => hother ?_
      exact (String.ne_of_lt (hbehind e he)).symm
    rw [hsplit, List.filter_append, List.filter_cons_of_pos (by simp), hfirst, hlast]
    rfl

/-- There is nothing but what is found under a key. -/
theorem ext_find? {m n : Keyed α} (h : ∀ k, m.find? k = n.find? k) : m = n := by
  have hmem : ∀ e, e ∈ m.entries ↔ e ∈ n.entries := by
    rintro ⟨k, v⟩
    rw [← find?_eq_some, ← find?_eq_some, h]
  have hperm : m.entries.Perm n.entries :=
    (List.perm_ext_iff_of_nodup m.entries_nodup n.entries_nodup).mpr hmem
  refine ext (hperm.eq_of_pairwise (fun a b _ _ hab hba => ?_) m.ascending n.ascending)
  exact absurd (String.lt_trans hab hba) (String.lt_irrefl a.1)

theorem find?_insert (m : Keyed α) (k l : String) (v : α) :
    (m.insert k v).find? l = if l = k then some v else m.find? l := by
  split
  · rename_i h
    rw [h, find?_insert_self]
  · rename_i h
    exact find?_insert_of_ne m v h

theorem ofList_append_singleton (es : List (String × α)) (k : String) (v : α) :
    ofList (es ++ [(k, v)]) = (ofList es).insert k v := by
  simp [ofList]

theorem insertEntry_of_find? {k : String} {v : α} {es : List (String × α)}
    (ha : es.Pairwise (fun a b => a.1 < b.1)) (h : (es.find? (·.1 == k)).map (·.2) = some v) :
    insertEntry k v es = es := by
  induction es with
  | nil => simp at h
  | cons e es ih =>
    obtain ⟨he, hes⟩ := List.pairwise_cons.mp ha
    by_cases hk : e.1 = k
    · have hv : e.2 = v := by simpa [hk] using h
      subst hk hv
      simp [insertEntry]
    · have hf : (es.find? (·.1 == k)).map (·.2) = some v := by simpa [hk] using h
      obtain ⟨d, hd, -⟩ := Option.map_eq_some_iff.mp hf
      have hdk : d.1 = k := by simpa using List.find?_some hd
      have hlt : e.1 < k := hdk ▸ he d (List.mem_of_find?_eq_some hd)
      have hnlt : ¬ k < e.1 := fun hc => String.lt_irrefl _ (String.lt_trans hc hlt)
      rw [insertEntry, if_neg hnlt, if_neg (Ne.symm hk), ih hes hf]

/-- Putting in what is there changes nothing. -/
theorem insert_of_find? {m : Keyed α} {k : String} {v : α} (h : m.find? k = some v) :
    m.insert k v = m :=
  ext (insertEntry_of_find? m.ascending h)

/-- The values that a function has for some keys. -/
def ofKeys (f : String → Option α) (keys : List String) : Keyed α :=
  ofList (keys.filterMap fun k => (f k).map (k, ·))

theorem ofKeys_append_singleton (f : String → Option α) (keys : List String) (key : String) :
    ofKeys f (keys ++ [key]) =
      match f key with
      | some v => (ofKeys f keys).insert key v
      | none => ofKeys f keys := by
  cases h : f key with
  | none => simp [ofKeys, List.filterMap_append, h]
  | some v =>
    simp only [ofKeys, List.filterMap_append, List.filterMap_cons, h, Option.map_some,
      List.filterMap_nil]
    exact ofList_append_singleton _ key v

theorem find?_ofKeys (f : String → Option α) (keys : List String) (key : String) :
    (ofKeys f keys).find? key = if key ∈ keys then f key else none := by
  induction keys using List.reverseRecOn with
  | nil => rfl
  | append_singleton keys k ih =>
    rw [ofKeys_append_singleton]
    by_cases hk : key = k
    · subst hk
      cases h : f key with
      | none => simp [ih, h]
      | some v => simp [find?_insert_self]
    · cases h : f k with
      | none => simp [ih, hk]
      | some v => simp [find?_insert_of_ne _ _ hk, ih, hk]

theorem ofKeys_append_of_mem (f : String → Option α) {keys : List String} {key : String}
    (h : key ∈ keys) : ofKeys f (keys ++ [key]) = ofKeys f keys := by
  rw [ofKeys_append_singleton]
  cases hf : f key with
  | none => rfl
  | some v =>
    apply insert_of_find?
    rw [find?_ofKeys, if_pos h, hf]

end TableLoad.Keyed
